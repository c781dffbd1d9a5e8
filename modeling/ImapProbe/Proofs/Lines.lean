import ImapProbe.Bytes

/-!
# Lines

Octets are cut into lines behind each line feed, so all lines end in their only line feed, but for
the last, which may have none (`ruled_lines`). What stands behind a line feed is cut by itself
(`lines_append`), and a line begins where the octets do or behind a line feed
(`begins_of_mem_lines`). A text without a line feed stands in one line, wherever it stands
(`exists_endsLine`, `lines_prefix`).
-/

namespace ImapProbe.Bytes

/-- Pieces that each end in their only line feed, but for the last, which may have none. -/
inductive Ruled : List Bytes → Prop
  | nil : Ruled []
  | last {text : Bytes} : text ≠ [] → lf ∉ text → Ruled [text]
  | line {text : Bytes} {ls : List Bytes} : lf ∉ text → Ruled ls → Ruled ((text ++ [lf]) :: ls)

section Cuts

variable {b : UInt8} {bs text : Bytes}

theorem lines_cons (h : b ≠ lf) :
    lines (b :: bs) = match lines bs with
      | [] => [[b]]
      | l :: ls => (b :: l) :: ls := by
  rw [lines, cutAfter, beq_false_of_ne h]
  rfl

theorem lines_eq_nil_iff : lines bs = [] ↔ bs = [] := by
  refine ⟨fun h => ?_, fun h => h ▸ rfl⟩
  rw [← flatten_lines bs, h]
  rfl

theorem lines_line (h : lf ∉ text) (rest : Bytes) :
    lines (text ++ lf :: rest) = (text ++ [lf]) :: lines rest := by
  induction text with
  | nil => rfl
  | cons b text ih =>
    rw [List.mem_cons, not_or] at h
    rw [List.cons_append, lines_cons (Ne.symm h.1), ih h.2]
    rfl

/-- What stands behind a line feed is cut by itself. -/
theorem lines_append (front rest : Bytes) :
    lines (front ++ lf :: rest) = lines (front ++ [lf]) ++ lines rest := by
  induction front with
  | nil => rfl
  | cons b front ih =>
    rw [List.cons_append, List.cons_append]
    by_cases hb : b = lf
    · subst hb
      exact congrArg ([lf] :: ·) ih
    · rw [lines_cons hb, lines_cons hb, ih]
      rcases hl : lines (front ++ [lf]) with _ | ⟨l, ls⟩
      · simp [lines_eq_nil_iff] at hl
      · rfl

theorem Ruled.cons {l : Bytes} {ls : List Bytes} (h : Ruled (l :: ls)) (hb : b ≠ lf) :
    Ruled ((b :: l) :: ls) := by
  cases h with
  | last hne hl => exact .last (by simp) (by simpa [Ne.symm hb] using hl)
  | @line text _ hl hls =>
    exact .line (show lf ∉ b :: text by simpa [Ne.symm hb] using hl) hls

theorem ruled_lines : ∀ bs : Bytes, Ruled (lines bs)
  | [] => .nil
  | b :: bs => by
    have ih := ruled_lines bs
    by_cases hb : b = lf
    · subst hb
      exact .line (List.not_mem_nil : lf ∉ []) ih
    · rw [lines_cons hb]
      rcases hl : lines bs with _ | ⟨l, ls⟩
      · exact .last (by simp) (by simpa using Ne.symm hb)
      · exact (hl ▸ ih).cons hb

end Cuts

section Places

variable {front text bs l : Bytes}

theorem infix_of_mem_lines (h : l ∈ lines bs) : l <:+: bs := by
  have hl := List.infix_of_mem_flatten h
  rwa [flatten_lines] at hl

/-- Octets that end where a line may begin. -/
def EndsLine (front : Bytes) : Prop := front = [] ∨ [lf] <:+ front

theorem EndsLine.lines_append (h : EndsLine front) (rest : Bytes) :
    lines (front ++ rest) = lines front ++ lines rest := by
  rcases h with rfl | ⟨text, rfl⟩
  · rfl
  · rw [List.append_assoc, List.singleton_append, Bytes.lines_append]

theorem EndsLine.eq_nil (h : EndsLine (front ++ text)) (htext : lf ∉ text) : text = [] := by
  rcases List.eq_nil_or_concat text with rfl | ⟨init, b, rfl⟩
  · rfl
  · rw [List.concat_eq_append] at h htext
    rcases h with h | ⟨before, h⟩
    · simp at h
    · rw [← List.append_assoc] at h
      have hb : [lf] = [b] := List.append_inj_right' h rfl
      rw [← hb] at htext
      simp at htext

/-- Octets are whole lines and the beginning of one. -/
theorem exists_endsLine (bs : Bytes) :
    ∃ front text, bs = front ++ text ∧ EndsLine front ∧ lf ∉ text := by
  by_cases h : lf ∈ bs
  · obtain ⟨text, front, hbs, htext⟩ := List.eq_append_cons_of_mem (List.mem_reverse.2 h)
    refine ⟨front.reverse ++ [lf], text.reverse, ?_, .inr ⟨_, rfl⟩, by simpa using htext⟩
    simpa using congrArg List.reverse hbs
  · exact ⟨[], bs, rfl, .inl rfl, h⟩

theorem lines_prefix (hne : text ≠ []) (htext : lf ∉ text) (rest : Bytes) :
    ∃ more ls, lines (text ++ rest) = (text ++ more) :: ls := by
  induction text with
  | nil => exact absurd rfl hne
  | cons b text ih =>
    obtain ⟨hb, htext⟩ := not_or.1 (mt List.mem_cons.2 htext)
    rcases text with _ | ⟨c, text⟩
    · rw [List.singleton_append, lines_cons (Ne.symm hb)]
      rcases lines rest with _ | ⟨l, ls⟩
      · exact ⟨[], [], rfl⟩
      · exact ⟨l, ls, rfl⟩
    · obtain ⟨more, ls, hls⟩ := ih (by simp) htext
      rw [List.cons_append, lines_cons (Ne.symm hb), hls]
      exact ⟨more, ls, rfl⟩

end Places

/-- A word stands at the beginning of a line: where the octets begin, or behind a line feed. -/
def BeginsLine (word bs : Bytes) : Prop := word <+: bs ∨ lf :: word <:+: bs

instance (word bs : Bytes) : Decidable (BeginsLine word bs) :=
  inferInstanceAs (Decidable (word <+: bs ∨ lf :: word <:+: bs))

theorem Ruled.begins {word l : Bytes} {ls : List Bytes} (h : Ruled ls) (hl : l ∈ ls)
    (hword : word <+: l) : BeginsLine word ls.flatten := by
  induction h with
  | nil => simp at hl
  | last =>
    obtain rfl := List.mem_singleton.1 hl
    rw [List.flatten_singleton]
    exact .inl hword
  | @line text ls _ _ ih =>
    rw [List.flatten_cons]
    rcases List.mem_cons.1 hl with rfl | hl
    · exact .inl (hword.trans (List.prefix_append ..))
    · right
      rcases ih hl with hfirst | hlater
      · obtain ⟨behind, hb⟩ := hfirst
        exact ⟨text, behind, by rw [← hb]; simp⟩
      · exact hlater.trans (List.suffix_append ..).isInfix

theorem begins_of_mem_lines {word l bs : Bytes} (hl : l ∈ lines bs) (hword : word <+: l) :
    BeginsLine word bs :=
  flatten_lines bs ▸ (ruled_lines bs).begins hl hword

end ImapProbe.Bytes
