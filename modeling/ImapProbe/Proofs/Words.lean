import ImapProbe.Text.Blank

/-!
# Words between blanks

A text is made of words that hold no blank, of blanks between them, and of blanks at its ends or
none (`Spaced`). The words of a text are the only ones it is made of in this way (`words_iff`).
-/

namespace ImapProbe

/-- A text of these words: blanks stand between any two of them, and may stand at the ends. -/
inductive Spaced : List Char → List (List Char) → Prop
  | blanks {gap : List Char} : (∀ c ∈ gap, isBlank c) → Spaced gap []
  | word {gap word rest : List Char} {ws : List (List Char)} : (∀ c ∈ gap, isBlank c) →
    word ≠ [] → (∀ c ∈ word, isBlank c = false) → (∀ c, rest.head? = some c → isBlank c) →
    Spaced rest ws → Spaced (gap ++ (word ++ rest)) (word :: ws)

section Words

variable {c : Char} {cs gap word rest : List Char} {ws : List (List Char)}

theorem words_blank (h : isBlank c) (cs : List Char) : words (c :: cs) = words cs := by
  rw [words.eq_def]
  exact if_pos h

theorem words_gap (h : ∀ c ∈ gap, isBlank c) (cs : List Char) : words (gap ++ cs) = words cs := by
  induction gap with
  | nil => rfl
  | cons c gap ih =>
    obtain ⟨hc, hgap⟩ := List.forall_mem_cons.1 h
    rw [List.cons_append, words_blank hc, ih hgap]

theorem words_one (hc : isBlank c = false) (hrest : ∀ d, rest.head? = some d → isBlank d) :
    words (c :: rest) = [c] :: words rest := by
  rw [words.eq_def]
  rcases rest with _ | ⟨d, rest⟩
  · simp only [hc]
    rfl
  · simp only [hc, hrest d rfl]
    rfl

theorem words_more {d : Char} (hc : isBlank c = false) (hd : isBlank d = false)
    (hws : words (d :: cs) = word :: ws) : words (c :: d :: cs) = (c :: word) :: ws := by
  rw [words.eq_def]
  simp only [hc, hd, hws]
  rfl

theorem words_word (hne : word ≠ []) (hword : ∀ c ∈ word, isBlank c = false)
    (hrest : ∀ c, rest.head? = some c → isBlank c) :
    words (word ++ rest) = word :: words rest := by
  induction word with
  | nil => exact absurd rfl hne
  | cons c word ih =>
    obtain ⟨hc, hword⟩ := List.forall_mem_cons.1 hword
    rcases word with _ | ⟨d, word⟩
    · exact words_one hc hrest
    · exact words_more hc (hword d List.mem_cons_self) (ih (by simp) hword)

theorem Spaced.words_eq (h : Spaced cs ws) : words cs = ws := by
  induction h with
  | @blanks gap hgap =>
    have hws := words_gap hgap []
    rwa [List.append_nil] at hws
  | word hgap hne hword hrest _ ih => rw [words_gap hgap, words_word hne hword hrest, ih]

theorem Spaced.cons_blank (h : Spaced cs ws) (hc : isBlank c) : Spaced (c :: cs) ws := by
  cases h with
  | blanks hgap => exact .blanks (List.forall_mem_cons.2 ⟨hc, hgap⟩)
  | word hgap hne hword hrest h =>
    rw [← List.cons_append]
    exact .word (List.forall_mem_cons.2 ⟨hc, hgap⟩) hne hword hrest h

/-- A character that is no blank begins the first word, or is one of its own before a blank. -/
theorem Spaced.exists_cons (h : Spaced cs ws) (hc : isBlank c = false) :
    ∃ ws', Spaced (c :: cs) ws' := by
  have hone : ∀ d ∈ [c], isBlank d = false := by simpa using hc
  have hnone : ∀ d ∈ ([] : List Char), isBlank d := by simp
  cases h with
  | blanks hgap =>
    refine ⟨[[c]], .word hnone (by simp) hone (fun d hd => hgap d (List.mem_of_mem_head? hd)) ?_⟩
    exact .blanks hgap
  | @word gap word rest ws hgap hne hword hrest h =>
    rcases gap with _ | ⟨g, gap⟩
    · exact ⟨(c :: word) :: ws,
        .word hnone (by simp) (List.forall_mem_cons.2 ⟨hc, hword⟩) hrest h⟩
    · refine ⟨[c] :: word :: ws, .word hnone (by simp) hone ?_ (.word hgap hne hword hrest h)⟩
      rintro d hd
      obtain rfl := Option.some.inj hd
      exact hgap _ List.mem_cons_self

theorem exists_spaced : ∀ cs : List Char, ∃ ws, Spaced cs ws
  | [] => ⟨[], .blanks (by simp)⟩
  | c :: cs => by
    obtain ⟨ws, h⟩ := exists_spaced cs
    rcases hc : isBlank c with _ | _
    · exact h.exists_cons hc
    · exact ⟨ws, h.cons_blank hc⟩

theorem Spaced.notMem (h : Spaced cs ws) (hc : isBlank c = false) (hws : ∀ word ∈ ws, c ∉ word) :
    c ∉ cs := by
  induction h with
  | blanks hgap =>
    intro hmem
    simp [hgap c hmem] at hc
  | word hgap _ _ _ _ ih =>
    obtain ⟨hword, hws⟩ := List.forall_mem_cons.1 hws
    simp only [List.mem_append, not_or]
    refine ⟨fun hmem => ?_, hword, ih hws⟩
    simp [hgap c hmem] at hc

/-- Words with one blank between any two. -/
theorem spaced_intercalate {blank : Char} (hblank : isBlank blank) :
    ∀ {ws : List (List Char)}, (∀ word ∈ ws, word ≠ [] ∧ ∀ c ∈ word, isBlank c = false) →
      Spaced ([blank].intercalate ws) ws
  | [], _ => .blanks (List.forall_mem_nil _)
  | [word], h => by
    obtain ⟨hne, hword⟩ := h word List.mem_cons_self
    have hend : ∀ c, ([] : List Char).head? = some c → isBlank c := by simp
    have hone := Spaced.word (List.forall_mem_nil _) hne hword hend
      (.blanks (List.forall_mem_nil _))
    simpa using hone
  | word :: next :: ws, h => by
    obtain ⟨⟨hne, hword⟩, hws⟩ := List.forall_mem_cons.1 h
    have hrest := (spaced_intercalate hblank hws).cons_blank hblank
    have hstart : ∀ c, (blank :: [blank].intercalate (next :: ws)).head? = some c → isBlank c := by
      rintro c hc
      rwa [← Option.some.inj hc]
    rw [List.intercalate_cons_cons, List.append_assoc]
    exact Spaced.word (List.forall_mem_nil _) hne hword hstart hrest

end Words

theorem words_iff {cs : List Char} {ws : List (List Char)} : words cs = ws ↔ Spaced cs ws := by
  refine ⟨fun h => ?_, Spaced.words_eq⟩
  obtain ⟨ws', h'⟩ := exists_spaced cs
  rwa [← h, h'.words_eq]

end ImapProbe
