import ImapProbe.Corpus.Preparation
import ImapProbe.Proofs.Lines
import Mathlib.Data.List.TakeWhile

/-!
# The mail of a test vector

The mail is found line by line. A line feed is no part of the marker, so the marker stands in one
line wherever it stands, and the lines before the first that holds it are what precedes the line of
its first place in the whole vector (`mail_of_marked`). The mail is therefore the longest run of
whole lines from the beginning that is free of the marker (`mail_ends`).
-/

namespace ImapProbe

namespace Bytes

/-- A word stands behind these octets, and nowhere before. -/
structure StandsFirst (word before bs : Bytes) : Prop where
  stands : before ++ word <+: bs
  first : ∀ earlier, earlier ++ word <+: bs → before.length ≤ earlier.length

theorem exists_standsFirst {word : Bytes} :
    ∀ {bs : Bytes}, word <:+: bs → ∃ before, StandsFirst word before bs
  | [], h => ⟨[], List.prefix_nil.2 (List.infix_nil.1 h), fun _ _ => Nat.zero_le _⟩
  | b :: bs, h => by
    by_cases hword : word <+: b :: bs
    · exact ⟨[], hword, fun _ _ => Nat.zero_le _⟩
    · obtain ⟨before, hstands, hfirst⟩ :=
        exists_standsFirst ((List.infix_cons_iff.1 h).resolve_left hword)
      refine ⟨b :: before, List.cons_prefix_cons.2 ⟨rfl, hstands⟩, fun earlier hearlier => ?_⟩
      rcases earlier with _ | ⟨c, earlier⟩
      · exact absurd hearlier hword
      · exact Nat.succ_le_succ (hfirst earlier (List.cons_prefix_cons.1 hearlier).2)

/-- Lines from the first on, each of them whole; the last line of all may have no line feed. -/
def WholeLines (part bs : Bytes) : Prop := part <+: bs ∧ (EndsLine part ∨ part = bs)

end Bytes

namespace TestVector

open Bytes

theorem lf_notMem_marker : lf ∉ marker := by decide

theorem marker_ne_nil : marker ≠ [] := by decide

section Searches

variable {content front text part : Bytes}

theorem not_holds_of_mem_lines (h : ¬marker <:+: content) :
    ∀ l ∈ lines content, (!holds marker l) = true := by
  intro l hl
  rw [Bool.not_eq_true', ← Bool.not_eq_true, holds_iff]
  exact fun hmarker => h (hmarker.trans (infix_of_mem_lines hl))

theorem mail_of_unmarked (h : ¬marker <:+: content) : mail content = content := by
  rw [mail, List.takeWhile_eq_self_iff.2 (not_holds_of_mem_lines h), flatten_lines]

/-- The lines before the marker's are passed, and the line in which it stands is not. -/
theorem mail_of_marked (hfront : EndsLine front) (hunmarked : ¬marker <:+: front)
    (htext : lf ∉ text) (after : Bytes) : mail (front ++ (text ++ marker ++ after)) = front := by
  have hmarked : lf ∉ text ++ marker := by
    rw [List.mem_append, not_or]
    exact ⟨htext, lf_notMem_marker⟩
  obtain ⟨more, ls, hfirst⟩ := lines_prefix (by simp [marker_ne_nil]) hmarked after
  have hholds : holds marker (text ++ marker ++ more) := holds_iff.2 ⟨text, more, rfl⟩
  rw [mail, hfront.lines_append, hfirst,
    List.takeWhile_append_of_pos (not_holds_of_mem_lines hunmarked),
    List.takeWhile_cons_of_neg (by rw [hholds]; decide), List.append_nil, flatten_lines]

theorem exists_marked (h : marker <:+: content) :
    ∃ front text after, content = front ++ (text ++ marker ++ after) ∧ EndsLine front
      ∧ lf ∉ text ∧ ¬marker <:+: front ∧ StandsFirst marker (front ++ text) content := by
  obtain ⟨before, hstands, hfirst⟩ := exists_standsFirst h
  obtain ⟨front, text, rfl, hfront, htext⟩ := exists_endsLine before
  obtain ⟨after, hafter⟩ := id hstands
  refine ⟨front, text, after, by simp [← hafter], hfront, htext, ?_, hstands, hfirst⟩
  rintro ⟨earlier, between, hearlier⟩
  have hle := hfirst earlier ⟨between ++ (text ++ marker ++ after), by
    rw [← hafter, ← hearlier]
    simp⟩
  have hlen := congrArg List.length hearlier
  have hmarker := List.length_pos_iff.2 marker_ne_nil
  simp only [List.length_append] at hle hlen
  omega

/-- Whole lines that go on behind the beginning of the marker's line go on behind the marker. -/
theorem prefix_of_unmarked {after : Bytes}
    (hpart : WholeLines part (front ++ (text ++ marker ++ after))) (htext : lf ∉ text)
    (hunmarked : ¬marker <:+: part) : part <+: front := by
  obtain ⟨hbegins, hends⟩ := hpart
  have hmarker : marker <:+: front ++ (text ++ marker ++ after) := ⟨front ++ text, after, by simp⟩
  have hends : EndsLine part := hends.resolve_right fun h => hunmarked (h ▸ hmarker)
  rcases List.prefix_or_prefix_of_prefix hbegins (List.prefix_append front _) with h | ⟨more, rfl⟩
  · exact h
  · have hmore := (List.prefix_append_right_inj front).1 hbegins
    rcases List.prefix_or_prefix_of_prefix hmore (List.prefix_append _ after) with h | ⟨rest, rfl⟩
    · have hlf : lf ∉ more := fun hm => by
        rcases List.mem_append.1 (h.subset hm) with hm | hm
        · exact htext hm
        · exact lf_notMem_marker hm
      rw [hends.eq_nil hlf]
      exact ⟨[], by simp⟩
    · exact absurd ⟨front ++ text, rest, by simp⟩ hunmarked

end Searches

/-- A vector without the marker is all mail. Else the mail ends where the line begins in which the
marker stands first. So the mail is free of the marker, no longer run of whole lines is, and nothing
is cut from it again. -/
theorem mail_ends (content : Bytes) :
    (¬marker <:+: content → mail content = content)
      ∧ (marker <:+: content → ∃ opening, lf ∉ opening ∧ EndsLine (mail content)
        ∧ StandsFirst marker (mail content ++ opening) content)
      ∧ ¬marker <:+: mail content ∧ WholeLines (mail content) content
      ∧ (∀ part, WholeLines part content → ¬marker <:+: part → part <+: mail content)
      ∧ mail (mail content) = mail content := by
  by_cases hmarked : marker <:+: content
  · obtain ⟨front, text, after, hcontent, hfront, htext, hunmarked, hfirst⟩ :=
      exists_marked hmarked
    have hmail : mail content = front := hcontent ▸ mail_of_marked hfront hunmarked htext after
    rw [hmail]
    refine ⟨fun h => absurd hmarked h, fun _ => ⟨text, htext, hfront, hfirst⟩, hunmarked,
      ⟨hcontent ▸ List.prefix_append .., .inl hfront⟩, fun part hpart h => ?_,
      mail_of_unmarked hunmarked⟩
    exact prefix_of_unmarked (hcontent ▸ hpart) htext h
  · have hmail : mail content = content := mail_of_unmarked hmarked
    rw [hmail]
    exact ⟨fun _ => rfl, fun h => absurd h hmarked, hmarked, ⟨List.prefix_rfl, .inr rfl⟩,
      fun _ hpart _ => hpart.1, hmail⟩

/-- The marker stands twice in a line that has no line feed, behind one that nearly holds it. -/
theorem mail_ends_twice :
    let content := utf8 "a\r\nEXPECTED STRUCTUR\n-- EXPECTED STRUCTUREXPECTED STRUCTURE"
    marker <:+: content ∧ mail content = utf8 "a\r\nEXPECTED STRUCTUR\n"
      ∧ ∃ opening, lf ∉ opening ∧ StandsFirst marker (mail content ++ opening) content := by
  intro content
  have hmarked : marker <:+: content := holds_iff.1 (by decide +kernel)
  obtain ⟨opening, hopening, -, hfirst⟩ := (mail_ends content).2.1 hmarked
  exact ⟨hmarked, by decide +kernel, opening, hopening, hfirst⟩

end TestVector

end ImapProbe
