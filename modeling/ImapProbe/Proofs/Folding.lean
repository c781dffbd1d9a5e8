import ImapProbe.Artifact
import Mathlib.Data.List.TakeWhile

/-!
# Folded octets and their artifact

However octets are cut into parts, their artifact is the longest end of them that begins with a
parenthesis. So more parts only add to an artifact that is there, and an artifact is its own
artifact (`artifact_folded`).
-/

namespace ImapProbe

/-- The octets from the first parenthesis on. -/
def opened (octets : Bytes) : Bytes := octets.dropWhile (· != 40)

section Opened

variable {octets rest : Bytes}

theorem opened_eq_nil_iff : opened octets = [] ↔ 40 ∉ octets := by
  rw [opened, List.dropWhile_eq_nil_iff]
  simp [List.forall_mem_ne']

theorem opened_append_of_notMem (h : 40 ∉ octets) : opened (octets ++ rest) = opened rest :=
  List.dropWhile_append_of_pos fun b hb => by
    simpa using fun heq : b = 40 => h (heq ▸ hb)

theorem opened_append_of_mem (h : 40 ∈ octets) :
    opened (octets ++ rest) = opened octets ++ rest := by
  have hne : (octets.dropWhile (· != 40)).isEmpty = false := by
    rw [List.isEmpty_eq_false_iff]
    exact fun hnil => opened_eq_nil_iff.1 hnil h
  rw [opened, List.dropWhile_append, hne]
  rfl

theorem opened_suffix (octets : Bytes) : opened octets <:+ octets := List.dropWhile_suffix _

theorem opened_begins (h : opened octets ≠ []) : [40] <+: opened octets := by
  obtain ⟨b, behind, hb⟩ := List.exists_cons_of_ne_nil h
  have hhead : ¬(b != 40) = true := by
    have := List.head?_dropWhile_not (· != 40) octets
    rw [show octets.dropWhile (· != 40) = b :: behind from hb] at this
    simpa using this
  rw [hb, show b = 40 by simpa using hhead]
  exact ⟨behind, rfl⟩

theorem opened_of_begins (h : [40] <+: octets) : opened octets = octets := by
  obtain ⟨behind, rfl⟩ := h
  rfl

/-- No end of octets that begins with a parenthesis is longer than what is opened of them. -/
theorem suffix_opened (h : [40] <+: rest) (hs : rest <:+ octets) : rest <:+ opened octets := by
  obtain ⟨front, rfl⟩ := hs
  by_cases hfront : 40 ∈ front
  · rw [opened_append_of_mem hfront]
    exact List.suffix_append ..
  · have hopened : opened (front ++ rest) = rest :=
      (opened_append_of_notMem hfront).trans (opened_of_begins h)
    exact ⟨[], hopened.symm⟩

end Opened

def Part.Holds (b : UInt8) : Part → Prop
  | .line octets => b ∈ octets
  | .literal announcement octets => b ∈ announcement ∨ b ∈ octets

theorem folded_append (xs ys : List Part) : folded (xs ++ ys) = folded xs ++ folded ys :=
  List.flatMap_append

theorem paren_mem_folded {parts : List Part} :
    40 ∈ folded parts ↔ ∃ part ∈ parts, part.Holds 40 := by
  have hcrlf : 40 ∉ Bytes.crlf := by decide
  rw [folded, List.mem_flatMap]
  refine exists_congr fun part => and_congr_right fun _ => ?_
  cases part <;> simp [Part.Holds, hcrlf]

theorem artifact_eq (parts : List Part) : artifact parts = opened (folded parts) := rfl

theorem artifact_eq_nil_iff {parts : List Part} : artifact parts = [] ↔ 40 ∉ folded parts :=
  opened_eq_nil_iff

/-- What an artifact is of the folded octets: it does not show how they were cut into parts; parts
behind it are added to it whole, once it has begun; there is none where no part holds a
parenthesis; else it is the longest end of the octets that begins with one; and it is its own
artifact. -/
theorem artifact_folded (xs ys : List Part) :
    (folded xs = folded ys → artifact xs = artifact ys)
      ∧ artifact (xs ++ ys) = (if artifact xs = [] then artifact ys else artifact xs ++ folded ys)
      ∧ (artifact xs = [] ↔ ∀ part ∈ xs, ¬ part.Holds 40)
      ∧ (artifact xs ≠ [] → [40] <+: artifact xs) ∧ artifact xs <:+ folded xs
      ∧ (∀ rest, [40] <+: rest → rest <:+ folded xs → rest <:+ artifact xs)
      ∧ artifact [.line (artifact xs)] = artifact xs := by
  refine ⟨fun h => by rw [artifact, h, artifact], ?_, ?_, opened_begins, opened_suffix _,
    fun _ => suffix_opened, ?_⟩
  · rw [artifact_eq, folded_append]
    split <;> rename_i hxs <;> rw [artifact_eq_nil_iff] at hxs
    · exact opened_append_of_notMem hxs
    · exact opened_append_of_mem (not_not.1 hxs)
  · rw [artifact_eq_nil_iff, paren_mem_folded]
    simp only [not_exists, not_and]
  · have hone : artifact [.line (artifact xs)] = opened (artifact xs) := by
      rw [artifact_eq, folded, List.flatMap_singleton]
    rw [hone]
    by_cases h : artifact xs = []
    · rw [h]
      rfl
    · exact opened_of_begins (opened_begins h)

end ImapProbe
