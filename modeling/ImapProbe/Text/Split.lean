/-!
# Cutting at a separator

Every separator ends a part, so there is one part more than separators.
-/

namespace ImapProbe

/-- The parts of a text between the occurrences of a separator. -/
def cut (separator : Char) : List Char → List (List Char)
  | [] => [[]]
  | c :: cs =>
    if c = separator then [] :: cut separator cs
    else match cut separator cs with
      | [] => [[c]]
      | part :: parts => (c :: part) :: parts

theorem length_cut (separator : Char) (cs : List Char) :
    (cut separator cs).length = cs.count separator + 1 := by
  induction cs with
  | nil => rfl
  | cons c cs ih =>
    unfold cut
    split
    · rename_i h
      simp [ih, h]
    · rename_i h
      split <;> rename_i h' <;> rw [h'] at ih
      · simp at ih
      · simpa [List.count_cons, h] using ih

theorem notMem_of_mem_cut {separator : Char} :
    ∀ {cs part : List Char}, part ∈ cut separator cs → separator ∉ part
  | [], part, h => by
    obtain rfl := List.mem_singleton.1 h
    exact List.not_mem_nil
  | c :: cs, part, h => by
    rw [cut] at h
    split at h <;> rename_i hc
    · rcases List.mem_cons.1 h with rfl | h
      · exact List.not_mem_nil
      · exact notMem_of_mem_cut h
    · split at h <;> rename_i hcut
      · obtain rfl := List.mem_singleton.1 h
        exact fun hmem => hc (List.mem_singleton.1 hmem).symm
      · have hparts := fun part h => @notMem_of_mem_cut separator cs part (hcut ▸ h)
        rcases List.mem_cons.1 h with rfl | h
        · exact fun hmem => (List.mem_cons.1 hmem).elim (Ne.symm hc) (hparts _ List.mem_cons_self)
        · exact hparts _ (List.mem_cons_of_mem _ h)

end ImapProbe
