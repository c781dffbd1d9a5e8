import ImapProbe.Proofs.Storage.Writing
import Mathlib.Data.List.Induction

/-!
# Files written again

Files are written at places one after another (`setAll`). Every entry at such a place then holds
what was written there last (`entry_setAll`), so writing the same once more changes nothing
(`setAll_setAll`).
-/

namespace ImapProbe.FileTree

variable {place : Place} {entry : Entry} {e : Place × Entry} {ws : List (Place × Bytes)}

def setAll (t : FileTree) (ws : List (Place × Bytes)) : FileTree :=
  ws.foldl (fun t w => t.set w.1 (.file w.2)) t

theorem setAll_concat (t : FileTree) (ws : List (Place × Bytes)) (place : Place)
    (content : Bytes) :
    t.setAll (ws ++ [(place, content)]) = (t.setAll ws).set place (.file content) := by
  rw [setAll, List.foldl_append]
  rfl

theorem isSome_lookup_setAll {q : Place} :
    ∀ (ws : List (Place × Bytes)) {t : FileTree}, (t.entries.lookup q).isSome →
      ((t.setAll ws).entries.lookup q).isSome
  | [], _, h => h
  | (place, content) :: ws, t, h => by
    refine isSome_lookup_setAll ws (t := t.set place (.file content)) ?_
    rw [lookup_set]
    split
    · rfl
    · exact h

theorem lookup_setAll_isSome : ∀ {ws : List (Place × Bytes)} (t : FileTree), ∀ w ∈ ws,
    ((t.setAll ws).entries.lookup w.1).isSome
  | [], _ => by simp
  | (place, content) :: ws, t => by
    refine List.forall_mem_cons.2 ⟨isSome_lookup_setAll ws (t := t.set place (.file content)) ?_,
      lookup_setAll_isSome (t.set place (.file content))⟩
    rw [lookup_set, if_pos rfl]
    rfl

/-- An entry holds what was written last at its place. -/
theorem entry_setAll (t : FileTree) : ∀ e ∈ (t.setAll ws).entries, ∀ content,
    ws.reverse.lookup e.1 = some content → e.2 = .file content := by
  induction ws using List.reverseRecOn with
  | nil => simp
  | append_singleton ws w ih =>
    intro e he content hlast
    rw [setAll_concat] at he
    rw [List.reverse_concat, lookup_cons_if] at hlast
    rcases mem_set he with rfl | ⟨hne, he⟩
    · simpa using hlast
    · rw [if_neg hne] at hlast
      exact ih e he content hlast

/-- Where there is an entry at each place already, entries are replaced and none is added. -/
theorem setAll_entries : ∀ {ws : List (Place × Bytes)} {t : FileTree},
    (∀ w ∈ ws, (t.entries.lookup w.1).isSome) →
      (t.setAll ws).entries
        = t.entries.map fun e => (e.1, ((ws.reverse.lookup e.1).map .file).getD e.2)
  | [], t, _ => by simp [setAll]
  | (place, content) :: ws, t, h => by
    obtain ⟨hplace, hws⟩ := List.forall_mem_cons.1 h
    have hset : (t.set place (.file content)).entries
        = t.entries.map fun e => if e.1 == place then (place, .file content) else e := by
      rw [set, if_pos hplace]
    have hkeys : ∀ w ∈ ws, ((t.set place (.file content)).entries.lookup w.1).isSome :=
      fun w hw => isSome_lookup_setAll [(place, content)] (hws w hw)
    rw [show t.setAll ((place, content) :: ws) = (t.set place (.file content)).setAll ws from rfl,
      setAll_entries hkeys, hset, List.map_map]
    refine List.map_congr_left fun e _ => ?_
    rw [List.reverse_cons, List.lookup_append, lookup_cons_if]
    by_cases he : e.1 = place
    · rcases ws.reverse.lookup place with _ | last <;> simp [he]
    · simp [he]

/-- What was written once, and is written again, is as it was. -/
theorem setAll_setAll (t : FileTree) (ws : List (Place × Bytes)) :
    (t.setAll ws).setAll ws = t.setAll ws := by
  have hkept : ∀ e ∈ (t.setAll ws).entries,
      (e.1, ((ws.reverse.lookup e.1).map .file).getD e.2) = e := fun e he => by
    rcases hlast : ws.reverse.lookup e.1 with _ | content
    · rfl
    · rw [Option.map_some, Option.getD_some, ← entry_setAll t e he content hlast]
  have hentries : ((t.setAll ws).setAll ws).entries = (t.setAll ws).entries := by
    rw [setAll_entries (lookup_setAll_isSome t), List.map_congr_left hkept, List.map_id']
  rcases hagain : (t.setAll ws).setAll ws with ⟨entries⟩
  rw [hagain] at hentries
  obtain rfl : entries = _ := hentries
  rfl

end ImapProbe.FileTree
