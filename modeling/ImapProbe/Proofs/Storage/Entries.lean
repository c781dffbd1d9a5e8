import ImapProbe.Proofs.Storage.Writing
import Mathlib.Data.List.Nodup
import Mathlib.Data.List.TakeWhile

/-!
# The entries of a tree

A disk has one entry at a place, and each has a name. That holds of every tree that is built of
paths which go up only at their beginning (`Disk.build`), and it stays so when files are written
(`Disk.exists_of_written`). On a disk it makes no difference in which order the entries are kept,
but to the order of the names of a directory (`Disk.find_perm`); and no name is there twice
(`Disk.nodup_namesIn`).
-/

namespace ImapProbe

namespace FileTree

variable {t u : FileTree} {place home : Place} {name : String} {entry : Entry}

/-- The last name of a place has no slash, and is not the one of the directory above. -/
def EndsInName (place : Place) : Prop :=
  ∀ name ∈ place.getLast?, '/' ∉ name.toList ∧ name ≠ ".."

/-- No entry has a slash in its name, or the name that stands for the directory above. -/
def WellNamed (t : FileTree) : Prop := ∀ e ∈ t.entries, EndsInName e.1

/-- There is one entry at a place. -/
def Single (t : FileTree) : Prop := (t.entries.map (·.1)).Nodup

/-- A place that goes up first, if at all, and from there only down. -/
def Straight (place : Place) : Prop := ".." ∉ place.dropWhile (· == "..")

instance (place : Place) : Decidable (EndsInName place) :=
  inferInstanceAs (Decidable (∀ name ∈ place.getLast?, '/' ∉ name.toList ∧ name ≠ ".."))

instance (t : FileTree) : Decidable t.WellNamed :=
  inferInstanceAs (Decidable (∀ e ∈ t.entries, EndsInName e.1))

instance (t : FileTree) : Decidable t.Single :=
  inferInstanceAs (Decidable (t.entries.map (·.1)).Nodup)

instance (place : Place) : Decidable (Straight place) :=
  inferInstanceAs (Decidable (".." ∉ place.dropWhile (· == "..")))

section Names

theorem slash_notMem_of_mem_names {path : String} (h : name ∈ names path) : '/' ∉ name.toList := by
  obtain ⟨part, hpart, rfl⟩ := List.mem_map.1 h
  rw [String.toList_ofList]
  exact notMem_of_mem_cut hpart

theorem slash_notMem_of_mem_placeOf {path : String} (h : name ∈ placeOf path) :
    '/' ∉ name.toList :=
  slash_notMem_of_mem_names (List.mem_filter.1 h).1

theorem Straight.of_isPrefix {q : Place} (h : Straight place) (hq : q <+: place) : Straight q := by
  obtain ⟨rest, rfl⟩ := hq
  refine fun hmem => h ?_
  rw [List.dropWhile_append]
  split <;> rename_i hnil
  · rw [List.isEmpty_iff.1 hnil] at hmem
    exact absurd hmem List.not_mem_nil
  · exact List.mem_append_left _ hmem

/-- A straight place that does not end in a name is the working directory or one above it. -/
theorem Straight.endsInName (h : Straight place) (hslash : ∀ name ∈ place, '/' ∉ name.toList)
    (hgiven : isGiven place = false) : EndsInName place := by
  intro name hname
  refine ⟨hslash name (List.mem_of_getLast? hname), ?_⟩
  rintro rfl
  obtain ⟨front, rfl⟩ := List.getLast?_eq_some_iff.1 hname
  by_cases hfront : (front.dropWhile (· == "..")).isEmpty
  · have hall : (front ++ [".."]).all (· == "..") := by
      simpa [List.dropWhile_eq_nil_iff] using hfront
    simp [isGiven, hall] at hgiven
  · refine h ?_
    rw [List.dropWhile_append, if_neg hfront]
    exact List.mem_append_right _ List.mem_cons_self

/-- A walk that stops where a file could be stops at a name of the path, or of a link on it. -/
theorem endsInName_of_stop {purpose : Purpose} {links : Nat} {names rest : List String}
    (hslash : ∀ name ∈ names, '/' ∉ name.toList)
    (h : t.stop purpose links home names = .ok (place, some rest)) : EndsInName place := by
  fun_induction stop t purpose links home names with
  | case1 | case4 | case5 | case9 => simp at h
  | case2 _ _ _ _ _ ih | case3 _ _ _ _ ih | case8 _ _ _ _ _ _ _ _ _ _ ih =>
    exact ih (List.forall_mem_cons.1 hslash).2 h
  | case6 _ _ name _ _ hname _ _ here | case7 _ _ name _ _ hname _ _ here =>
    obtain rfl : here = place := (Prod.mk.inj (Except.ok.inj h)).1
    intro last hlast
    obtain rfl : name = last := by simpa [here] using hlast
    exact ⟨(List.forall_mem_cons.1 hslash).1, hname⟩
  | case10 _ _ _ _ _ _ _ _ _ _ _ ih =>
    refine ih (fun name hname => ?_) h
    rcases List.mem_append.1 hname with hname | hname
    · exact slash_notMem_of_mem_names hname
    · exact (List.forall_mem_cons.1 hslash).2 name hname

theorem endsInName_of_stopAt {purpose : Purpose} {path : String} {rest : List String}
    (h : t.stopAt purpose path = .ok (place, some rest)) : EndsInName place := by
  unfold stopAt at h
  split at h
  · simp at h
  split at h
  · simp at h
  split at h
  · simp at h
  exact endsInName_of_stop (fun _ => slash_notMem_of_mem_names) h

end Names

section Building

theorem Single.set (h : t.Single) (place : Place) (entry : Entry) : (t.set place entry).Single := by
  unfold FileTree.set
  split <;> rename_i hplace
  · have hkeys : (fun e : Place × Entry => (if e.1 == place then (place, entry) else e).1)
        = Prod.fst := by
      funext e
      split <;> simp_all
    rw [Single, List.map_map, show Prod.fst ∘ _ = _ from hkeys]
    exact h
  · rw [Option.not_isSome_iff_eq_none, List.lookup_eq_none_iff] at hplace
    have hfresh : place ∉ t.entries.map (·.1) := fun hmem => by
      obtain ⟨e, he, rfl⟩ := List.mem_map.1 hmem
      exact absurd (hplace e he) (by simp)
    rw [Single, List.map_append, List.nodup_append_comm]
    exact List.nodup_cons.2 ⟨hfresh, h⟩

theorem WellNamed.set (h : t.WellNamed) (hplace : EndsInName place) (entry : Entry) :
    (t.set place entry).WellNamed := by
  intro e he
  rcases mem_set he with rfl | ⟨-, he⟩
  · exact hplace
  · exact h e he

theorem Single.makeDirectory (h : t.Single) (place : Place) : (t.makeDirectory place).Single := by
  refine List.foldlRecOn _ _ h fun t h n _ => ?_
  dsimp only
  split
  · exact h
  · exact h.set _ _

theorem WellNamed.makeDirectory (h : t.WellNamed) (hstraight : Straight place)
    (hslash : ∀ name ∈ place, '/' ∉ name.toList) : (t.makeDirectory place).WellNamed := by
  refine List.foldlRecOn _ _ h fun t h n _ => ?_
  dsimp only
  split <;> rename_i hget
  · exact h
  · have habove : place.take (n + 1) <+: place := List.take_prefix _ _
    refine h.set ((hstraight.of_isPrefix habove).endsInName
      (fun name hname => hslash name (habove.subset hname)) ?_) _
    rcases hgiven : isGiven (place.take (n + 1))
    · rfl
    · simp [get?, hgiven] at hget

theorem Single.add (h : t.Single) (path : String) (entry : Entry) : (t.add path entry).Single :=
  (h.makeDirectory _).set _ _

theorem WellNamed.add (h : t.WellNamed) {path : String} (hstraight : Straight (placeOf path))
    (hname : EndsInName (placeOf path)) (entry : Entry) : (t.add path entry).WellNamed := by
  have habove : (placeOf path).dropLast <+: placeOf path := List.dropLast_prefix _
  exact (h.makeDirectory (hstraight.of_isPrefix habove) fun name hname =>
    slash_notMem_of_mem_placeOf (habove.subset hname)).set hname entry

variable (directories : List String) (files : List (String × Bytes))
  (links : List (String × String))

theorem single_build : (build directories files links).Single := by
  have hempty : ({} : FileTree).Single := List.nodup_nil
  refine List.foldlRecOn _ _ ?_ fun t h l _ => h.add _ _
  refine List.foldlRecOn _ _ ?_ fun t h f _ => h.add _ _
  exact List.foldlRecOn _ _ hempty fun t h path _ => h.makeDirectory _

/-- Directories, files and links whose paths go up at most at their beginning, those of files and
links to a name. -/
def Buildable : Prop :=
  (∀ path ∈ directories, Straight (placeOf path))
    ∧ ∀ path ∈ files.map (·.1) ++ links.map (·.1),
      Straight (placeOf path) ∧ EndsInName (placeOf path)

instance : Decidable (Buildable directories files links) :=
  inferInstanceAs (Decidable (_ ∧ _))

variable {directories files links} in
theorem wellNamed_build (h : Buildable directories files links) :
    (build directories files links).WellNamed := by
  obtain ⟨hdirectories, hpaths⟩ := h
  obtain ⟨hfiles, hlinks⟩ := List.forall_mem_append.1 hpaths
  rw [List.forall_mem_map] at hfiles hlinks
  have hempty : ({} : FileTree).WellNamed := by simp [WellNamed]
  refine List.foldlRecOn _ _ ?_ fun t h l hl => h.add (hlinks l hl).1 (hlinks l hl).2 _
  refine List.foldlRecOn _ _ ?_ fun t h f hf => h.add (hfiles f hf).1 (hfiles f hf).2 _
  exact List.foldlRecOn _ _ hempty fun t h path hpath =>
    h.makeDirectory (hdirectories path hpath) fun _ => slash_notMem_of_mem_placeOf

end Building

section Writing

variable {path : Path} {content : Bytes}

theorem Single.write (h : t.Single) (hwrite : t.write path content = .ok u) : u.Single := by
  obtain ⟨place, -, rfl⟩ := write_stops hwrite
  exact h.set _ _

theorem WellNamed.write (h : t.WellNamed) (hwrite : t.write path content = .ok u) :
    u.WellNamed := by
  obtain ⟨place, hstop, rfl⟩ := write_stops hwrite
  exact h.set (endsInName_of_stopAt hstop) _

end Writing

section Lookups

/-- The name that a place has in a directory. -/
def nameIn? (directory place : Place) : Option String :=
  if place.dropLast == directory then place.getLast? else none

theorem namesIn_eq (t : FileTree) (place : Place) :
    t.namesIn place = (t.entries.map (·.1)).filterMap (nameIn? place) := by
  rw [List.filterMap_map]
  rfl

theorem nameIn?_eq_some_iff : nameIn? home place = some name ↔ place = home ++ [name] := by
  unfold nameIn?
  constructor
  · intro h
    split at h <;> rename_i hhome
    · obtain ⟨front, rfl⟩ := List.getLast?_eq_some_iff.1 h
      rw [← beq_iff_eq.1 hhome, List.dropLast_concat]
    · cases h
  · rintro rfl
    simp

theorem mem_namesIn : name ∈ t.namesIn place ↔ ∃ entry, (place ++ [name], entry) ∈ t.entries := by
  rw [namesIn_eq, List.mem_filterMap]
  simp only [nameIn?_eq_some_iff, List.mem_map, Prod.exists, exists_and_right, exists_eq_right]

theorem Single.lookup_eq_some_iff (h : t.Single) :
    t.entries.lookup place = some entry ↔ (place, entry) ∈ t.entries := by
  obtain ⟨entries⟩ := t
  rw [Single] at h
  induction entries with
  | nil => simp
  | cons e entries ih =>
    obtain ⟨key, value⟩ := e
    rw [List.map_cons, List.nodup_cons] at h
    rw [lookup_cons_if, List.mem_cons, Prod.mk.injEq]
    split <;> rename_i hkey
    · subst hkey
      have hfresh : (place, entry) ∉ entries := fun hmem => h.1 (List.mem_map.2 ⟨_, hmem, rfl⟩)
      simp [hfresh, eq_comm]
    · simpa [hkey] using ih h.2

theorem Single.perm (h : t.Single) (hperm : u.entries.Perm t.entries) : u.Single :=
  (hperm.map Prod.fst).nodup_iff.2 h

end Lookups

end FileTree

/-- A tree whose entries have names that a directory can hold. -/
structure NamedTree extends FileTree where
  named : toFileTree.WellNamed

/-- A tree with one entry at a place, each under a name. -/
structure Disk extends NamedTree where
  single : toFileTree.Single

instance : Coe NamedTree FileTree := ⟨NamedTree.toFileTree⟩

instance : Coe Disk NamedTree := ⟨Disk.toNamedTree⟩

namespace Disk

open FileTree

/-- The disk with these directories, files and links. -/
def build (directories : List String) (files : List (String × Bytes))
    (links : List (String × String)) (h : Buildable directories files links) : Disk where
  toFileTree := FileTree.build directories files links
  named := wellNamed_build h
  single := single_build directories files links

/-- What writing leaves of a disk is a disk. -/
theorem exists_of_written : ∀ {ws : List (Path × Bytes)} {t : Disk} {u : FileTree},
    Written ws t u → ∃ after : Disk, after.toFileTree = u
  | [], t, _, h => ⟨t, h.symm⟩
  | _ :: _, t, _, ⟨u, hwrite, h⟩ =>
    exists_of_written (t := ⟨⟨u, t.named.write hwrite⟩, t.single.write hwrite⟩) h

variable (t : Disk)

theorem nodup_namesIn (place : Place) : (t.namesIn place).Nodup := by
  rw [namesIn_eq]
  refine t.single.filterMap fun q q' name hq hq' => ?_
  rw [nameIn?_eq_some_iff.1 hq, nameIn?_eq_some_iff.1 hq']

section Order

variable {u : FileTree} (hperm : u.entries.Perm t.entries)

include hperm

theorem get?_perm (q : Place) : u.get? q = t.get? q := by
  unfold get?
  split
  · rfl
  · refine Option.ext fun entry => ?_
    rw [t.single.lookup_eq_some_iff, (t.single.perm hperm).lookup_eq_some_iff, hperm.mem_iff]

theorem find_perm (purpose : Purpose) (path : String) :
    u.find purpose path = t.find purpose path := by
  have hget := t.get?_perm hperm
  have harrive : u.arrive = t.arrive := by
    funext x
    rcases x with ⟨place, _ | rest⟩
    · rfl
    · simp only [arrive, hget]
  rw [find_eq, find_eq, stopAt_congr fun q => .inl (hget q), harrive]

theorem list_perm {path : Path} {e : IoFault} (hlist : t.list path = .error e) :
    u.list path = .error e := by
  unfold list at hlist ⊢
  rw [t.find_perm hperm]
  split at hlist <;> simp_all

theorem isFile_perm (path : Path) : u.isFile path = t.isFile path := by
  rw [isFile, isFile, t.find_perm hperm]

end Order

end Disk

end ImapProbe
