import ImapProbe.Proofs.Storage.Naming
import ImapProbe.Proofs.Storage.Reach

/-!
# Where the files of a directory lie

What stands before the last slash of a path leads to a directory, and slashes and dots at its end
lead no further (`Leads.trimmed`). So a file lies in that directory under its last name, unless the
name is a link there (`target?_split`); and a file of a directory lies in it whichever path of the
directory leads there.
-/

namespace ImapProbe

theorem cut_concat {separator : Char} {part : List Char} (h : separator ∉ part) (cs : List Char) :
    cut separator (cs ++ separator :: part) = cut separator cs ++ [part] := by
  rw [cut_append, cut_of_notMem h]

namespace Path

theorem trimEnd_ne_nil {cs : List Char} (h : cs ≠ []) : trimEnd cs ≠ [] := by
  fun_induction trimEnd cs with
  | case1 _ _ ih | case2 _ _ ih => exact ih (by simp)
  | case3 => simp
  | case4 => exact h

/-- The slash that a directory is given changes nothing of its path. -/
theorem parent_eq {directory : List Char} (h : directory ≠ []) :
    parent directory = (trimEnd directory.reverse).reverse := by
  unfold parent slashed
  split
  · rfl
  · rw [List.reverse_append, List.reverse_singleton, List.singleton_append]
    rcases hd : directory.reverse with _ | ⟨c, cs⟩
    · exact absurd (List.reverse_eq_nil_iff.1 hd) h
    · rw [trimEnd]

theorem parent_ne_nil {directory : List Char} (h : directory ≠ []) : parent directory ≠ [] := by
  rw [parent_eq h, Ne, List.reverse_eq_nil_iff]
  exact trimEnd_ne_nil (by simpa using h)

/-- Behind a directory there is a slash. -/
theorem exists_slashed {directory : List Char} (h : directory ≠ []) :
    ∃ front, slashed directory = front ++ ['/'] := by
  refine (slashed_ends directory).resolve_left fun hnil => h ?_
  unfold slashed at hnil
  split at hnil
  · exact hnil
  · simp at hnil

theorem slashed_prefix (directory : List Char) : slashed directory <+: directory ++ ['/'] := by
  unfold slashed
  split
  · exact List.prefix_append _ _
  · exact List.prefix_rfl

theorem slashed_trimEnd_prefix (cs : List Char) :
    slashed (trimEnd cs).reverse <+: cs.reverse ++ ['/'] := by
  fun_induction trimEnd cs with
  | case1 c rest ih =>
    rw [List.reverse_cons]
    exact ih.trans (List.prefix_append _ _)
  | case2 c rest ih =>
    exact ih.trans ⟨['.', '/'], by simp⟩
  | case3 => decide
  | case4 => exact slashed_prefix _

theorem child_text {directory : Path} {name : String} {front : List Char}
    (h : IsName name.toList) (hfront : slashed directory.text.toList = front ++ ['/']) :
    (directory.child name).text = String.ofList (front ++ '/' :: name.toList) := by
  rw [child, below_eq h.not_absolute, hfront, List.append_assoc, List.singleton_append]

/-- The directory of a file is no longer than the directory that the file was named in. -/
theorem slashed_parent_prefix {directory : List Char} (h : directory ≠ []) :
    slashed (parent directory) <+: slashed directory := by
  obtain ⟨front, hfront⟩ := exists_slashed h
  rw [parent, hfront, List.reverse_append, List.reverse_singleton, List.singleton_append]
  rcases hf : front.reverse with _ | ⟨c, cs⟩
  · obtain rfl := List.reverse_eq_nil_iff.1 hf
    decide
  · rw [trimEnd, ← hf]
    simpa using slashed_trimEnd_prefix front.reverse

end Path

namespace FileTree

variable {t : FileTree} {purpose : Purpose} {base front name : List Char} {home place : Place}

/-- What is at the last name of a path itself, be it a link. -/
def own? (t : FileTree) (path : Path) : Option Entry :=
  match t.find .look (String.ofList path.split.2) with
  | .ok (home, some .directory) => t.get? (home ++ [String.ofList path.split.1])
  | _ => none

theorem own?_ne_link (h : ∀ place target, t.get? place ≠ some (.link target)) (path : Path)
    (target : String) : t.own? path ≠ some (.link target) := by
  unfold own?
  split
  · exact h _ target
  · simp

section Stops

/-- What is walked of a path at all. -/
structure Walkable (path : List Char) : Prop where
  nul : Char.ofNat 0 ∉ path
  ne_nil : path ≠ []
  length : (utf8 (String.ofList path)).length ≤ greatestPath

theorem Walkable.of_append (h : Walkable (front ++ name)) (hne : front ≠ []) : Walkable front := by
  refine ⟨fun hnul => h.nul (List.mem_append_left _ hnul), hne, le_trans ?_ h.length⟩
  rw [String.ofList_append, utf8_append, List.length_append]
  exact Nat.le_add_right _ _

theorem Walkable.of_prefix {base' : List Char} (h : Walkable (base ++ name))
    (hbase : base' <+: base) (hname : name ≠ []) : Walkable (base' ++ name) := by
  obtain ⟨rest, rfl⟩ := hbase
  refine ⟨fun hnul => h.nul ?_, by simp [hname], le_trans ?_ h.length⟩
  · simp only [List.mem_append] at hnul ⊢
    exact hnul.imp_left .inl
  · simp only [String.ofList_append, utf8_append, List.length_append]
    omega

/-- A path is walked with another name that is no longer. -/
theorem Walkable.renamed {name' : List Char} (h : Walkable (base ++ name)) (hne : name' ≠ [])
    (hnul : Char.ofNat 0 ∉ name')
    (hlength : (utf8 (String.ofList name')).length ≤ (utf8 (String.ofList name)).length) :
    Walkable (base ++ name') := by
  refine ⟨fun hmem => ?_, by simp [hne], le_trans ?_ h.length⟩
  · exact (List.mem_append.1 hmem).elim (fun hbase => h.nul (List.mem_append_left _ hbase)) hnul
  · simp only [String.ofList_append, utf8_append, List.length_append]
    omega

/-- The path of an artifact is no longer than that of a message of the same name, so it is walked
too. -/
theorem Walkable.beside {directory front' : List Char} (h : Walkable (front ++ '/' :: name))
    (hfront : Path.slashed directory = front ++ ['/'])
    (hfront' : Path.slashed (Path.parent directory) = front' ++ ['/']) (hname : name ≠ []) :
    Walkable (front' ++ '/' :: name) := by
  have hne : directory ≠ [] := fun hnil => by
    rw [hnil] at hfront
    simp [Path.slashed] at hfront
  have hprefix := Path.slashed_parent_prefix hne
  rw [hfront, hfront'] at hprefix
  have hshort : Walkable ((front' ++ ['/']) ++ name) :=
    Walkable.of_prefix (by simpa using h) hprefix hname
  simpa using hshort

theorem Walkable.stopAt_eq {path : List Char} (h : Walkable path) :
    t.stopAt purpose (String.ofList path)
      = t.stop purpose greatestLinks (start [] (String.ofList path))
        (names (String.ofList path)) := by
  have hlong := h.length
  rw [stopAt, if_neg (by simpa using h.nul), if_neg (by simpa using h.ne_nil), if_neg (by omega)]

theorem walkable_of_stopAt {path : List Char} {x : Place × Option (List String)}
    (h : t.stopAt purpose (String.ofList path) = .ok x) : Walkable path := by
  unfold stopAt at h
  split at h <;> rename_i hnul
  · cases h
  split at h <;> rename_i hne
  · cases h
  split at h <;> rename_i hlong
  · cases h
  exact ⟨by simpa using hnul, by simpa using hne, by omega⟩

theorem names_concat (h : '/' ∉ name) (base : List Char) :
    names (String.ofList (base ++ '/' :: name))
      = names (String.ofList base) ++ [String.ofList name] := by
  simp [names, cut_concat h]

theorem start_append (hbase : base ≠ []) (rest : List Char) (here : Place) :
    start here (String.ofList (base ++ rest)) = start here (String.ofList base) := by
  rcases base with _ | ⟨c, cs⟩
  · exact absurd rfl hbase
  · simp [start, Path.isAbsolute]

end Stops

section Leads

/-- What stands before a slash leads to a directory; before the first slash, to the root. -/
def Leads (t : FileTree) (front : List Char) (home : Place) : Prop :=
  front = [] ∧ home = ["/"]
    ∨ front ≠ [] ∧ t.stopAt .look (String.ofList front) = .ok (home, none)

theorem stopAt_root : t.stopAt .look (String.ofList ['/']) = .ok (["/"], none) := by
  rw [show t.stopAt .look (String.ofList ['/'])
    = t.stop .look greatestLinks ["/"] ["", ""] from rfl,
    stop, if_pos (.inl rfl), stop, if_pos (.inl rfl), stop]

theorem stopAt_root_dot : t.stopAt .look (String.ofList ['/', '.']) = .ok (["/"], none) := by
  rw [show t.stopAt .look (String.ofList ['/', '.'])
    = t.stop .look greatestLinks ["/"] ["", "."] from rfl,
    stop, if_pos (.inl rfl), stop, if_pos (.inr rfl), stop]

/-- A slash or a dot at the end of a path leads no further. -/
theorem stopAt_back (hbase : base ≠ []) (hname : name = [] ∨ name = ['.'])
    (h : t.stopAt .look (String.ofList (base ++ '/' :: name)) = .ok (home, none)) :
    t.stopAt .look (String.ofList base) = .ok (home, none) := by
  have hslash : '/' ∉ name := by rcases hname with rfl | rfl <;> simp
  have hblank : String.ofList name = "" ∨ String.ofList name = "." :=
    hname.imp (congrArg String.ofList) (congrArg String.ofList)
  have hwalk := walkable_of_stopAt h
  rw [hwalk.stopAt_eq, names_concat hslash, start_append hbase] at h
  rw [(hwalk.of_append hbase).stopAt_eq]
  rcases stop_append (.inl rfl) with ⟨home', links', hhome, hrest⟩ | ⟨-, hrest⟩
  · rw [hrest, stop, if_pos hblank, stop] at h
    rw [hhome, h]
  · obtain ⟨rest, hleft⟩ := hrest _ h
    cases hleft

theorem stopAt_trimmed {cs : List Char}
    (h : t.stopAt .look (String.ofList cs.reverse) = .ok (home, none)) :
    t.stopAt .look (String.ofList (Path.trimEnd cs).reverse) = .ok (home, none) := by
  fun_induction Path.trimEnd cs with
  | case1 c rest ih =>
    rw [List.reverse_cons] at h
    exact ih (stopAt_back (by simp) (.inl rfl) h)
  | case2 c rest ih =>
    rw [List.reverse_cons, List.reverse_cons, List.append_assoc] at h
    exact ih (stopAt_back (by simp) (.inr rfl) h)
  | case3 =>
    rw [show ['.', '/'].reverse = ['/', '.'] from rfl, stopAt_root_dot] at h
    rw [← h]
    exact stopAt_root
  | case4 => exact h

theorem Leads.trimmed (h : t.Leads front home) :
    t.stopAt .look (String.ofList (Path.trimEnd (front ++ ['/']).reverse).reverse)
      = .ok (home, none) := by
  rcases h with ⟨rfl, rfl⟩ | ⟨hne, h⟩
  · exact stopAt_root
  · rw [List.reverse_append, List.reverse_singleton, List.singleton_append]
    rw [← List.reverse_reverse front] at h
    rcases hf : front.reverse with _ | ⟨c, cs⟩
    · exact absurd (List.reverse_eq_nil_iff.1 hf) hne
    · rw [hf] at h
      rw [Path.trimEnd]
      exact stopAt_trimmed h

theorem leads_of_slashed {directory : List Char}
    (h : t.stopAt .look (String.ofList directory) = .ok (home, none))
    (hfront : Path.slashed directory = front ++ ['/']) : t.Leads front home := by
  unfold Path.slashed at hfront
  split at hfront
  · rw [hfront] at h
    by_cases hne : front = []
    · rw [hne, List.nil_append, stopAt_root] at h
      exact .inl ⟨hne, (Prod.mk.inj (Except.ok.inj h)).1.symm⟩
    · exact .inr ⟨hne, stopAt_back hne (.inl rfl) h⟩
  · obtain rfl := List.append_cancel_right hfront
    exact .inr ⟨(walkable_of_stopAt h).ne_nil, h⟩

variable {directory : Path}

/-- What stands before the names of the files of a directory leads there. -/
theorem leads_directory (h : t.find .look directory.text = .ok (home, some .directory)) :
    ∃ front, Path.slashed directory.text.toList = front ++ ['/'] ∧ t.Leads front home := by
  have hstop := find_directory_iff.1 h
  rw [← String.ofList_toList (s := directory.text)] at hstop
  obtain ⟨front, hfront⟩ := Path.exists_slashed (walkable_of_stopAt hstop).ne_nil
  exact ⟨front, hfront, leads_of_slashed hstop hfront⟩

/-- What stands before the names of their artifacts leads there too. -/
theorem leads_parent (h : t.find .look directory.text = .ok (home, some .directory)) :
    ∃ front, Path.slashed (Path.parent directory.text.toList) = front ++ ['/']
      ∧ t.Leads front home := by
  obtain ⟨front, hfront, hleads⟩ := leads_directory h
  have hstop := hleads.trimmed
  rw [← hfront, ← Path.parent] at hstop
  obtain ⟨front', hfront'⟩ := Path.exists_slashed (walkable_of_stopAt hstop).ne_nil
  exact ⟨front', hfront', leads_of_slashed hstop hfront'⟩

theorem Leads.stopAt_part (h : t.Leads front home) (hslash : '/' ∉ name) (hne : name ≠ [])
    (hwalk : Walkable (front ++ '/' :: name)) :
    ∃ links, t.stopAt purpose (String.ofList (front ++ '/' :: name))
      = t.stop purpose links home [String.ofList name] := by
  have hpart : String.ofList name ≠ "" := by simpa using hne
  rw [hwalk.stopAt_eq, names_concat hslash]
  rcases h with ⟨rfl, rfl⟩ | ⟨hfront, h⟩
  · refine ⟨greatestLinks, ?_⟩
    rw [show names (String.ofList []) ++ [String.ofList name] = ["", String.ofList name] from rfl,
      stop, if_pos (.inl rfl)]
    simp [start, Path.isAbsolute]
  · rw [(walkable_of_stopAt h).stopAt_eq] at h
    rw [start_append hfront]
    rcases stop_append (.inr ⟨_, List.mem_singleton.2 rfl, hpart⟩)
      with ⟨home', links, hhome, hrest⟩ | ⟨hnone, -⟩
    · rw [h] at hhome
      exact ⟨links, by rw [hrest, ← (Prod.mk.inj (Except.ok.inj hhome)).1]⟩
    · exact absurd h (hnone home)

variable (hname : Path.IsName name)

include hname

theorem Leads.stopAt_name (h : t.Leads front home) (hwalk : Walkable (front ++ '/' :: name)) :
    ∃ links, t.stopAt purpose (String.ofList (front ++ '/' :: name))
      = t.stop purpose links home [String.ofList name] :=
  h.stopAt_part hname.1 hname.2.1 hwalk

theorem exists_leads {x : Place × Option (List String)}
    (h : t.stopAt purpose (String.ofList (front ++ '/' :: name)) = .ok x)
    (hland : landing x = some place) : ∃ home, t.Leads front home := by
  by_cases hne : front = []
  · exact ⟨_, .inl ⟨hne, rfl⟩⟩
  have hwalk := walkable_of_stopAt h
  rw [hwalk.stopAt_eq, names_concat hname.1, start_append hne] at h
  rcases stop_append (.inr ⟨_, List.mem_singleton.2 rfl, fun he => hname.ofList.1 (.inl he)⟩)
    with ⟨home, links, hhome, -⟩ | ⟨-, hrest⟩
  · exact ⟨home, .inr ⟨hne, by rw [(hwalk.of_append hne).stopAt_eq, hhome]⟩⟩
  · obtain ⟨q, left⟩ := x
    obtain ⟨rest, rfl⟩ := hrest _ h
    rcases rest with _ | ⟨first, rest⟩ <;> cases hland

/-- A path ends in the directory it leads to, under its last name, unless that is a link there. -/
theorem Leads.ending_eq (h : t.Leads front home)
    (hlink : ∀ target, t.get? (home ++ [String.ofList name]) ≠ some (.link target))
    (hend : ending (t.find purpose (String.ofList (front ++ '/' :: name))) = some place) :
    place = home ++ [String.ofList name] := by
  rw [ending_find] at hend
  rcases hs : t.stopAt purpose (String.ofList (front ++ '/' :: name)) with e | x
  · rw [hs] at hend
    cases hend
  · obtain ⟨links, hstop⟩ := h.stopAt_name hname (walkable_of_stopAt hs)
    rw [hstop] at hend
    exact landing_stop_one hname.ofList hlink hend

theorem Leads.own?_eq (h : t.Leads front home) :
    t.own? ⟨String.ofList (front ++ '/' :: name)⟩ = t.get? (home ++ [String.ofList name]) := by
  have hsplit := Path.split_concat hname (.inr ⟨front, rfl⟩)
  rw [List.append_assoc, List.singleton_append] at hsplit
  rw [own?, hsplit, find_directory_iff.2 h.trimmed]

/-- A file is written in a directory, under the last name of its path, unless that is a link. -/
theorem target?_split
    (hown : ∀ target, t.own? ⟨String.ofList (front ++ '/' :: name)⟩ ≠ some (.link target))
    (h : t.target? ⟨String.ofList (front ++ '/' :: name)⟩ = some place) :
    ∃ home, t.Leads front home ∧ place = home ++ [String.ofList name] := by
  have hend := h
  rw [target?, ending_find] at hend
  rcases hs : t.stopAt .write (String.ofList (front ++ '/' :: name)) with e | x <;> rw [hs] at hend
  · cases hend
  · obtain ⟨home, hleads⟩ := exists_leads hname hs hend
    refine ⟨home, hleads, hleads.ending_eq hname (fun target => ?_) h⟩
    rw [← hleads.own?_eq hname]
    exact hown target

end Leads

end FileTree

section Artifacts

open FileTree

variable {t : FileTree} {directory : Path} {extension name : String} {s : String}
  {d : Description} {home place : Place}

/-- Where an artifact goes that is no link: beside its message, under its name. -/
theorem target?_child (h : IsMessage extension name) (hs : '/' ∉ s.toList)
    (hdirectory : directory.text ≠ "")
    (hown : ∀ target, t.own? (artifactFile (directory.child name) s d) ≠ some (.link target))
    (hplace : t.target? (artifactFile (directory.child name) s d) = some place) :
    ∃ home, t.find .look (String.ofList (Path.parent directory.text.toList))
        = .ok (home, some .directory)
      ∧ place = home ++ [String.ofList (artifactName (directory.child name) s d)] := by
  have hne : directory.text.toList ≠ [] := by simpa using hdirectory
  obtain ⟨front, hfront⟩ := Path.exists_slashed (Path.parent_ne_nil hne)
  rw [artifactFile_child h, hfront, List.append_assoc, List.singleton_append] at hown hplace
  obtain ⟨home, hleads, hat⟩ := target?_split (isName_artifactName h hs d) hown hplace
  refine ⟨home, find_directory_iff.2 ?_, hat⟩
  have htrimmed := hleads.trimmed
  rw [← hfront, ← Path.parent, Path.parent_parent] at htrimmed
  exact htrimmed

end Artifacts

end ImapProbe
