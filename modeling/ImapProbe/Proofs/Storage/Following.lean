import ImapProbe.Proofs.Storage.Directory

/-!
# What names lead to

Names lead from a directory through directories and links, however many there are (`Follows`). A
walk that finds a file was led to it (`follows_of_stop`), and a walk finds the file that its names
lead to unless it is refused: a name may be too long for it, or the links too many (`Follows.stop`).
So what is looked at as a file is what follows to one (`isFile_child_iff`).
-/

namespace ImapProbe.FileTree

variable {t : FileTree} {here home place : Place} {name : String} {names : List String}
  {entry : Entry} {content : Bytes} {links : Nat}

/-- A name that leads down: neither a slash too many, nor a dot, nor the directory above. -/
def IsStep (name : String) : Prop := ¬(name = "" ∨ name = ".") ∧ name ≠ ".."

theorem isStep_of_isName (h : Path.IsName name.toList) : IsStep name := by
  simpa [IsStep] using h.ofList

/-- From a directory, names lead to an entry. -/
inductive Follows (t : FileTree) : Place → List String → Entry → Prop
  | here {place : Place} : Follows t place [] .directory
  | blank {place : Place} {name : String} {rest : List String} {entry : Entry} :
    name = "" ∨ name = "." → Follows t place rest entry → Follows t place (name :: rest) entry
  | above {place : Place} {rest : List String} {entry : Entry} :
    Follows t (up place) rest entry → Follows t place (".." :: rest) entry
  | file {place : Place} {name : String} {content : Bytes} :
    IsStep name → t.get? (place ++ [name]) = some (.file content) →
    Follows t place [name] (.file content)
  | directory {place : Place} {name : String} {rest : List String} {entry : Entry} :
    IsStep name → t.get? (place ++ [name]) = some .directory →
    Follows t (place ++ [name]) rest entry → Follows t place (name :: rest) entry
  | link {place : Place} {name target : String} {rest : List String} {entry : Entry} :
    IsStep name → t.get? (place ++ [name]) = some (.link target) →
    Follows t (start place target) (FileTree.names target ++ rest) entry →
    Follows t place (name :: rest) entry

/-- A directory follows to itself. -/
theorem Follows.of_directory (h : t.Follows here [name] entry) (hname : IsStep name)
    (hget : t.get? (here ++ [name]) = some .directory) : entry = .directory := by
  generalize hnames : [name] = names at h
  cases h with
  | here => cases hnames
  | blank hblank =>
    obtain ⟨rfl, -⟩ := List.cons.inj hnames
    exact absurd hblank hname.1
  | above => exact absurd (List.cons.inj hnames).1 hname.2
  | file _ hfile =>
    obtain ⟨rfl, -⟩ := List.cons.inj hnames
    rw [hget] at hfile
    cases hfile
  | directory _ _ hrest =>
    obtain ⟨rfl, rfl⟩ := List.cons.inj hnames
    cases hrest
    rfl
  | link _ hlink =>
    obtain ⟨rfl, -⟩ := List.cons.inj hnames
    rw [hget] at hlink
    cases hlink

theorem follows_of_stop (h : t.stop .look links here names = .ok (place, some []))
    (hget : t.get? place = some (.file content)) : t.Follows here names (.file content) := by
  fun_induction stop t .look links here names with
  | case1 | case4 | case5 | case9 => simp at h
  | case2 _ _ _ _ h1 ih => exact .blank h1 (ih h)
  | case3 _ _ _ _ ih => exact .above (ih h)
  | case6 _ _ _ _ _ _ _ _ _ hg =>
    obtain ⟨rfl, -⟩ := Prod.mk.inj (Except.ok.inj h)
    rw [hg] at hget
    cases hget
  | case7 _ _ _ _ h1 h2 _ _ _ _ hg =>
    obtain ⟨rfl, hrest⟩ := Prod.mk.inj (Except.ok.inj h)
    obtain rfl := Option.some.inj hrest
    exact .file ⟨h1, h2⟩ hget
  | case8 _ _ _ _ h1 h2 _ _ _ hg ih => exact .directory ⟨h1, h2⟩ hg (ih h)
  | case10 _ _ _ h1 h2 _ _ _ _ hg _ ih => exact .link ⟨h1, h2⟩ hg (ih h)

theorem stop_of_long {rest : List String} (hname : IsStep name)
    (hlong : greatestName < (utf8 name).length) :
    t.stop .look links here (name :: rest) = .error .nameTooLong := by
  rw [stop, if_neg hname.1, if_neg hname.2, if_neg (by simp), if_pos hlong]

/-- A walk finds the file that it is led to, or is refused on the way. -/
theorem Follows.stop (h : t.Follows here names (.file content)) (links : Nat) :
    (∃ place, t.stop .look links here names = .ok (place, some [])
        ∧ t.get? place = some (.file content))
      ∨ t.stop .look links here names = .error .nameTooLong
      ∨ t.stop .look links here names = .error .tooManyLinks := by
  have hlook : ∀ rest : List String,
      ¬(Purpose.look = .write ∧ rest ≠ [] ∧ rest.all (· == "")) := by simp
  generalize he : Entry.file content = entry at h
  induction h generalizing links with
  | here => cases he
  | blank hname _ ih =>
    rw [FileTree.stop, if_pos hname]
    exact ih links he
  | above _ ih =>
    rw [FileTree.stop, if_neg (by decide), if_pos rfl]
    exact ih links he
  | @file place name _ hname hget =>
    cases he
    by_cases hlong : greatestName < (utf8 name).length
    · exact .inr (.inl (stop_of_long hname hlong))
    · rw [stop_eq_of_free hname.1 hname.2 (hlook _) hlong (.inr ⟨_, hget⟩)]
      exact .inl ⟨_, rfl, hget⟩
  | @directory place name rest _ hname hget _ ih =>
    by_cases hlong : greatestName < (utf8 name).length
    · exact .inr (.inl (stop_of_long hname hlong))
    · rw [stop_eq_of_directory hname.1 hname.2 (hlook _) hlong hget]
      exact ih links he
  | @link place name target rest _ hname hget _ ih =>
    by_cases hlong : greatestName < (utf8 name).length
    · exact .inr (.inl (stop_of_long hname hlong))
    · rw [stop_eq_of_link hname.1 hname.2 (hlook _) hlong hget]
      rcases links with _ | links
      · exact .inr (.inr rfl)
      · exact ih links he

theorem isFile_iff {path : Path} :
    t.isFile path ↔ ∃ place content, t.stopAt .look path.text = .ok (place, some [])
      ∧ t.get? place = some (.file content) := by
  constructor
  · intro h
    unfold isFile at h
    split at h
    · rename_i place content hfind
      exact ⟨place, content, find_file hfind⟩
    · cases h
  · rintro ⟨place, content, hstop, hget⟩
    rw [isFile, find_eq, hstop]
    simp [Except.bind, arrive, hget]

/-- Why a walk is given up, whatever lies on its way. -/
def Refused (result : Except IoFault (Place × Option Entry)) : Prop :=
  result = .error .nulInName ∨ result = .error .nameTooLong ∨ result = .error .tooManyLinks

theorem refused_of_not_walkable {path : List Char} {purpose : Purpose} (hne : path ≠ [])
    (h : ¬Walkable path) : Refused (t.find purpose (String.ofList path)) := by
  unfold find
  split <;> rename_i hnul
  · exact .inl rfl
  split <;> rename_i hempty
  · exact absurd (by simpa using hempty) hne
  split <;> rename_i hlong
  · exact .inr (.inl rfl)
  · exact absurd ⟨by simpa using hnul, hne, by omega⟩ h

/-- What is looked at as a file in a directory is what follows to a file from there, if it is looked
at at all. -/
theorem isFile_child_iff {directory : Path}
    (hhome : t.find .look directory.text = .ok (home, some .directory))
    (hname : Path.IsName name.toList) :
    t.isFile (directory.child name) ↔ (∃ content, t.Follows home [name] (.file content))
      ∧ ¬Refused (t.find .look (directory.child name).text) := by
  obtain ⟨front, hfront, hleads⟩ := leads_directory hhome
  have hchild := Path.child_text hname hfront
  have hstop : ∀ hwalk : Walkable (front ++ '/' :: name.toList),
      ∃ links, t.stopAt .look (directory.child name).text = t.stop .look links home [name] := by
    intro hwalk
    obtain ⟨links, hlinks⟩ := hleads.stopAt_name hname hwalk
    exact ⟨links, by rw [hchild, hlinks, String.ofList_toList]⟩
  rw [isFile_iff]
  constructor
  · rintro ⟨place, content, hat, hget⟩
    obtain ⟨links, hlinks⟩ := hstop (walkable_of_stopAt (hchild ▸ hat))
    refine ⟨⟨content, follows_of_stop (hlinks ▸ hat) hget⟩, ?_⟩
    rw [find_eq, hat]
    simp [Refused, Except.bind, arrive, hget]
  · rintro ⟨⟨content, hfollows⟩, hrefused⟩
    by_cases hwalk : Walkable (front ++ '/' :: name.toList)
    · obtain ⟨links, hlinks⟩ := hstop hwalk
      rw [find_eq, hlinks] at hrefused
      rcases hfollows.stop links with ⟨place, hat, hget⟩ | herror | herror
      · exact ⟨place, content, hlinks.trans hat, hget⟩
      · exact absurd (.inr (.inl (by rw [herror]; rfl))) hrefused
      · exact absurd (.inr (.inr (by rw [herror]; rfl))) hrefused
    · rw [hchild] at hrefused
      exact absurd (refused_of_not_walkable (by simp) hwalk) hrefused

end ImapProbe.FileTree
