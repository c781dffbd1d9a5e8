import ImapProbe.Proofs.Sharing
import ImapProbe.Proofs.Storage.Entries
import ImapProbe.Proofs.Storage.Following
import ImapProbe.Proofs.Utf8

/-!
# What a corpus lists

The names of a directory that have a stem and the extension, and that lead to a file, are listed in
the order of their octets, whatever order the directory has them in (`corpus_listed`).
-/

namespace ImapProbe

/-- A name whose last dot stands behind a stem and before the extension. -/
def Extended (extension name : String) : Prop :=
  ∃ stem : String, stem ≠ "" ∧ name = stem ++ "." ++ extension ∧ '.' ∉ extension.toList

section Names

variable {extension name : String}

theorem toList_extended (stem extension : String) :
    (stem ++ "." ++ extension).toList = stem.toList ++ '.' :: extension.toList := by
  simp [String.toList_append]

theorem extended_injective (extension : String) :
    Function.Injective fun stem : String => stem ++ "." ++ extension := fun stem stem' h => by
  have hlist := congrArg String.toList h
  simp only [toList_extended] at hlist
  exact String.toList_injective (List.append_cancel_right hlist)

theorem hasExtension_iff : hasExtension extension name ↔ Extended extension name := by
  constructor
  · intro h
    by_cases hdot : '.' ∈ name.toList
    · obtain ⟨stem, rest, hname, hrest⟩ := Path.exists_last hdot
      obtain ⟨hstem, rfl⟩ := Path.extension_eq h hname hrest
      refine ⟨String.ofList stem, by simpa using hstem, String.toList_injective ?_, hrest⟩
      rw [hname, toList_extended, String.toList_ofList]
    · simp [hasExtension, Path.splitName_of_notMem hdot] at h
  · rintro ⟨stem, hstem, rfl, hdot⟩
    rw [hasExtension, toList_extended, Path.splitName_append hdot (by simpa using hstem),
      beq_self_eq_true]

theorem child_inj {directory : Path} {name' : String} (h : Path.IsName name.toList)
    (h' : Path.IsName name'.toList) :
    directory.child name = directory.child name' ↔ name = name' := by
  refine ⟨fun heq => ?_, congrArg _⟩
  rw [Path.child, Path.child, Path.below_eq h.not_absolute, Path.below_eq h'.not_absolute,
    Path.mk.injEq] at heq
  exact String.toList_injective (List.append_cancel_left (String.ofList_injective heq))

end Names

section Listing

open FileTree

variable {t u : FileTree} {directory : Path} {extension name : String} {names names' : List String}
  {home : Place}

/-- The messages among the names of a directory, in order. -/
def listed (t : FileTree) (directory : Path) (extension : String) (names : List String) :
    List String :=
  (names.filter fun name =>
    hasExtension extension name && t.isFile (directory.child name)).mergeSort
      fun a b => decide (a ≤ b)

theorem corpus_of_list (h : t.list directory = .ok names) :
    corpus t directory extension
      = .ok ((listed t directory extension names).map directory.child) := by
  rw [corpus, h]
  rfl

theorem list_of_find (h : t.find .look directory.text = .ok (home, some .directory)) :
    t.list directory = .ok (t.namesIn home) := by
  rw [list, h]

theorem mem_listed : name ∈ listed t directory extension names
    ↔ name ∈ names ∧ Extended extension name ∧ t.isFile (directory.child name) := by
  rw [listed, List.mem_mergeSort, List.mem_filter, Bool.and_eq_true, hasExtension_iff]

theorem pairwise_le_listed :
    (listed t directory extension names).Pairwise fun a b => a ≤ b := by
  simpa only [listed, decide_eq_true_eq] using
    @List.pairwise_mergeSort _ (fun a b : String => decide (a ≤ b))
      (fun _ _ _ hab hbc => by
        simpa using String.le_trans (of_decide_eq_true hab) (of_decide_eq_true hbc))
      (fun a b => by simpa using String.le_total a b) _

/-- What is listed is the same whatever order the names were in. -/
theorem listed_perm (h : names.Perm names') :
    listed t directory extension names = listed t directory extension names' := by
  refine List.Perm.eq_of_pairwise (fun _ _ _ _ => String.le_antisymm) pairwise_le_listed
    pairwise_le_listed ?_
  exact (List.mergeSort_perm _ _).trans ((h.filter _).trans (List.mergeSort_perm _ _).symm)

theorem nodup_listed (h : names.Nodup) : (listed t directory extension names).Nodup :=
  (List.mergeSort_perm _ _).nodup_iff.2 (h.filter _)

theorem pairwise_lt_listed (h : names.Nodup) :
    (listed t directory extension names).Pairwise fun a b => utf8 a < utf8 b := by
  refine (pairwise_le_listed.and (nodup_listed h)).imp fun {a b} hab => utf8_lt_iff.2 ?_
  exact Classical.byContradiction fun hlt =>
    hab.2 (String.le_antisymm hab.1 (String.not_lt.1 hlt))

theorem NamedTree.isName (t : NamedTree) {entry : Entry}
    (hentry : (home ++ [name], entry) ∈ t.entries) (hext : Extended extension name) :
    Path.IsName name.toList :=
  (t.isMessage (mem_namesIn.2 ⟨entry, hentry⟩) (hasExtension_iff.2 hext)).isName

/-- A corpus is read exactly when its directory is. It is then the entries of the directory whose
name has the extension behind a stem and that are looked at as files, each once and in the order of
the octets of their names; and these are the entries that follow to a file, where the system does
not refuse their path. In which order the entries of the tree are kept makes no difference. -/
theorem corpus_listed (t : Disk) (directory : Path) (extension : String) :
    (∀ e, corpus t directory extension = .error e ↔ t.list directory = .error e)
      ∧ (∀ home, t.find .look directory.text = .ok (home, some .directory) →
        ∃ names : List String, corpus t directory extension = .ok (names.map directory.child)
          ∧ names.Pairwise (fun a b => utf8 a < utf8 b) ∧ (names.map directory.child).Nodup
          ∧ (∀ name, name ∈ names ↔ (∃ entry, (home ++ [name], entry) ∈ t.entries)
            ∧ Extended extension name ∧ t.isFile (directory.child name))
          ∧ ∀ name entry, (home ++ [name], entry) ∈ t.entries → Extended extension name →
            (t.isFile (directory.child name) ↔ (∃ content, t.Follows home [name] (.file content))
              ∧ ¬Refused (t.find .look (directory.child name).text)))
      ∧ ∀ u : FileTree, u.entries.Perm t.entries →
        corpus u directory extension = corpus t directory extension := by
  refine ⟨fun e => ?_, fun home hhome => ?_, fun u hperm => ?_⟩
  · rcases hlist : t.list directory with e' | names
    · simp [corpus, hlist]
    · simp [corpus_of_list hlist]
  · refine ⟨listed t directory extension (t.namesIn home), corpus_of_list (list_of_find hhome),
      pairwise_lt_listed (t.nodup_namesIn home), ?_, fun name => ?_,
      fun name entry hentry hext => isFile_child_iff hhome (t.isName hentry hext)⟩
    · refine (nodup_listed (t.nodup_namesIn home)).map_on fun a ha b hb heq => ?_
      obtain ⟨ha, hexta, -⟩ := mem_listed.1 ha
      obtain ⟨hb, hextb, -⟩ := mem_listed.1 hb
      obtain ⟨_, ha⟩ := mem_namesIn.1 ha
      obtain ⟨_, hb⟩ := mem_namesIn.1 hb
      exact (child_inj (t.isName ha hexta) (t.isName hb hextb)).1 heq
    · rw [mem_listed, mem_namesIn]
  · have hlisted : ∀ names,
        listed u directory extension names = listed t directory extension names := fun names => by
      simp only [listed, t.isFile_perm hperm]
    rcases hlist : t.list directory with e | names
    · rw [corpus, corpus, hlist, t.list_perm hperm hlist]
    · obtain ⟨home, hhome, rfl⟩ := list_eq_ok hlist
      have hlist' := list_of_find ((t.find_perm hperm _ _).trans hhome)
      have hnames : (u.namesIn home).Perm (t.namesIn home) := hperm.filterMap _
      rw [corpus_of_list hlist, corpus_of_list hlist', hlisted, listed_perm hnames]

end Listing

section Drawer

open FileTree

theorem isFile_here {t : FileTree} {name : String} {content : Bytes}
    (hget : t.get? [name] = some (.file content))
    (hpath : t.stopAt .look (Path.child ⟨"."⟩ name).text
      = t.stop .look greatestLinks [] [".", name])
    (hname : ¬(name = "" ∨ name = ".") ∧ name ≠ ".." ∧ ¬greatestName < (utf8 name).length) :
    t.isFile (Path.child ⟨"."⟩ name) :=
  isFile_iff.2 ⟨_, content, stopAt_beside hpath hname (.inr ⟨_, hget⟩), hget⟩

/-- A directory that holds a directory, a file, a link to it and a file without a stem. -/
def drawer : Disk :=
  .build ["d.eml"] [("b.eml", [98]), (".eml", [46])] [("a.eml", "b.eml")] (by decide)

theorem drawer_link : drawer.isFile ⟨"./a.eml"⟩ := by
  refine isFile_iff.2 ⟨["b.eml"], [98], ?_, rfl⟩
  rw [show drawer.stopAt .look "./a.eml" = drawer.stop .look 40 [] [".", "a.eml"] by rfl, stop,
    if_pos (.inr rfl), stop_eq_of_link (by decide) (by decide) (by simp) (by decide) rfl]
  exact stop_eq_of_free (by decide) (by decide) (by simp) (by decide) (.inr ⟨[98], rfl⟩)

/-- The link counts as the file, and neither the directory nor the file without a stem does. -/
theorem corpus_listed_drawer :
    ∃ names : List String, corpus drawer ⟨"."⟩ "eml" = .ok (names.map (Path.child ⟨"."⟩))
      ∧ "a.eml" ∈ names ∧ "d.eml" ∉ names ∧ ".eml" ∉ names := by
  obtain ⟨-, hread, -⟩ := corpus_listed drawer ⟨"."⟩ "eml"
  obtain ⟨names, hcorpus, -, -, hmem, hfollows⟩ := hread [] (find_here drawer)
  have hextended : ∀ {name}, hasExtension "eml" name → Extended "eml" name := hasExtension_iff.1
  refine ⟨names, hcorpus,
    (hmem _).2 ⟨⟨.link "b.eml", by decide⟩, hextended (by decide), drawer_link⟩,
    fun hd => ?_, fun hhidden => ?_⟩
  · obtain ⟨⟨content, h⟩, -⟩ := (hfollows "d.eml" .directory (by decide)
      (hextended (by decide))).1 ((hmem _).1 hd).2.2
    cases h.of_directory ⟨by decide, by decide⟩ rfl
  · exact absurd (hasExtension_iff.2 ((hmem _).1 hhidden).2.1) (by decide)

end Drawer

end ImapProbe
