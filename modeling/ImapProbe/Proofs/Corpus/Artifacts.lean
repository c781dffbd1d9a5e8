import ImapProbe.Proofs.Corpus.Listing

/-!
# The artifacts of one corpus

The artifacts that one profile has of a corpus are different paths, one for a message and a
description, be there what dots or slashes there are in the stems and in the suffix
(`artifacts_apart`). It takes the extension that the messages share: of `a.eml` and `a.txt` the
artifacts are the same.
-/

namespace ImapProbe

/-- The names of a path, without those that stand for nothing. -/
def Path.parts (p : Path) : List (List Char) :=
  (cut '/' p.text.toList).filter fun name => name ≠ [] ∧ name ≠ ['.']

section Parts

variable {separator : Char} {part part' rest : List Char}

theorem parts_concat (front rest : List Char) :
    (⟨String.ofList (front ++ '/' :: rest)⟩ : Path).parts
      = (⟨String.ofList front⟩ : Path).parts ++ (⟨String.ofList rest⟩ : Path).parts := by
  simp only [Path.parts, String.toList_ofList, cut_append, List.filter_append]

/-- What stands before the first separator stays with the first part. -/
theorem cut_append_left {first : List Char} {parts : List (List Char)}
    (hparts : cut separator rest = first :: parts) :
    ∀ {part : List Char}, separator ∉ part →
      cut separator (part ++ rest) = (part ++ first) :: parts
  | [], _ => hparts
  | c :: cs, h => by
    obtain ⟨hc, hcs⟩ := not_or.1 (mt List.mem_cons.2 h)
    rw [List.cons_append, cut, if_neg (Ne.symm hc), cut_append_left hparts hcs]
    rfl

/-- Stems with the same behind them are told apart by the names of the path: a first name `.`, which
is passed over, stands on both sides or on none. -/
theorem parts_append_inj (hpart : '/' ∉ part ∧ part ≠ []) (hpart' : '/' ∉ part' ∧ part' ≠ [])
    (h : (⟨String.ofList (part ++ rest)⟩ : Path).parts
      = (⟨String.ofList (part' ++ rest)⟩ : Path).parts) : part = part' := by
  obtain ⟨first, parts, hparts⟩ := exists_cut '/' rest
  simp only [Path.parts, String.toList_ofList, cut_append_left hparts hpart.1,
    cut_append_left hparts hpart'.1, List.filter_cons, List.append_eq_nil_iff, hpart.2, hpart'.2,
    ne_eq, false_and, not_false_eq_true, true_and, decide_not, Bool.not_eq_true',
    decide_eq_false_iff_not] at h
  split at h <;> rename_i hdot <;> split at h <;> rename_i hdot'
  · exact List.append_cancel_right (List.cons.inj h).1
  · exact absurd (congrArg List.length h) (by simp)
  · exact absurd (congrArg List.length h) (by simp)
  · exact List.append_cancel_right ((not_not.1 hdot).trans (not_not.1 hdot').symm)

/-- The last name of an artifact has the extension of its description. -/
theorem parts_artifactName (m : Path) (s : String) (d : Description) :
    ∃ stem, (⟨String.ofList (artifactName m s d)⟩ : Path).parts.getLast?
      = some (stem ++ '.' :: d.extension.toList) := by
  have hkept : ∀ (base : List (List Char)) {stem : List Char}, '/' ∉ stem →
      ((base ++ [stem ++ '.' :: d.extension.toList]).filter
        fun name => name ≠ [] ∧ name ≠ ['.']).getLast?
          = some (stem ++ '.' :: d.extension.toList) := fun base _ hstem => by
    obtain ⟨-, hne, hdot, -⟩ := isName_extended hstem d
    rw [List.filter_append, List.filter_cons_of_pos (by simpa using hdot), List.filter_nil]
    exact List.getLast?_concat
  simp only [Path.parts, String.toList_ofList]
  by_cases hslash : '/' ∈ artifactName m s d
  · obtain ⟨base, last, hlast, hnot⟩ := Path.exists_last hslash
    obtain ⟨stem, rfl⟩ := exists_extended ((List.nil_append _).trans hlast)
    refine ⟨stem, ?_⟩
    rw [hlast, cut_concat hnot]
    exact hkept _ fun hmem => hnot (List.mem_append_left _ hmem)
  · refine ⟨glued m s, ?_⟩
    rw [cut_of_notMem hslash]
    exact hkept [] fun hmem => hslash (List.mem_append_left _ hmem)

end Parts

section Corpus

open FileTree

variable {t : FileTree} {directory : Path} {extension name name' : String} {messages : List Path}
  {m m' : Path} {d d' : Description} {home place : Place}

/-- The stem of a message, which is where the messages of one corpus differ. -/
theorem exists_stem (h : IsMessage extension name) :
    ∃ stem, ('/' ∉ stem ∧ stem ≠ []) ∧ name.toList = stem ++ '.' :: extension.toList
      ∧ ∀ (directory : Path) s, glued (directory.child name) s = stem ++ s.toList := by
  refine ⟨_, ⟨h.slash_notMem_stem, h.stem_ne_nil⟩, (Path.splitName_of_hasExtension h.extended).2,
    fun directory s => ?_⟩
  rw [glued, Path.stem?_child h.isName, Option.getD_some]

/-- Two artifacts with the same names in their paths are one. -/
theorem parts_artifactFile_inj (hdirectory : directory.text ≠ "") (h : IsMessage extension name)
    (h' : IsMessage extension name') {s : String}
    (hparts : (artifactFile (directory.child name) s d).parts
      = (artifactFile (directory.child name') s d').parts) : name = name' ∧ d = d' := by
  have hne : directory.text.toList ≠ [] := by simpa using hdirectory
  obtain ⟨front, hfront⟩ := Path.exists_slashed (Path.parent_ne_nil hne)
  rw [artifactFile_child h, artifactFile_child h', hfront, List.append_assoc, List.append_assoc,
    List.singleton_append, List.singleton_append, parts_concat, parts_concat] at hparts
  replace hparts := List.append_cancel_left hparts
  obtain rfl : d = d' := by
    obtain ⟨stem, hlast⟩ := parts_artifactName (directory.child name) s d
    obtain ⟨stem', hlast'⟩ := parts_artifactName (directory.child name') s d'
    rw [hparts, hlast', Option.some.injEq] at hlast
    exact (extension_inj hlast).symm
  obtain ⟨stem, hstem, hname, hglued⟩ := exists_stem h
  obtain ⟨stem', hstem', hname', hglued'⟩ := exists_stem h'
  rw [artifactName, artifactName, hglued, hglued', List.append_assoc, List.append_assoc] at hparts
  obtain rfl := parts_append_inj hstem hstem' hparts
  exact ⟨String.toList_injective (hname.trans hname'.symm), rfl⟩

/-- Of messages with different extensions the artifacts can be the same. -/
example : artifactFile ⟨"a.eml"⟩ ".x" .body = artifactFile ⟨"a.txt"⟩ ".x" .body := by decide

theorem split_artifactFile (h : IsMessage extension name) {s : String} (hs : '/' ∉ s.toList)
    (d : Description) :
    (artifactFile (directory.child name) s d).split
      = (artifactName (directory.child name) s d, (directory.child name).split.2) := by
  rw [artifactFile_child h, Path.split_concat (isName_artifactName h hs d) (Path.slashed_ends _),
    Path.split_child h.isName, ← Path.parent, Path.parent_parent]

/-- The path that the files of a directory have of it leads there. -/
theorem find_parent (h : t.find .look directory.text = .ok (home, some .directory)) :
    t.find .look (String.ofList (Path.parent directory.text.toList))
      = .ok (home, some .directory) := by
  obtain ⟨front, hfront, hleads⟩ := leads_directory h
  rw [find_directory_iff, Path.parent, hfront]
  exact hleads.trimmed

/-- Where an artifact goes that is no link: to the directory of its message, under its name. -/
theorem place_artifactFile (hhome : t.find .look directory.text = .ok (home, some .directory))
    (hdirectory : directory.text ≠ "") (h : IsMessage extension name) {s : String}
    (hs : '/' ∉ s.toList)
    (hown : ∀ target, t.own? (artifactFile (directory.child name) s d) ≠ some (.link target))
    (hplace : t.target? (artifactFile (directory.child name) s d) = some place) :
    place = home ++ [String.ofList (artifactName (directory.child name) s d)] := by
  obtain ⟨home', hhome', rfl⟩ := target?_child h hs hdirectory hown hplace
  rw [find_parent hhome] at hhome'
  rw [(Prod.mk.inj (Except.ok.inj hhome')).1]

/-- The artifacts that one profile has of a corpus are different paths, whatever its suffix is. With
a suffix that has no slash, an artifact has the path of its message up to the last name, which leads
to the directory that the corpus was read from; and where it is no link, it is written there under
its own name, so no two artifacts are written to one place. -/
theorem artifacts_apart {t : NamedTree}
    (hcorpus : corpus t directory extension = .ok messages) (s : String) :
    (∀ m ∈ messages, ∀ m' ∈ messages, ∀ d d', (m, d) ≠ (m', d') →
        artifactFile m s d ≠ artifactFile m' s d'
          ∧ (artifactFile m s d).parts ≠ (artifactFile m' s d').parts)
      ∧ ('/' ∉ s.toList → ∃ home, t.find .look directory.text = .ok (home, some .directory)
        ∧ (∀ m ∈ messages, ∀ d,
          (artifactFile m s d).split = (artifactName m s d, m.split.2)
            ∧ t.find .look (String.ofList m.split.2) = .ok (home, some .directory)
            ∧ ∀ place, t.target? (artifactFile m s d) = some place →
              (∀ target, t.own? (artifactFile m s d) ≠ some (.link target)) →
              place = home ++ [String.ofList (artifactName m s d)])
        ∧ ∀ m ∈ messages, ∀ m' ∈ messages, ∀ d d', (m, d) ≠ (m', d') →
          (∀ target, t.own? (artifactFile m s d) ≠ some (.link target)) →
          (∀ target, t.own? (artifactFile m' s d') ≠ some (.link target)) →
          ∀ place, t.target? (artifactFile m s d) = some place →
            t.target? (artifactFile m' s d') ≠ some place) := by
  obtain ⟨hdirectory, -⟩ := corpus_messages hcorpus
  obtain ⟨home, hhome, hmessages⟩ := corpus_files hcorpus
  have hparts : ∀ m ∈ messages, ∀ m' ∈ messages, ∀ d d', (m, d) ≠ (m', d') →
      (artifactFile m s d).parts ≠ (artifactFile m' s d').parts := by
    intro m hm m' hm' d d' hne heq
    obtain ⟨name, hname, rfl, -⟩ := hmessages m hm
    obtain ⟨name', hname', rfl, -⟩ := hmessages m' hm'
    obtain ⟨rfl, rfl⟩ := parts_artifactFile_inj hdirectory hname hname' heq
    exact hne rfl
  refine ⟨fun m hm m' hm' d d' hne => ⟨fun heq => ?_, hparts m hm m' hm' d d' hne⟩,
    fun hs => ?_⟩
  · exact hparts m hm m' hm' d d' hne (congrArg Path.parts heq)
  have hplaces : ∀ m ∈ messages, ∀ d place, t.target? (artifactFile m s d) = some place →
      (∀ target, t.own? (artifactFile m s d) ≠ some (.link target)) →
      place = home ++ [String.ofList (artifactName m s d)] := by
    intro m hm d place hplace hown
    obtain ⟨name, hname, rfl, -⟩ := hmessages m hm
    exact place_artifactFile hhome hdirectory hname hs hown hplace
  refine ⟨home, hhome, fun m hm d => ⟨?_, ?_, hplaces m hm d⟩, ?_⟩
  · obtain ⟨name, hname, rfl, -⟩ := hmessages m hm
    exact split_artifactFile hname hs d
  · obtain ⟨name, hname, rfl, -⟩ := hmessages m hm
    rw [Path.split_child hname.isName]
    exact find_parent hhome
  · intro m hm m' hm' d d' hne hown hown' place hplace hplace'
    have hname := (hplaces m hm d place hplace hown).symm.trans
      (hplaces m' hm' d' place hplace' hown')
    obtain ⟨hsame, -⟩ := List.cons.inj (List.append_cancel_left hname)
    obtain ⟨rfl, hglued⟩ := artifactName_inj.1 (String.ofList_injective hsame)
    refine hparts m hm m' hm' d d hne ?_
    obtain ⟨name, hmessage, rfl, -⟩ := hmessages m hm
    obtain ⟨name', hmessage', rfl, -⟩ := hmessages m' hm'
    rw [(artifactFile_eq_iff hmessage hmessage').2 ⟨rfl, hglued⟩]

end Corpus

section Namesakes

open FileTree

/-- Two letters, the one named as an artifact of the other could be. -/
def namesakes : Disk :=
  .build [] [("a.eml", [97]), ("a.x.eml", [98])] [] (by decide)

/-- With the suffix that tells the letters apart, their artifacts are apart too. -/
theorem artifacts_apart_namesakes :
    ∃ messages, corpus namesakes ⟨"."⟩ "eml" = .ok messages
      ∧ ⟨"./a.eml"⟩ ∈ messages ∧ ⟨"./a.x.eml"⟩ ∈ messages
      ∧ (artifactFile ⟨"./a.eml"⟩ ".x" .body).parts ≠ (artifactFile ⟨"./a.x.eml"⟩ ".x" .body).parts
      ∧ (artifactFile ⟨"./a.eml"⟩ ".x" .body).split.2 = ['.'] := by
  have hlisted : ∀ name, name ∈ namesakes.namesIn [] → hasExtension "eml" name →
      namesakes.isFile (Path.child ⟨"."⟩ name) →
      Path.child ⟨"."⟩ name ∈ (listed namesakes ⟨"."⟩ "eml" (namesakes.namesIn [])).map
        (Path.child ⟨"."⟩) := fun name hname hext hfile =>
    List.mem_map_of_mem (mem_listed.2 ⟨hname, hasExtension_iff.1 hext, hfile⟩)
  have hcorpus : corpus namesakes ⟨"."⟩ "eml" = .ok _ :=
    corpus_of_list (list_of_find (find_here namesakes))
  have ha := hlisted "a.eml" (by decide) (by decide)
    (isFile_here rfl (by rfl) (by decide))
  have hb := hlisted "a.x.eml" (by decide) (by decide)
    (isFile_here rfl (by rfl) (by decide))
  obtain ⟨hapart, hbeside⟩ := artifacts_apart hcorpus ".x"
  obtain ⟨_, -, hsplit, -⟩ := hbeside (by decide)
  refine ⟨_, hcorpus, ha, hb, (hapart _ ha _ hb _ _ (by decide)).2, ?_⟩
  exact congrArg Prod.snd (hsplit _ ha .body).1

end Namesakes

end ImapProbe
