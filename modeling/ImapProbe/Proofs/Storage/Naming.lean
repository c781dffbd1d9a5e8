import ImapProbe.Corpus.Basic
import ImapProbe.Proofs.Forms
import ImapProbe.Session.Examination
import Mathlib.Data.List.TakeWhile

/-!
# How artifacts are named

The artifacts of the files of one directory differ in their last names alone, which are the stem of
the message, the suffix of the profile and the extension, glued together (`artifactFile_child`). So
two of them have one path exactly when stem and suffix come to the same and the descriptions are the
same (`artifactFile_eq_iff`).
-/

namespace ImapProbe

namespace Path

/-- What can be the name of a file. -/
def IsName (name : List Char) : Prop :=
  '/' ∉ name ∧ name ≠ [] ∧ name ≠ ['.'] ∧ name ≠ ['.', '.']

/-- A path with a slash before what may follow. -/
def slashed (base : List Char) : List Char :=
  if base.isEmpty || base.getLast? == some '/' then base else base ++ ['/']

/-- The directory of a file, as the path of the file has it. -/
def parent (directory : List Char) : List Char := (trimEnd (slashed directory).reverse).reverse

theorem below_eq {base name : List Char} (h : isAbsolute name = false) :
    below base name = ⟨String.ofList (slashed base ++ name)⟩ := by
  unfold below slashed
  rw [h, if_neg (by simp)]
  split
  · rfl
  · rw [List.append_assoc, List.singleton_append]

theorem slashed_ends (base : List Char) :
    slashed base = [] ∨ ∃ front, slashed base = front ++ ['/'] := by
  unfold slashed
  split <;> rename_i h
  · simp only [Bool.or_eq_true, List.isEmpty_iff, beq_iff_eq, List.getLast?_eq_some_iff] at h
    exact h
  · exact .inr ⟨base, rfl⟩

theorem trimEnd_name {name : List Char} (h : IsName name) (rest : List Char) :
    trimEnd (name.reverse ++ rest) = name.reverse ++ rest := by
  obtain ⟨hslash, hne, hdot, -⟩ := h
  rw [← List.mem_reverse] at hslash
  rw [Ne, ← List.reverse_eq_nil_iff] at hne
  rw [Ne, ← List.reverse_inj, List.reverse_singleton] at hdot
  generalize name.reverse = reversed at hslash hne hdot ⊢
  rcases reversed with _ | ⟨x, _ | ⟨y, ys⟩⟩
  · exact absurd rfl hne
  · have hx : x ≠ '/' := fun hx => hslash (by simp [hx])
    rw [List.singleton_append, trimEnd] <;> simp_all
  · have hx : x ≠ '/' := fun hx => hslash (by simp [hx])
    have hy : y ≠ '/' := fun hy => hslash (by simp [hy])
    rw [List.cons_append, List.cons_append, trimEnd] <;> simp_all

theorem split_concat {front name : List Char} (h : IsName name)
    (hfront : front = [] ∨ ∃ base, front = base ++ ['/']) :
    split ⟨String.ofList (front ++ name)⟩ = (name, (trimEnd front.reverse).reverse) := by
  have hall : ∀ c ∈ name.reverse, (c != '/') = true := fun c hc => by
    simp only [bne_iff_ne]
    rintro rfl
    exact h.1 (List.mem_reverse.1 hc)
  have htake : front.reverse.takeWhile (· != '/') = [] ∧
      front.reverse.dropWhile (· != '/') = front.reverse := by
    rcases hfront with rfl | ⟨base, rfl⟩ <;> simp
  simp only [split, String.toList_ofList, List.reverse_append, trimEnd_name h]
  rw [List.takeWhile_append_of_pos hall, List.dropWhile_append_of_pos hall, htake.1, htake.2]
  simp

theorem trimEnd_trimEnd (cs : List Char) : trimEnd (trimEnd cs) = trimEnd cs := by
  fun_induction trimEnd cs with
  | case1 _ _ ih => exact ih
  | case2 _ _ ih => exact ih
  | case3 => rfl
  | case4 => rw [trimEnd] <;> assumption

theorem parent_parent (directory : List Char) : parent (parent directory) = parent directory := by
  have htrim := trimEnd_trimEnd (slashed directory).reverse
  unfold parent
  generalize trimEnd (slashed directory).reverse = trimmed at htrim ⊢
  unfold slashed
  rcases trimmed with _ | ⟨c, cs⟩
  · rfl
  · split
    · rw [List.reverse_reverse, htrim]
    · rw [List.reverse_append, List.reverse_reverse, List.reverse_singleton, List.singleton_append,
        trimEnd, htrim]

variable {directory : Path} {name : String}

/-- A text does not start with a slash if a part without one stands before. -/
theorem not_absolute_append {stem : List Char} (hslash : '/' ∉ stem) (hne : stem ≠ [])
    (rest : List Char) : isAbsolute (stem ++ rest) = false := by
  rcases stem with _ | ⟨c, cs⟩
  · exact absurd rfl hne
  · have hc : c ≠ '/' := fun hc => hslash (by simp [hc])
    simpa [isAbsolute] using hc

theorem IsName.not_absolute {name : List Char} (h : IsName name) : isAbsolute name = false := by
  simpa using not_absolute_append h.1 h.2.1 []

theorem IsName.ofList {name : List Char} (h : IsName name) :
    ¬(String.ofList name = "" ∨ String.ofList name = ".") ∧ String.ofList name ≠ ".." := by
  have hinj : ∀ text : String, String.ofList name = text → name = text.toList := by
    rintro _ rfl
    simp
  refine ⟨?_, fun hdots => h.2.2.2 (hinj _ hdots)⟩
  rintro (hempty | hdot)
  · exact h.2.1 (hinj _ hempty)
  · exact h.2.2.1 (hinj _ hdot)

theorem split_child (h : IsName name.toList) :
    (directory.child name).split = (name.toList, parent directory.text.toList) := by
  rw [child, below_eq h.not_absolute]
  exact split_concat h (slashed_ends _)

theorem name?_child (h : IsName name.toList) : (directory.child name).name? = some name.toList := by
  rw [name?, split_child h, if_neg]
  simpa using h.2

theorem stem?_child (h : IsName name.toList) :
    (directory.child name).stem? = some (splitName name.toList).1 := by
  rw [stem?, name?_child h]
  rfl

section Extensions

variable {stem rest : List Char} {extension name : String}

theorem exists_last {separator : Char} {cs : List Char} (h : separator ∈ cs) :
    ∃ front part, cs = front ++ separator :: part ∧ separator ∉ part := by
  obtain ⟨part, front, hcs, hpart⟩ := List.eq_append_cons_of_mem (List.mem_reverse.2 h)
  refine ⟨front.reverse, part.reverse, ?_, by simpa using hpart⟩
  simpa using List.reverse_eq_iff.1 hcs

theorem forall_reverse_ne (hrest : '.' ∉ rest) : ∀ c ∈ rest.reverse, (c != '.') = true :=
  fun _ hc => bne_iff_ne.2 fun he => hrest (he ▸ List.mem_reverse.1 hc)

/-- A name splits at its last dot, if anything stands before that. -/
theorem splitName_append (hrest : '.' ∉ rest) (hstem : stem ≠ []) :
    splitName (stem ++ '.' :: rest) = (stem, some rest) := by
  have hall := forall_reverse_ne hrest
  have hreverse : (stem ++ '.' :: rest).reverse = rest.reverse ++ '.' :: stem.reverse := by simp
  unfold splitName
  rw [hreverse, List.takeWhile_append_of_pos hall, List.dropWhile_append_of_pos hall]
  simp [hstem]

theorem splitName_hidden (hrest : '.' ∉ rest) : (splitName ('.' :: rest)).2 = none := by
  unfold splitName
  rw [List.reverse_cons, List.dropWhile_append_of_pos (forall_reverse_ne hrest)]
  rfl

theorem splitName_of_notMem (hrest : '.' ∉ rest) : (splitName rest).2 = none := by
  unfold splitName
  rw [List.dropWhile_eq_nil_iff.2 (forall_reverse_ne hrest)]

/-- The extension of a name is what follows its last dot. -/
theorem extension_eq (h : hasExtension extension name)
    (hname : name.toList = stem ++ '.' :: rest) (hrest : '.' ∉ rest) :
    stem ≠ [] ∧ rest = extension.toList := by
  rw [hasExtension, hname, beq_iff_eq] at h
  by_cases hstem : stem = []
  · rw [hstem, List.nil_append, splitName_hidden hrest] at h
    cases h
  · rw [splitName_append hrest hstem] at h
    exact ⟨hstem, Option.some.inj h⟩

/-- A name with an extension has a stem before it. -/
theorem splitName_of_hasExtension (h : hasExtension extension name) :
    (splitName name.toList).1 ≠ []
      ∧ name.toList = (splitName name.toList).1 ++ '.' :: extension.toList := by
  by_cases hdot : '.' ∈ name.toList
  · obtain ⟨stem, rest, hname, hrest⟩ := exists_last hdot
    obtain ⟨hstem, rfl⟩ := extension_eq h hname hrest
    rw [hname, splitName_append hrest hstem]
    exact ⟨hstem, rfl⟩
  · simp [hasExtension, splitName_of_notMem hdot] at h

end Extensions

end Path

/-- The stem of a message and a suffix, glued together. -/
def glued (message : Path) (suffix : String) : List Char :=
  message.stem?.getD [] ++ suffix.toList

/-- The last name of an artifact. -/
def artifactName (message : Path) (suffix : String) (d : Description) : List Char :=
  glued message suffix ++ '.' :: d.extension.toList

theorem artifactFile_eq (message : Path) (suffix : String) (d : Description) :
    artifactFile message suffix d = message.withName (artifactName message suffix d) := rfl

/-- The extension of a description tells which it is, whatever stands before it. -/
theorem extension_inj {d d' : Description} {stem stem' : List Char}
    (h : stem ++ '.' :: d.extension.toList = stem' ++ '.' :: d'.extension.toList) : d = d' := by
  have hlast := congrArg List.getLast? h
  revert hlast
  cases d <;> cases d' <;> simp [Description.extension]

theorem artifactName_inj {m m' : Path} {s s' : String} {d d' : Description} :
    artifactName m s d = artifactName m' s' d' ↔ d = d' ∧ glued m s = glued m' s' := by
  constructor
  · intro h
    obtain rfl : d = d' := extension_inj h
    exact ⟨rfl, List.append_cancel_right h⟩
  · rintro ⟨rfl, h⟩
    rw [artifactName, artifactName, h]

theorem dot_notMem_extension (d : Description) : '.' ∉ d.extension.toList := by
  cases d <;> decide

theorem slash_notMem_extension (d : Description) : '/' ∉ d.extension.toList := by
  cases d <;> decide

/-- The extension of an artifact stands behind the last slash, whatever slashes the suffix has. -/
theorem exists_extended {front base last : List Char} {m : Path} {s : String} {d : Description}
    (h : front ++ artifactName m s d = base ++ '/' :: last) :
    ∃ stem, last = stem ++ '.' :: d.extension.toList := by
  have hwhole : ('.' :: d.extension.toList) <:+ base ++ '/' :: last := by
    rw [← h, artifactName, ← List.append_assoc]
    exact List.suffix_append _ _
  rcases List.suffix_or_suffix_of_suffix hwhole (List.suffix_append base ('/' :: last)) with
    hcons | hcons
  · rcases List.suffix_cons_iff.1 hcons with heq | ⟨stem, hstem⟩
    · simp at heq
    · exact ⟨stem, hstem.symm⟩
  · have hmem := hcons.subset (List.mem_cons_self : '/' ∈ '/' :: last)
    simp [slash_notMem_extension d] at hmem

/-- When an artifact has the name of a message: their extensions are the same, and stem and suffix
come to the stem of the message. -/
theorem artifactName_eq_iff {extension name : String} (h : hasExtension extension name) {m : Path}
    {s : String} {d : Description} :
    name.toList = artifactName m s d
      ↔ d.extension = extension ∧ glued m s = (Path.splitName name.toList).1 := by
  constructor
  · intro hname
    obtain ⟨hstem, hext⟩ := Path.extension_eq h hname (dot_notMem_extension d)
    rw [hname, artifactName, Path.splitName_append (dot_notMem_extension d) hstem]
    exact ⟨String.toList_injective hext, rfl⟩
  · rintro ⟨rfl, hglued⟩
    rw [artifactName, hglued]
    exact (Path.splitName_of_hasExtension h).2

section Children

variable {directory : Path} {extension name name' : String} {s s' : String} {d d' : Description}

/-- A file of a directory that can be a message of a corpus. -/
structure IsMessage (extension name : String) : Prop where
  isName : Path.IsName name.toList
  extended : hasExtension extension name

theorem IsMessage.stem_ne_nil (h : IsMessage extension name) :
    (Path.splitName name.toList).1 ≠ [] := (Path.splitName_of_hasExtension h.extended).1

theorem IsMessage.slash_notMem_stem (h : IsMessage extension name) :
    '/' ∉ (Path.splitName name.toList).1 := fun hslash => by
  obtain ⟨-, hname⟩ := Path.splitName_of_hasExtension h.extended
  exact h.isName.1 (by rw [hname]; exact List.mem_append_left _ hslash)

theorem artifactFile_child (h : IsMessage extension name) (s : String) (d : Description) :
    artifactFile (directory.child name) s d
      = ⟨String.ofList (Path.slashed (Path.parent directory.text.toList)
        ++ artifactName (directory.child name) s d)⟩ := by
  have hnot : Path.isAbsolute (artifactName (directory.child name) s d) = false := by
    rw [artifactName, glued, Path.stem?_child h.isName, Option.getD_some, List.append_assoc]
    exact Path.not_absolute_append h.slash_notMem_stem h.stem_ne_nil _
  rw [artifactFile_eq, Path.withName, Path.name?_child h.isName, Path.split_child h.isName]
  exact Path.below_eq hnot

/-- When two artifacts beside one another are one file. -/
theorem artifactFile_eq_iff (h : IsMessage extension name) (h' : IsMessage extension name') :
    artifactFile (directory.child name) s d = artifactFile (directory.child name') s' d'
      ↔ d = d' ∧ glued (directory.child name) s = glued (directory.child name') s' := by
  rw [artifactFile_child h, artifactFile_child h', ← artifactName_inj, Path.mk.injEq]
  constructor
  · exact fun heq => List.append_cancel_left (String.ofList_injective heq)
  · exact fun heq => by rw [heq]

end Children

section Artifacts

variable {directory : Path} {extension name : String} {s : String}

/-- What has the extension of an artifact can be the name of a file. -/
theorem isName_extended {stem : List Char} (hstem : '/' ∉ stem) (d : Description) :
    Path.IsName (stem ++ '.' :: d.extension.toList) := by
  have hend : ∃ c, c ≠ '.' ∧ (stem ++ '.' :: d.extension.toList).getLast? = some c := by
    cases d
    · exact ⟨'y', by decide, by simp [Description.extension]⟩
    · exact ⟨'e', by decide, by simp [Description.extension]⟩
  obtain ⟨c, hc, hlast⟩ := hend
  refine ⟨?_, ?_, ?_, ?_⟩
  · simp [hstem, slash_notMem_extension d]
  · rintro heq
    simp [heq] at hlast
  · rintro heq
    simp [heq, hc.symm] at hlast
  · rintro heq
    simp [heq, hc.symm] at hlast

theorem isName_artifactName (h : IsMessage extension name) (hs : '/' ∉ s.toList)
    (d : Description) : Path.IsName (artifactName (directory.child name) s d) := by
  refine isName_extended (fun hslash => ?_) d
  rw [glued, Path.stem?_child h.isName, Option.getD_some] at hslash
  exact (List.mem_append.1 hslash).elim h.slash_notMem_stem hs

end Artifacts

/-- What glues to one text with some stem ends in one suffix or in the other. -/
theorem suffix_of_glued {m m' : Path} {s s' : String} (h : glued m s = glued m' s') :
    s.toList <:+ s'.toList ∨ s'.toList <:+ s.toList :=
  List.suffix_or_suffix_of_suffix ⟨_, h⟩ ⟨_, rfl⟩

end ImapProbe
