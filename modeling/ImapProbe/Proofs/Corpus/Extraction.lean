import ImapProbe.Corpus.Preparation
import ImapProbe.Proofs.Corpus.Listing
import ImapProbe.Proofs.Preservation
import ImapProbe.Proofs.Storage.Strewn
import Mathlib.Data.Set.List

/-!
# The mails of test vectors

Test vectors are extracted in their order up to the first whose mail cannot be written, because a
directory has its name or because the vector has a dot for a stem. The mails before it are written
then, each beside its vector, and every other file is as it was (`extractAll_extracted`).
-/

namespace ImapProbe

namespace Path

section Extensions

variable {directory : Path} {stem extension : String}

theorem toList_child {name : String} (h : isAbsolute name.toList = false) :
    (directory.child name).text.toList = slashed directory.text.toList ++ name.toList := by
  rw [child, below_eq h, String.toList_ofList]

/-- What is left of a path without its extension has a name, unless that is two dots. -/
theorem kept_name?_isSome (base : List Char) (hslash : '/' ∉ stem.toList) (hempty : stem ≠ "")
    (hdot : stem ≠ ".") :
    (name? ⟨String.ofList (slashed base ++ (stem.toList ++ ['.']))⟩).isSome := by
  have hname : IsName (stem.toList ++ ['.']) := by
    refine ⟨by simpa using hslash, by simp, fun h => ?_, fun h => ?_⟩
    · exact hempty (by simpa using h)
    · exact hdot (String.toList_injective ((List.append_left_inj ['.']).1 h))
  rw [name?, split_concat hname (slashed_ends base), if_neg (by simpa using hname.2)]
  rfl

theorem kept_name?_dots (base : List Char) :
    name? ⟨String.ofList (slashed base ++ ['.', '.'])⟩ = none := by
  have htrim : trimEnd ('.' :: '.' :: (slashed base).reverse)
      = '.' :: '.' :: (slashed base).reverse := by
    rw [trimEnd] <;> simp
  have hsplit : (split ⟨String.ofList (slashed base ++ ['.', '.'])⟩).1 = ['.', '.'] := by
    rw [split, String.toList_ofList, List.reverse_append]
    rcases slashed_ends base with h | ⟨front, h⟩ <;> simp [h] at htrim ⊢ <;> simp [htrim]
  rw [name?, hsplit]
  rfl

section Stems

variable (h : IsMessage extension (stem ++ "." ++ extension))

include h

theorem splitName_extended :
    splitName (stem ++ "." ++ extension).toList = (stem.toList, some extension.toList) := by
  have hname := (splitName_of_hasExtension h.extended).2
  rw [toList_extended] at hname ⊢
  exact Prod.ext (List.append_cancel_right hname).symm
    (by simpa only [hasExtension, toList_extended, beq_iff_eq] using h.extended)

theorem stem_ne_empty : stem ≠ "" := by
  have hstem := h.stem_ne_nil
  rw [splitName_extended h] at hstem
  simpa using hstem

theorem slash_notMem_stem : '/' ∉ stem.toList := by
  have hstem := h.slash_notMem_stem
  rwa [splitName_extended h] at hstem

/-- Another extension keeps the directory and the stem; a dot for a stem is lost with its
extension, and the path of the directory above is left. -/
theorem withExtension_child (directory : Path) (extension' : String) :
    (directory.child (stem ++ "." ++ extension)).withExtension extension'
      = if stem = "." then ⟨String.ofList (slashed directory.text.toList ++ ['.', '.'])⟩
        else directory.child (stem ++ "." ++ extension') := by
  have hnotAbsolute : ∀ e : String, isAbsolute (stem ++ "." ++ e).toList = false := fun e => by
    rw [toList_extended]
    exact not_absolute_append (slash_notMem_stem h) (by simpa using stem_ne_empty h) _
  have htext : (directory.child (stem ++ "." ++ extension)).text.toList
      = (slashed directory.text.toList ++ (stem.toList ++ ['.'])) ++ extension.toList := by
    rw [toList_child (hnotAbsolute extension), toList_extended]
    simp
  have hextension : (directory.child (stem ++ "." ++ extension)).extension?
      = some extension.toList := by
    rw [extension?, name?_child h.isName, Option.bind_some, splitName_extended h]
  have hkept : (directory.child (stem ++ "." ++ extension)).text.toList.take
      ((directory.child (stem ++ "." ++ extension)).text.length - extension.toList.length)
        = slashed directory.text.toList ++ (stem.toList ++ ['.']) := by
    rw [← String.length_toList, htext, List.length_append, Nat.add_sub_cancel, List.take_left]
  rw [withExtension, hextension]
  simp only [hkept]
  by_cases hdot : stem = "."
  · have hnone : (name? ⟨String.ofList (slashed directory.text.toList ++ (".".toList ++ ['.']))⟩)
        = none := kept_name?_dots _
    rw [if_pos hdot, hdot, hnone]
    rfl
  · rw [if_neg hdot, if_pos (kept_name?_isSome _ (slash_notMem_stem h) (stem_ne_empty h) hdot),
      child, below_eq (hnotAbsolute extension'), toList_extended]
    refine congrArg Path.mk (String.toList_injective ?_)
    simp

end Stems

end Extensions

end Path

namespace TestVector

open FileTree

def vectorName (stem : String) : String := stem ++ "." ++ "txt"

def mailName (stem : String) : String := stem ++ "." ++ "eml"

def vectorPath (directory : Path) (stem : String) : Path := directory.child (vectorName stem)

def mailPath (directory : Path) (stem : String) : Path := directory.child (mailName stem)

/-- The place of the mail of a test vector, in the directory of the vector. -/
def mailPlace (home : Place) (stem : String) : Place := home ++ [mailName stem]

/-- The mail of a test vector cannot be written: a directory has its name, or it has none. -/
def Blocked (t : FileTree) (home : Place) (stem : String) : Prop :=
  stem = "." ∨ t.get? (mailPlace home stem) = some .directory

variable {t u after : FileTree} {directory : Path} {home place : Place} {stem : String}
  {content : Bytes}

/-- A test vector is a file of a directory. -/
abbrev VectorLies (t : FileTree) (directory : Path) (home : Place) (stem : String)
    (content : Bytes) : Prop :=
  Lies t directory "txt" home (vectorName stem) content

theorem VectorLies.read (h : VectorLies t directory home stem content) :
    t.read (vectorPath directory stem) = .ok content := Lies.read h

section Steps

section Writes

variable {vector : Path} {e : IoFault}

theorem extract_written (hread : t.read vector = .ok content)
    (hwrite : t.write (vector.withExtension "eml") (mail content) = .ok u) :
    extract t vector = .ok (vector.withExtension "eml", u) := by
  simp only [extract, hread, Except.mapError, bind, Except.bind, hwrite]
  rfl

theorem extract_unwritten (hread : t.read vector = .ok content)
    (hwrite : t.write (vector.withExtension "eml") (mail content) = .error e) :
    extract t vector = .error (.unwritable e) := by
  simp only [extract, hread, Except.mapError, bind, Except.bind, hwrite]

end Writes

variable (h : VectorLies t directory home stem content)

include h

theorem isName_mailName : Path.IsName (mailName stem).toList := by
  have hlast : (mailName stem).toList.getLast? = some 'l' := by
    simp [mailName]
  refine ⟨?_, ?_, ?_, ?_⟩
  · rw [mailName, toList_extended]
    simpa using Path.slash_notMem_stem h.message
  all_goals
    intro heq
    simp [heq] at hlast

/-- What stands before the name of a vector leads to its directory; its path is walked. -/
theorem exists_front : ∃ front, Path.slashed directory.text.toList = front ++ ['/']
    ∧ t.Leads front home
    ∧ Walkable ((front ++ '/' :: stem.toList) ++ '.' :: "txt".toList) := by
  obtain ⟨front, hfront, hleads⟩ := leads_directory h.leads
  refine ⟨front, hfront, hleads, ?_⟩
  have hstops := h.stops
  rw [Path.child_text h.message.isName hfront] at hstops
  simpa [vectorName, String.toList_append] using walkable_of_stopAt hstops

/-- The name of a vector is not too long to be walked, so that of its mail is not. -/
theorem length_mailName : ¬greatestName < (utf8 (mailName stem)).length := by
  obtain ⟨front, hfront, hleads, hwalk⟩ := exists_front h
  intro hlong
  have hstops := h.stops
  rw [Path.child_text h.message.isName hfront] at hstops
  obtain ⟨links, hstop⟩ := hleads.stopAt_name h.message.isName (walkable_of_stopAt hstops)
  rw [hstop, String.ofList_toList, stop_of_long] at hstops
  · cases hstops
  · exact isStep_of_isName h.message.isName
  · have hlength : (utf8 "txt").length = (utf8 "eml").length := by decide
    rw [mailName, utf8_append, List.length_append, ← hlength] at hlong
    rwa [vectorName, utf8_append, List.length_append]

theorem stopAt_mail :
    ∃ links, t.stopAt .write (mailPath directory stem).text
      = t.stop .write links home [mailName stem] := by
  obtain ⟨front, hfront, hleads, hwalk⟩ := exists_front h
  have hwalk' : Walkable ((front ++ '/' :: stem.toList) ++ '.' :: "eml".toList) :=
    hwalk.renamed (by simp) (by decide) (by decide)
  rw [List.append_assoc, List.cons_append, ← toList_extended] at hwalk'
  rw [mailPath, Path.child_text (isName_mailName h) hfront]
  obtain ⟨links, hstop⟩ := hleads.stopAt_name (isName_mailName h) hwalk'
  exact ⟨links, by rw [hstop, String.ofList_toList]⟩

/-- A mail is written where there is nothing, or over a file. -/
theorem stopAt_mail_free (hfree : t.IsFree (mailPlace home stem)) :
    t.stopAt .write (mailPath directory stem).text
      = .ok (mailPlace home stem, some []) := by
  obtain ⟨links, hstop⟩ := stopAt_mail h
  have hname := isStep_of_isName (isName_mailName h)
  rw [hstop, stop_eq_of_free hname.1 hname.2 (by simp) (length_mailName h) hfree]
  rfl

theorem stopAt_mail_directory (hdirectory : t.get? (mailPlace home stem) = some .directory) :
    t.stopAt .write (mailPath directory stem).text = .ok (mailPlace home stem, none) := by
  obtain ⟨links, hstop⟩ := stopAt_mail h
  have hname := isStep_of_isName (isName_mailName h)
  rw [hstop, stop_eq_of_directory hname.1 hname.2 (by simp) (length_mailName h) hdirectory, stop]
  rfl

/-- Two dots lead above the directory. -/
theorem stopAt_dots (hdot : stem = ".") :
    t.stopAt .write (String.ofList (Path.slashed directory.text.toList ++ ['.', '.']))
      = .ok (up home, none) := by
  subst hdot
  obtain ⟨front, hfront, hleads, hwalk⟩ := exists_front h
  have hwalk' : Walkable ((front ++ '/' :: ['.', '.']) ++ "txt".toList) := by simpa using hwalk
  obtain ⟨links, hstop⟩ :=
    hleads.stopAt_part (by decide) (by decide) (hwalk'.of_append (by simp))
  rw [hfront, List.append_assoc, List.singleton_append, hstop,
    show String.ofList ['.', '.'] = ".." from rfl, stop, if_neg (by decide), if_pos rfl, stop]

theorem withExtension_vectorPath : (vectorPath directory stem).withExtension "eml"
    = if stem = "." then ⟨String.ofList (Path.slashed directory.text.toList ++ ['.', '.'])⟩
      else mailPath directory stem :=
  Path.withExtension_child h.message directory "eml"

theorem extract_blocked (hblocked : Blocked t home stem) :
    extract t (vectorPath directory stem) = .error (.unwritable .isDirectory) := by
  refine extract_unwritten h.read ?_
  rw [withExtension_vectorPath h]
  split <;> rename_i hdot
  · exact write_of_directory (stopAt_dots h hdot)
  · exact write_of_directory (stopAt_mail_directory h (hblocked.resolve_left hdot))

theorem extract_free (hblocked : ¬Blocked t home stem)
    (hlink : ∀ target, t.get? (mailPlace home stem) ≠ some (.link target)) :
    t.IsFree (mailPlace home stem)
      ∧ extract t (vectorPath directory stem)
        = .ok (mailPath directory stem,
          t.set (mailPlace home stem) (.file (mail content))) := by
  obtain ⟨hdot, hdirectory⟩ := not_or.1 hblocked
  have hfree : t.IsFree (mailPlace home stem) := by
    rcases hget : t.get? (mailPlace home stem) with _ | old | _ | target
    · exact .inl hget
    · exact .inr ⟨old, hget⟩
    · exact absurd hget hdirectory
    · exact absurd hget (hlink target)
  have htarget : (vectorPath directory stem).withExtension "eml"
      = mailPath directory stem := by
    rw [withExtension_vectorPath h, if_neg hdot]
  refine ⟨hfree, ?_⟩
  rw [extract_written h.read (htarget ▸ write_of_stops (stopAt_mail_free h hfree)), htarget]

end Steps

section Runs

theorem mailName_injective : Function.Injective mailName := extended_injective "eml"

theorem vectorName_injective : Function.Injective vectorName := extended_injective "txt"

/-- No vector lies where a mail is written. -/
theorem vectorPlace_ne (home : Place) (stem stem' : String) :
    home ++ [vectorName stem] ≠ mailPlace home stem' := fun h => by
  have hname := List.append_cancel_left h
  have hlast := congrArg (fun name => name.toList.getLast?) (List.cons.inj hname).1
  simp [vectorName, mailName] at hlast

theorem mailPlace_injective (home : Place) : Function.Injective (mailPlace home) :=
  fun _ _ h => mailName_injective (List.cons.inj (List.append_cancel_left h)).1

theorem Blocked.congr (hways : t.SameWays u) : Blocked u home stem ↔ Blocked t home stem :=
  or_congr_right ⟨fun h => hways.symm.get? h (by simp), fun h => hways.get? h (by simp)⟩

/-- The mails of these vectors were written, each beside its vector, and nothing else. -/
structure Extracted (t : FileTree) (directory : Path) (home : Place) (done : List String)
    (after : FileTree) : Prop where
  strewn : t.Strewn (fun place => ∃ stem ∈ done, place = mailPlace home stem) after
  written : ∀ stem ∈ done, ∃ content, t.read (vectorPath directory stem) = .ok content
    ∧ after.get? (mailPlace home stem) = some (.file (mail content))
    ∧ after.read (mailPath directory stem) = .ok (mail content)

/-- A vector is none of the mails, and lies where it lay. -/
theorem VectorLies.strewn {done : List String} (h : VectorLies t directory home stem content)
    (hstrewn : t.Strewn (fun place => ∃ stem ∈ done, place = mailPlace home stem) u) :
    VectorLies u directory home stem content where
  message := h.message
  leads := find_directory_iff.2
    ((stopAt_congr hstrewn.sameWays).trans (find_directory_iff.1 h.leads))
  stops := (stopAt_congr hstrewn.sameWays).trans h.stops
  holds := (hstrewn.get? fun ⟨_, _, hplace⟩ => vectorPlace_ne _ _ _ hplace).trans h.holds

theorem strewn_mail (hfree : t.IsFree (mailPlace home stem)) (content : Bytes) :
    t.Strewn (fun place => ∃ s ∈ [stem], place = mailPlace home s)
      (t.set (mailPlace home stem) (.file content)) :=
  strewn_set hfree ⟨stem, List.mem_singleton.2 rfl, rfl⟩

theorem Extracted.nil (t : FileTree) (directory : Path) (home : Place) :
    Extracted t directory home [] t := ⟨.refl _ t, by simp⟩

/-- One mail more, in front. -/
theorem Extracted.cons {done : List String} (h : VectorLies t directory home stem content)
    (hfree : t.IsFree (mailPlace home stem)) (hfresh : stem ∉ done)
    (hlies : ∀ stem ∈ done, ∃ content, VectorLies t directory home stem content)
    (hrest : Extracted (t.set (mailPlace home stem) (.file (mail content))) directory home done
      after) : Extracted t directory home (stem :: done) after := by
  have hset := strewn_mail hfree (mail content)
  have hstrewn : t.Strewn (fun place => ∃ s ∈ stem :: done, place = mailPlace home s) after :=
    (hset.mono fun _ ⟨s, hs, hplace⟩ => ⟨s, by simp_all, hplace⟩).trans
      (hrest.strewn.mono fun _ ⟨s, hs, hplace⟩ => ⟨s, List.mem_cons_of_mem _ hs, hplace⟩)
  refine ⟨hstrewn, fun s hs => ?_⟩
  rcases List.mem_cons.1 hs with rfl | hs
  · have hget : after.get? (mailPlace home s) = some (.file (mail content)) := by
      rw [hrest.strewn.get?, get?_set hfree.not_given, if_pos rfl]
      rintro ⟨s', hs', hplace⟩
      exact hfresh (mailPlace_injective home hplace ▸ hs')
    refine ⟨content, h.read, hget, read_of_stops ?_ hget⟩
    rw [stopAt_congr hstrewn.sameWays]
    exact stopAt_look (stopAt_mail_free h hfree)
  · obtain ⟨content', hread, hwritten⟩ := hrest.written s hs
    obtain ⟨old, hold⟩ := hlies s hs
    refine ⟨content', ?_, hwritten⟩
    rw [hold.read, ← hread, (hold.strewn hset).read]

/-- How the vectors were gone through: with all their mails, or up to one whose mail cannot be
written. -/
def Ends (t : FileTree) (directory : Path) (home : Place) (stems rest : List String)
    (r : Except PreparationFault (List Path)) : Prop :=
  rest = [] ∧ r = .ok (stems.map (mailPath directory))
    ∨ ∃ stem behind, rest = stem :: behind ∧ Blocked t home stem
      ∧ r = .error (.unwritable .isDirectory)

/-- Vectors without links beside them are extracted up to the first that is blocked. -/
theorem extractEach_extracted : ∀ {stems : List String} {t : FileTree}, stems.Nodup →
    (∀ stem ∈ stems, ∃ content, VectorLies t directory home stem content) →
    (∀ name target, t.get? (home ++ [name]) ≠ some (.link target)) →
    ∃ done rest r after, stems = done ++ rest ∧ (∀ stem ∈ done, ¬Blocked t home stem)
      ∧ extractEach t (stems.map (vectorPath directory)) = (r, after)
      ∧ Ends t directory home stems rest r ∧ Extracted t directory home done after
  | [], t, _, _, _ => ⟨[], [], _, t, rfl, by simp, rfl, .inl ⟨rfl, rfl⟩, .nil t directory home⟩
  | stem :: stems, t, hnodup, hlies, hlink => by
    obtain ⟨hfresh, hnodup⟩ := List.nodup_cons.1 hnodup
    obtain ⟨⟨content, hstem⟩, hlies⟩ := List.forall_mem_cons.1 hlies
    by_cases hblocked : Blocked t home stem
    · refine ⟨[], stem :: stems, _, t, rfl, by simp, ?_, .inr ⟨_, _, rfl, hblocked, rfl⟩,
        .nil t directory home⟩
      rw [List.map_cons, extractEach, extract_blocked hstem hblocked]
    · obtain ⟨hfree, hextract⟩ := extract_free hstem hblocked (hlink _)
      have hset := strewn_mail hfree (mail content)
      have hways := hset.sameWays
      obtain ⟨done, rest, r, after, rfl, hdone, hrun, hends, hextracted⟩ :=
        extractEach_extracted hnodup
          (fun s hs => (hlies s hs).imp fun _ h => h.strewn hset)
          (fun name target h => hlink name target (hways.symm.get? h (by simp)))
      simp only [Blocked.congr hways] at hdone
      refine ⟨stem :: done, rest, r.map (mailPath directory stem :: ·), after, rfl,
        List.forall_mem_cons.2 ⟨hblocked, hdone⟩, ?_, ?_, ?_⟩
      · rw [List.map_cons, extractEach, hextract]
        simp only [hrun]
      · rcases hends with ⟨hrest, rfl⟩ | ⟨s, behind, hrest, hs, rfl⟩
        · exact .inl ⟨hrest, rfl⟩
        · exact .inr ⟨s, behind, hrest, (Blocked.congr hways).1 hs, rfl⟩
      · exact hextracted.cons hstem hfree (fun hmem => hfresh (List.mem_append_left _ hmem))
          fun s hs => hlies s (List.mem_append_left _ hs)

theorem exists_stems {names : List String} (h : ∀ name ∈ names, Extended "txt" name) :
    ∃ stems : List String, names = stems.map vectorName := by
  have hrange : names ∈ Set.range (List.map vectorName) := by
    rw [Set.range_list_map]
    intro name hname
    obtain ⟨stem, -, rfl, -⟩ := h name hname
    exact ⟨stem, rfl⟩
  obtain ⟨stems, hstems⟩ := hrange
  exact ⟨stems, hstems.symm⟩

theorem extended_vectorName : Extended "txt" (vectorName stem) ↔ stem ≠ "" := by
  constructor
  · rintro ⟨stem', hstem', heq, -⟩
    obtain rfl : stem = stem' := vectorName_injective heq
    exact hstem'
  · exact fun hstem => ⟨stem, hstem, rfl, by decide⟩

/-- No two vectors have one path for their mails. -/
theorem withExtension_inj {stem' : String} {content' : Bytes}
    (h : VectorLies t directory home stem content)
    (h' : VectorLies t directory home stem' content')
    (heq : (vectorPath directory stem).withExtension "eml"
      = (vectorPath directory stem').withExtension "eml") : stem = stem' := by
  have hdots : ∀ {stem content}, VectorLies t directory home stem content →
      (⟨String.ofList (Path.slashed directory.text.toList ++ ['.', '.'])⟩ : Path)
        ≠ mailPath directory stem := fun hlies heq => by
    have htext := congrArg (fun p : Path => p.text.toList) heq
    rw [mailPath, Path.toList_child (isName_mailName hlies).not_absolute,
      String.toList_ofList] at htext
    exact (isName_mailName hlies).2.2.2 (List.append_cancel_left htext).symm
  rw [withExtension_vectorPath h, withExtension_vectorPath h'] at heq
  split at heq <;> rename_i hdot <;> split at heq <;> rename_i hdot'
  · exact hdot.trans hdot'.symm
  · exact absurd heq (hdots h')
  · exact absurd heq.symm (hdots h)
  · exact mailName_injective ((child_inj (isName_mailName h) (isName_mailName h')).1 heq)

end Runs

/-- A directory without links that cannot be read is left as it is. Of one that can, the vectors are
gone through in order, and no two of them have one path for their mails. The mails are written up to
the first vector that is blocked, if there is one, each beside its vector; then the whole fails, and
otherwise it gives the paths of the mails. Every other file is left as it was, all vectors
included. -/
theorem extractAll_extracted (t : Disk) {directory : Path} (hlinks : t.Unlinked directory) :
    (∃ e, t.list directory = .error e
        ∧ extractAll t directory = (.error (.directory directory e), t.toFileTree))
      ∨ ∃ home, ∃ stems done rest : List String, ∃ r after,
        t.find .look directory.text = .ok (home, some .directory)
        ∧ corpus t directory "txt" = .ok (stems.map (vectorPath directory))
        ∧ (∀ stem, stem ∈ stems ↔ stem ≠ ""
          ∧ (∃ entry, (home ++ [vectorName stem], entry) ∈ t.entries)
          ∧ t.isFile (vectorPath directory stem))
        ∧ (stems.map fun stem => (vectorPath directory stem).withExtension "eml").Nodup
        ∧ extractAll t directory = (r, after) ∧ stems = done ++ rest
        ∧ (∀ stem ∈ done, ¬Blocked t home stem) ∧ Ends t directory home stems rest r
        ∧ (∀ stem ∈ done, ∃ content, t.read (vectorPath directory stem) = .ok content
          ∧ after.get? (mailPlace home stem) = some (.file (mail content))
          ∧ after.read (mailPath directory stem) = .ok (mail content))
        ∧ (∀ place, (∀ stem ∈ done, place ≠ mailPlace home stem) → after.get? place = t.get? place)
        ∧ ∀ stem ∈ stems, after.read (vectorPath directory stem)
          = t.read (vectorPath directory stem) := by
  rcases hlist : t.list directory with e | names
  · refine .inl ⟨e, rfl, ?_⟩
    rw [extractAll, openCorpus, corpus, hlist]
    rfl
  · obtain ⟨home, hhome, rfl⟩ := list_eq_ok hlist
    have hcorpus : corpus t directory "txt" = _ := corpus_of_list hlist
    have hnodup : (listed t directory "txt" (t.namesIn home)).Nodup :=
      nodup_listed (t.nodup_namesIn home)
    have hmem : ∀ name, name ∈ listed t directory "txt" (t.namesIn home) ↔ _ :=
      fun name => mem_listed
    obtain ⟨stems, hstems⟩ := exists_stems fun name hname => ((hmem name).1 hname).2.1
    rw [hstems] at hcorpus hnodup hmem
    rw [List.map_map] at hcorpus
    have hmem' : ∀ stem, stem ∈ stems ↔ vectorName stem ∈ t.namesIn home
        ∧ stem ≠ "" ∧ t.isFile (vectorPath directory stem) := fun stem => by
      rw [← List.mem_map_of_injective vectorName_injective, hmem, extended_vectorName, vectorPath]
    have hlies : ∀ stem ∈ stems, ∃ content, VectorLies t directory home stem content := by
      intro stem hstem
      obtain ⟨hname, hne, hfile⟩ := (hmem' stem).1 hstem
      have hmessage := t.isMessage hname (hasExtension_iff.2 (extended_vectorName.2 hne))
      exact lies_of_isFile hmessage hhome (hlinks home hhome _) hfile
    obtain ⟨done, rest, r, after, hparted, hdone, hrun, hends, hextracted⟩ :=
      extractEach_extracted (hnodup.of_map _) hlies (hlinks home hhome)
    refine .inr ⟨home, stems, done, rest, r, after, hhome, hcorpus, fun stem => ?_, ?_, ?_, hparted,
      hdone, hends, hextracted.written, fun place hplace => ?_, fun stem hstem => ?_⟩
    · rw [hmem', mem_namesIn]
      exact and_left_comm
    · refine (hnodup.of_map _).map_on fun stem hstem stem' hstem' heq => ?_
      obtain ⟨_, h⟩ := hlies stem hstem
      obtain ⟨_, h'⟩ := hlies stem' hstem'
      exact withExtension_inj h h' heq
    · rw [extractAll, openCorpus, hcorpus]
      exact hrun
    · refine hextracted.strewn.get? ?_
      rintro ⟨stem, hstem, heq⟩
      exact hplace stem hstem heq
    · obtain ⟨content, h⟩ := hlies stem hstem
      rw [h.read, (h.strewn hextracted.strewn).read]

section Vectors

/-- Two vectors, a directory that has the name of the one's mail, and a mail without a vector. -/
def vectors : Disk :=
  .build ["b.eml"]
    [("a.txt", utf8 "mail\nEXPECTED STRUCTURE\n"), ("b.txt", [98]), ("c.eml", [99])] [] (by decide)

theorem vectors_entries :
    vectors.entries = [(["b.eml"], .directory),
      (["a.txt"], .file (utf8 "mail\nEXPECTED STRUCTURE\n")), (["b.txt"], .file [98]),
      (["c.eml"], .file [99])] := by
  rfl

theorem vectors_unlinked : vectors.Unlinked ⟨"."⟩ := fun _ _ _ target =>
  get?_ne_link (by simp [vectors_entries]) _ target

/-- The extraction fails at the second vector, and the mail without a vector is left. -/
theorem extractAll_extracted_vectors :
    vectors.Unlinked ⟨"."⟩
      ∧ ∃ after, extractAll vectors ⟨"."⟩ = (.error (.unwritable .isDirectory), after)
        ∧ after.get? ["b.eml"] = some .directory ∧ after.get? ["c.eml"] = some (.file [99])
        ∧ after.read ⟨"./b.txt"⟩ = vectors.read ⟨"./b.txt"⟩ := by
  refine ⟨vectors_unlinked, ?_⟩
  obtain ⟨e, hlist, -⟩ | ⟨home, stems, done, rest, r, after, hhome, -, hmem, -, hrun, rfl, hdone,
    hends, -, hkept, hread⟩ := extractAll_extracted vectors vectors_unlinked
  · rw [list_of_find (find_here vectors)] at hlist
    cases hlist
  obtain rfl : [] = home := by
    rw [find_here] at hhome
    exact (Prod.mk.inj (Except.ok.inj hhome)).1
  have hb : "b" ∈ done ++ rest :=
    (hmem _).2 ⟨by decide, ⟨.file [98], by simp [vectors_entries, vectorName]⟩,
      isFile_here rfl (by rfl) (by decide)⟩
  have hbehind : "b" ∉ done := fun hmem => hdone _ hmem (.inr rfl)
  have hc : "c" ∉ done := fun hdone => by
    obtain ⟨-, ⟨entry, hentry⟩, -⟩ := (hmem _).1 (List.mem_append_left _ hdone)
    simp [vectors_entries, vectorName] at hentry
  obtain ⟨rfl, -⟩ | ⟨stem, behind, rfl, -, rfl⟩ := hends
  · exact absurd (by simpa using hb) hbehind
  have hbkept := hkept (mailPlace [] "b") fun stem hstem heq =>
    hbehind (mailPlace_injective [] heq ▸ hstem)
  have hckept := hkept (mailPlace [] "c") fun stem hstem heq =>
    hc (mailPlace_injective [] heq ▸ hstem)
  have hpath : vectorPath ⟨"."⟩ "b" = ⟨"./b.txt"⟩ := by decide
  rw [show mailPlace [] "b" = ["b.eml"] by decide] at hbkept
  rw [show mailPlace [] "c" = ["c.eml"] by decide] at hckept
  exact ⟨after, hrun, hbkept, hckept, hpath ▸ hread _ hb⟩

end Vectors

end TestVector

end ImapProbe
