import ImapProbe.Proofs.Session.Independence
import ImapProbe.Proofs.Storage.Directory
import ImapProbe.Proofs.Storage.Entries
import ImapProbe.Proofs.Survey

/-!
# Artifacts of several servers

A roster says nothing of suffixes, so two profiles can share artifacts: just where a stem and the
one suffix come to the same as a stem and the other. Where they do not, a survey of all servers
leaves every artifact as the visit to its own server left it (`survey_keeps`).
-/

namespace ImapProbe

namespace FileTree

theorem list_eq_ok {t : FileTree} {directory : Path} {names : List String}
    (h : t.list directory = .ok names) :
    ∃ home, t.find .look directory.text = .ok (home, some .directory) ∧ names = t.namesIn home := by
  unfold list at h
  split at h <;> rename_i hf <;> simp only [reduceCtorEq, Except.ok.injEq] at h
  exact ⟨_, hf, h.symm⟩

end FileTree

theorem NamedTree.isMessage (t : NamedTree) {place : Place} {extension name : String}
    (hname : name ∈ t.namesIn place) (hext : hasExtension extension name) :
    IsMessage extension name := by
  obtain ⟨entry, hentry⟩ := FileTree.mem_namesIn.1 hname
  obtain ⟨hslash, hdots⟩ := t.named _ hentry name (by simp)
  have hinj : ∀ text : List Char, name.toList = text → name = String.ofList text := by
    rintro _ rfl
    simp
  refine ⟨⟨hslash, fun hnil => ?_, fun hdot => ?_, fun htwo => hdots (hinj _ htwo)⟩, hext⟩
  · simp [hasExtension, hnil, Path.splitName] at hext
  · simp [hasExtension, hdot, Path.splitName] at hext

/-- The messages of a corpus are files of its directory. -/
theorem corpus_files {t : NamedTree} {directory : Path} {extension : String}
    {messages : List Path} (h : corpus t directory extension = .ok messages) :
    ∃ home, t.find .look directory.text = .ok (home, some .directory)
      ∧ ∀ m ∈ messages, ∃ name, IsMessage extension name ∧ m = directory.child name
        ∧ t.isFile m := by
  unfold corpus at h
  split at h <;> rename_i hlist <;> simp only [reduceCtorEq, Except.ok.injEq] at h
  obtain ⟨home, hhome, rfl⟩ := FileTree.list_eq_ok hlist
  refine ⟨home, hhome, fun m hm => ?_⟩
  subst h
  obtain ⟨name, hname, rfl⟩ := List.mem_map.1 hm
  rw [List.mem_mergeSort, List.mem_filter, Bool.and_eq_true] at hname
  exact ⟨name, t.isMessage hname.1 hname.2.1, rfl, hname.2.2⟩

theorem corpus_messages {t : NamedTree} {directory : Path} {extension : String}
    {messages : List Path} (h : corpus t directory extension = .ok messages) :
    directory.text ≠ "" ∧ ∀ m ∈ messages, ∃ name, IsMessage extension name
      ∧ m = directory.child name := by
  obtain ⟨home, hhome, hmessages⟩ := corpus_files h
  refine ⟨fun hempty => ?_, fun m hm => ?_⟩
  · rw [hempty] at hhome
    simp [FileTree.find] at hhome
  · obtain ⟨name, hname, hm, -⟩ := hmessages m hm
    exact ⟨name, hname, hm⟩

/-- Two profiles share an artifact: with some messages, stem and suffix come to the same. -/
def Sharing (messages : List Path) (p q : Profile) : Prop :=
  ∃ m ∈ messages, ∃ m' ∈ messages, glued m p.suffix = glued m' q.suffix

section Places

variable {t : FileTree} {directory : Path} {extension name name' : String} {p q : Profile}
  {d d' : Description} {place : Place}

/-- Two artifacts that go to one place, and are no links, have one name. -/
theorem glued_of_target? (h : IsMessage extension name) (h' : IsMessage extension name')
    (hdirectory : directory.text ≠ "") (hp : '/' ∉ p.suffix.toList) (hq : '/' ∉ q.suffix.toList)
    (hown : ∀ target, t.own? (artifactFile (directory.child name) p.suffix d)
      ≠ some (.link target))
    (hown' : ∀ target, t.own? (artifactFile (directory.child name') q.suffix d')
      ≠ some (.link target))
    (hplace : t.target? (artifactFile (directory.child name) p.suffix d) = some place)
    (hplace' : t.target? (artifactFile (directory.child name') q.suffix d') = some place) :
    glued (directory.child name) p.suffix = glued (directory.child name') q.suffix := by
  obtain ⟨home, hhome, rfl⟩ := target?_child h hp hdirectory hown hplace
  obtain ⟨home', hhome', hsame⟩ := target?_child h' hq hdirectory hown' hplace'
  obtain rfl : home = home' := by
    rw [hhome] at hhome'
    exact (Prod.mk.inj (Except.ok.inj hhome')).1
  have hname := List.append_cancel_left hsame
  rw [List.cons.injEq] at hname
  exact (artifactName_inj.1 (String.ofList_injective hname.1)).2

end Places

variable {ν σ : Type} (net : Network ν σ) {messages : List Path}

/-- What a visit left of an artifact stays, if no profile behind it shares the artifact. -/
theorem visitAll_keeps {directory : Path} {extension : String}
    (hdirectory : directory.text ≠ "")
    (hmessages : ∀ m ∈ messages, ∃ name, IsMessage extension name ∧ m = directory.child name)
    {ps : List Profile} (hslash : ∀ p ∈ ps, '/' ∉ p.suffix.toList) {site : Site ν}
    (hown : ∀ p ∈ ps, ∀ m ∈ messages, ∀ d target,
      site.files.own? (artifactFile m p.suffix d) ≠ some (.link target))
    {k : Nat} {p : Profile} (hp : ps[k]? = some p)
    (hapart : ∀ j q, ps[j]? = some q → k < j → ¬Sharing messages p q) {place : Place}
    (hplace : ArtifactAt site.files messages p place) :
    (visitAll net messages ps site).2.files.get? place
      = (visitAll net messages (ps.take (k + 1)) site).2.files.get? place := by
  have hall := visitAll_append net messages (ps.take (k + 1)) (ps.drop (k + 1)) site
  rw [List.take_append_drop] at hall
  rw [hall]
  refine (visitAll_strewn net messages _ _).get? ?_
  rintro ⟨q, hq, hplace'⟩
  rw [(visitAll_strewn net messages _ site).sameWays.artifactAt_iff] at hplace'
  obtain ⟨j, hj⟩ := List.mem_iff_getElem?.1 hq
  rw [List.getElem?_drop] at hj
  obtain ⟨m, hm, d, hat⟩ := hplace
  obtain ⟨m', hm', d', hat'⟩ := hplace'
  refine hapart _ q hj (by omega) ⟨m, hm, m', hm', ?_⟩
  have hpmem := List.mem_of_getElem? hp
  have hqmem := List.mem_of_getElem? hj
  have hlink := hown p hpmem m hm d
  have hlink' := hown q hqmem m' hm' d'
  obtain ⟨name, hname, rfl⟩ := hmessages m hm
  obtain ⟨name', hname', rfl⟩ := hmessages m' hm'
  exact glued_of_target? hname hname' hdirectory (hslash p hpmem) (hslash q hqmem) hlink hlink'
    hat hat'

/-- When artifacts of two profiles are one file, and what becomes of those that are not: a survey of
all servers leaves an artifact as the visit to its own server left it, if no profile behind it in
the table shares it, no suffix leads to another directory and no artifact is a link. -/
theorem survey_keeps {table : List Profile} {roster : Roster}
    (hroster : Roster.ofProfiles table = .ok roster) {r : RunRequest} {network : ν}
    {tree : NamedTree} (hcorpus : corpus tree r.corpus r.extension = .ok messages) :
    let site : Site ν := ⟨network, tree⟩
    (∀ p ∈ table, ∀ q ∈ table, ∀ m ∈ messages, ∀ m' ∈ messages, ∀ d d',
        artifactFile m p.suffix d = artifactFile m' q.suffix d'
          ↔ d = d' ∧ glued m p.suffix = glued m' q.suffix)
      ∧ (∀ p ∈ table, ∀ q ∈ table, Sharing messages p q →
        p.suffix.toList <:+ q.suffix.toList ∨ q.suffix.toList <:+ p.suffix.toList)
      ∧ (r.target = everyProfile → (∀ p ∈ table, '/' ∉ p.suffix.toList) →
        (∀ p ∈ table, ∀ m ∈ messages, ∀ d target,
          site.files.own? (artifactFile m p.suffix d) ≠ some (.link target)) →
        ∀ k p, table[k]? = some p → (∀ j q, table[j]? = some q → k < j → ¬Sharing messages p q) →
        ∀ m ∈ messages, ∀ d place, site.files.target? (artifactFile m p.suffix d) = some place →
          (survey net roster r site).2.files.get? place
            = (visitAll net messages ((table.map (·.adjust r.adjustment)).take (k + 1))
              site).2.files.get? place) := by
  intro site
  obtain ⟨hdirectory, hmessages⟩ := corpus_messages hcorpus
  refine ⟨fun p _ q _ m hm m' hm' d d' => ?_, fun p _ q _ => ?_, fun htarget hslash hown k p hp
    hapart m hm d place hplace => ?_⟩
  · obtain ⟨name, hname, rfl⟩ := hmessages m hm
    obtain ⟨name', hname', rfl⟩ := hmessages m' hm'
    exact artifactFile_eq_iff hname hname'
  · rintro ⟨m, -, m', -, h⟩
    exact suffix_of_glued h
  · obtain ⟨rfl, -, -, -⟩ := Roster.ofProfiles_eq_ok hroster
    have hchoose : roster.choose r.target = .ok roster.profiles := by
      rw [Roster.choose, if_pos htarget]
    have hopen : openCorpus site.files r.corpus r.extension = .ok messages := by
      rw [openCorpus, hcorpus]
      rfl
    obtain ⟨outcomes, -, -, hsurvey⟩ := survey_eq net hchoose hopen
    have hslash' : ∀ p ∈ roster.profiles.map (·.adjust r.adjustment), '/' ∉ p.suffix.toList :=
      List.forall_mem_map.2 hslash
    have hp' : (roster.profiles.map (·.adjust r.adjustment))[k]?
        = some (p.adjust r.adjustment) := by
      rw [List.getElem?_map, hp]
      rfl
    rw [hsurvey]
    refine visitAll_keeps net hdirectory hmessages hslash' (List.forall_mem_map.2 hown) hp'
      (fun j q hq hkj => ?_) ⟨m, hm, d, hplace⟩
    rw [List.getElem?_map] at hq
    obtain ⟨q', hq', rfl⟩ := Option.map_eq_some_iff.1 hq
    exact hapart j q' hq' hkj

section Letter

open FileTree

theorem oneLetter_unlinked (place : Place) (target : String) :
    oneLetter.files.get? place ≠ some (.link target) :=
  get?_ne_link (List.forall_mem_singleton.2 (by simp)) place target

/-- The disk with the letter on it. -/
def letterDisk : Disk where
  toFileTree := oneLetter.files
  named := by decide
  single := by decide

/-- In a survey of the test bed, what one server said of the letter is not written over. -/
theorem survey_keeps_testBed :
    let net := Network.ofResponder granting none
    let r : RunRequest := ⟨"all", ⟨"."⟩, "eml", {}, none, 30⟩
    ∃ roster, Roster.ofProfiles TestBed.profiles = .ok roster
      ∧ corpus letterDisk r.corpus r.extension = .ok [⟨"./a.eml"⟩]
      ∧ (survey net roster r oneLetter).2.files.get? ["a.dovecot.body"]
        = (visitAll net [⟨"./a.eml"⟩] (TestBed.profiles.take 1) oneLetter).2.files.get?
          ["a.dovecot.body"] := by
  intro net r
  have hroster : Roster.ofProfiles TestBed.profiles = .ok ⟨TestBed.profiles⟩ := by
    rw [Roster.ofProfiles, TestBed.fault?_profiles]
    rfl
  have hplace : oneLetter.files.target? (artifactFile ⟨"./a.eml"⟩ ".dovecot" .body)
      = some ["a.dovecot.body"] :=
    @target?_of_stopAt _ ⟨"./a.dovecot.body"⟩ (["a.dovecot.body"], some [])
      (stopAt_beside (by rfl) (by decide) (.inl rfl))
  have hapart : ∀ q ∈ TestBed.profiles.tail,
      ¬(".dovecot".toList <:+ q.suffix.toList ∨ q.suffix.toList <:+ ".dovecot".toList) := by
    decide
  obtain ⟨-, -, hkeeps⟩ := @survey_keeps _ _ net _ _ _ hroster r () letterDisk oneLetter_corpus
  refine ⟨_, hroster, oneLetter_corpus, ?_⟩
  refine hkeeps rfl (by decide) (fun _ _ _ _ _ => own?_ne_link oneLetter_unlinked _) 0 _ rfl
    (fun j q hq hj hshared => ?_) _ (List.mem_singleton.2 rfl) .body _ hplace
  obtain ⟨m, -, m', -, hglued⟩ := hshared
  refine hapart q ?_ (suffix_of_glued hglued)
  obtain ⟨i, rfl⟩ : ∃ i, j = i + 1 := ⟨j - 1, by omega⟩
  exact List.mem_of_getElem? hq

/-- A roster whose two servers label their artifacts alike. -/
theorem artifacts_shared :
    ∃ roster p q m,
      Roster.ofProfiles [twoLetters.profile, { twoLetters.profile with id := "other" }] = .ok roster
      ∧ p ∈ roster.profiles ∧ q ∈ roster.profiles ∧ p.id ≠ q.id
      ∧ corpus oneLetter.files ⟨"."⟩ "eml" = .ok [m]
      ∧ artifactFile m p.suffix .body = artifactFile m q.suffix .body :=
  ⟨⟨_⟩, twoLetters.profile, { twoLetters.profile with id := "other" }, _, rfl, by simp, by simp,
    by decide, oneLetter_corpus, rfl⟩

end Letter

end ImapProbe
