import ImapProbe.Proofs.Numbering
import ImapProbe.Proofs.Session.Outcome

/-!
# What a report counts

A message is kept when nothing that is done about it fails, so that all its artifacts are written,
and no other course keeps it (`Course.kept_iff`). A report counts the messages that were kept, and
has one failure for each of the others, in the order of the corpus (`visit_tallied`).
-/

namespace ImapProbe

theorem Path.below_append_dot {base front a b : List Char}
    (h : Path.below base (front ++ '.' :: a) = Path.below base (front ++ '.' :: b)) : a = b := by
  have habs : Path.isAbsolute (front ++ '.' :: a) = Path.isAbsolute (front ++ '.' :: b) := by
    cases front <;> rfl
  unfold Path.below at h
  rw [habs] at h
  split_ifs at h <;> simpa using String.ofList_injective (Path.mk.inj h)

/-- No two descriptions of a message share a file. -/
theorem artifactFile_injective (message : Path) (suffix : String) :
    Function.Injective (artifactFile message suffix) := by
  intro d d' h
  have hext : d.extension.toList = d'.extension.toList := by
    unfold artifactFile Path.withName at h
    split at h <;> exact Path.below_append_dot h
  revert hext
  cases d <;> cases d' <;> decide

theorem Description.request_injective (n : UInt32) : Function.Injective (request n) := by
  intro d d' h
  have hitems : d.items = d'.items := by simpa [request] using h
  revert hitems
  cases d <;> cases d' <;> decide

section Messages

variable {p : Profile} {message : Path} {n : UInt32} {t t' : FileTree} {acts : List Act}
  {d d' : Description}

/-- The answer to a description was granted, held data, and was written. -/
def Recorded (p : Profile) (message : Path) (n : UInt32) (acts : List Act) (d : Description) :
    Prop :=
  ∃ r, ⟨d.request n, .ok r⟩ ∈ exchanges acts ∧ r.isGranted ∧ 40 ∈ folded (r.parts "FETCH")
    ∧ (artifactFile message p.suffix d, artifact (r.parts "FETCH")) ∈ writings acts

/-- A message was read, accepted, and recorded under each description. -/
def Kept (p : Profile) (message : Path) (n : UInt32) (t : FileTree) (acts : List Act) : Prop :=
  (∃ content r, t.read message = .ok content
      ∧ ⟨.append p.mailbox content, .ok r⟩ ∈ exchanges acts ∧ r.isGranted)
    ∧ ∀ d : Description, Recorded p message n acts d

namespace Recorded

theorem cons (h : Recorded p message n acts d) (act : Act) :
    Recorded p message n (act :: acts) d := by
  obtain ⟨r, hx, hg, hp, hw⟩ := h
  refine ⟨r, ?_, hg, hp, ?_⟩ <;> cases act <;> simp [hx, hw]

theorem of_asked {x : Exchange} (hx : x.command ≠ d.request n)
    (h : Recorded p message n (.asked x :: acts) d) : Recorded p message n acts d := by
  obtain ⟨r, hm, hg, hp, hw⟩ := h
  rcases List.mem_cons.1 hm with rfl | hm
  · exact absurd rfl hx
  · exact ⟨r, hm, hg, hp, hw⟩

theorem of_wrote {path : Path} {content : Bytes} (hpath : path ≠ artifactFile message p.suffix d)
    (h : Recorded p message n (.wrote path content :: acts) d) : Recorded p message n acts d := by
  obtain ⟨r, hm, hg, hp, hw⟩ := h
  rcases List.mem_cons.1 hw with he | hw
  · exact absurd (Prod.mk.inj he).1.symm hpath
  · exact ⟨r, hm, hg, hp, hw⟩

theorem writings_ne_nil (h : Recorded p message n acts d) : writings acts ≠ [] := by
  obtain ⟨r, -, -, -, hw⟩ := h
  exact List.ne_nil_of_mem hw

end Recorded

/-- Descriptions that are asked for once each come to their end exactly when all are recorded, for
each of them has a request and a file of its own. -/
theorem Described.recorded_iff {ds : List Description} {r : Except ExaminationFault Unit}
    (h : Described p message n ds t acts r t') (hds : ds.Nodup) :
    r = .ok () ↔ ∀ d ∈ ds, Recorded p message n acts d := by
  induction h with
  | done => simp
  | fault | refused | noData | unwritten =>
    exact iff_of_false (by simp) fun hall => (hall _ List.mem_cons_self).writings_ne_nil rfl
  | @written d ds _ _ _ r _ _ hg hp _ _ ih =>
    obtain ⟨hd, hds⟩ := List.nodup_cons.1 hds
    rw [ih hds, List.forall_mem_cons]
    constructor
    · intro hall
      exact ⟨⟨r, List.mem_cons_self, hg, hp, List.mem_cons_self⟩,
        fun d' hd' => ((hall d' hd').cons _).cons _⟩
    · rintro ⟨-, hall⟩ d' hd'
      have hne : d ≠ d' := fun he => hd (he ▸ hd')
      have hrequest := (Description.request_injective n).ne hne
      have hfile := (artifactFile_injective message p.suffix).ne hne
      exact ((hall d' hd').of_asked hrequest).of_wrote hfile

/-- Nothing that was done about a message failed exactly when it is kept. -/
theorem Course.kept_iff {r : Except ExaminationFault Unit} (h : Course p message n t acts r t') :
    r = .ok () ↔ Kept p message n t acts := by
  cases h with
  | unread | fault | refused =>
    exact iff_of_false (by simp) fun hk => (hk.2 .body).writings_ne_nil rfl
  | @accepted _ content given _ _ hread hg hd =>
    have hall : ∀ d : Description, d ∈ Description.all := by
      intro d
      cases d <;> decide
    rw [hd.recorded_iff (by decide)]
    constructor
    · intro hrecorded
      exact ⟨⟨content, given, hread, List.mem_cons_self, hg⟩,
        fun d => (hrecorded d (hall d)).cons _⟩
    · rintro ⟨-, hrecorded⟩ d -
      exact (hrecorded d).of_asked (by simp [Description.request])

end Messages

/-- What has become of messages, the first of them at a place in the corpus: the failures are
those of the messages whose courses failed. -/
structure Tallied (p : Profile) (index : Nat) (corpus : List Path) (t : FileTree)
    (blocks : List (List Act)) (failures : List Failure) : Prop where
  length_eq : blocks.length = corpus.length
  increasing : (failures.map (·.index)).Pairwise (· < ·)
  places : ∀ f ∈ failures, ∃ i, f.index = index + i ∧ corpus[i]? = some f.message
  courses : ∀ (i : Nat) (message : Path), corpus[i]? = some message →
    ∃ acts n u r u', blocks[i]? = some acts
      ∧ FileTree.Written (writings (blocks.take i).flatten) t u
      ∧ Course p message n u acts r u'
      ∧ ((∀ f ∈ failures, f.index ≠ index + i) ↔ Kept p message n u acts)

section Corpora

variable {p : Profile} {message : Path} {rest corpus : List Path} {n : UInt32}
  {t u t' : FileTree} {acts : List Act} {blocks : List (List Act)} {failures : List Failure}
  {index : Nat}

theorem Tallied.cons (first : Option Failure) {r : Except ExaminationFault Unit}
    (hc : Course p message n t acts r u) (hr : first = none ↔ r = .ok ())
    (hf : ∀ f ∈ first, f.index = index ∧ f.message = message)
    (h : Tallied p (index + 1) rest u blocks failures) :
    Tallied p index (message :: rest) t (acts :: blocks) (first.toList ++ failures) := by
  have hlater : ∀ f ∈ failures, index < f.index := fun f hm => by
    obtain ⟨i, hi, -⟩ := h.places f hm
    omega
  refine ⟨by simp [h.length_eq], ?_, ?_, ?_⟩
  · rcases first with _ | f
    · exact h.increasing
    · obtain ⟨rfl, -⟩ := hf f rfl
      exact List.pairwise_cons.2 ⟨List.forall_mem_map.2 hlater, h.increasing⟩
  · intro f hm
    rcases List.mem_append.1 hm with hm | hm
    · obtain ⟨hi, hmessage⟩ := hf f (Option.mem_toList.1 hm)
      exact ⟨0, hi, congrArg some hmessage.symm⟩
    · obtain ⟨i, hi, hget⟩ := h.places f hm
      exact ⟨i + 1, by omega, hget⟩
  · rintro (_ | i) m hm
    · obtain rfl : message = m := by simpa using hm
      refine ⟨acts, n, t, r, u, rfl, rfl, hc, ?_⟩
      rw [← hc.kept_iff, ← hr]
      rcases first with _ | f
      · simpa using fun f hm => (hlater f hm).ne'
      · simpa using fun hne => absurd (hf f rfl).1 hne
    · obtain ⟨acts', n', v, r', v', hb, hw, hc', hiff⟩ := h.courses i m hm
      refine ⟨acts', n', v, r', v', hb, ?_, hc', ?_⟩
      · rw [List.take_succ_cons, List.flatten_cons, writings_append]
        exact hc.written_chain.append hw
      · rw [← hiff, List.forall_mem_append, show index + 1 + i = index + (i + 1) by omega]
        refine and_iff_right fun f hm => ?_
        have := (hf f (Option.mem_toList.1 hm)).1
        omega

theorem Reviewed.tallied {described described' : Nat} {losses losses' : Losses}
    {r : Except Fault (Nat × Losses)} (h : Reviewed p index described losses corpus t blocks r t')
    (hr : r = .ok (described', losses')) :
    ∃ failures, losses'.failures = losses.failures ++ failures
      ∧ described' + failures.length = described + corpus.length
      ∧ Tallied p index corpus t blocks failures := by
  induction h with
  | done =>
    obtain ⟨rfl, rfl⟩ := Prod.mk.inj (Except.ok.inj hr)
    exact ⟨[], by simp, rfl, rfl, .nil, by simp, by simp⟩
  | cut => simp at hr
  | @lost index _ losses message _ _ _ _ _ step problem _ _ hc _ ih =>
    obtain ⟨failures, hl, hn, ht⟩ := ih hr
    refine ⟨_, ?_, ?_, ht.cons (some ⟨message, index, step, problem.text step⟩) hc (by simp)
      (by simp)⟩
    · rw [hl, Losses.add, List.append_assoc]
      rfl
    · simp only [Option.toList_some, List.singleton_append, List.length_cons]
      omega
  | described hc _ ih =>
    obtain ⟨failures, hl, hn, ht⟩ := ih hr
    exact ⟨failures, hl, by rw [hn, List.length_cons]; omega,
      ht.cons none hc (by simp) (by simp)⟩

end Corpora

section Visits

variable {ν σ : Type} {net : Network ν σ} {p : Profile} {corpus : List Path} {site : Site ν}

/-- A report counts all messages and those that were kept, and has the others as its failures, each
once and in order. -/
theorem visit_tallied {report : Report} (h : (visit net p corpus site).1 = .ok report) :
    report.messages = corpus.length
      ∧ report.messages = report.described + report.failures.length
      ∧ (report.failures.map (·.index)).Pairwise (· < ·)
      ∧ (∀ f ∈ report.failures, corpus[f.index]? = some f.message)
      ∧ ∃ (opening : List Exchange) (blocks : List (List Act)) (leave : List Exchange),
        net.said p corpus site = opening ++ exchanges blocks.flatten ++ leave
          ∧ (∀ x ∈ opening, x.command ∈ p.opening)
          ∧ (∀ x ∈ leave, x.command = .close ∨ x.command = .logout)
          ∧ blocks.length = corpus.length
          ∧ FileTree.Written (writings blocks.flatten) site.files (visit net p corpus site).2.files
          ∧ ∀ (i : Nat) (message : Path), corpus[i]? = some message →
            ∃ acts n t r t', blocks[i]? = some acts
              ∧ FileTree.Written (writings (blocks.take i).flatten) site.files t
              ∧ Course p message n t acts r t'
              ∧ ((∀ f ∈ report.failures, f.index ≠ i) ↔ Kept p message n t acts) := by
  rcases visit_conversed net p corpus site with ⟨e, -, hv, -⟩ |
    ⟨-, opening, blocks, leave, hsaid, hc⟩
  · simp [h] at hv
  rw [h] at hc
  have hopening := hc.opening_mem
  have hwritten := hc.written_chain
  cases hc with
  | done closed bye _ hr =>
    obtain ⟨failures, hl, hn, ht⟩ := hr.tallied rfl
    obtain rfl : _ = failures := hl
    refine ⟨rfl, by simpa using hn.symm, ht.increasing, fun f hf => ?_, opening, blocks, _, hsaid,
      hopening, by simp, ht.length_eq, hwritten, by simpa using ht.courses⟩
    obtain ⟨i, hi, hm⟩ := ht.places f hf
    rwa [hi, Nat.zero_add]

/-- A visit that is granted all it asks for before the messages, and loses no connection. -/
theorem visit_of_calls {s s₁ s₂ s₃ s₄ s₅ s₆ s₇ : σ} {network : ν}
    {login delete create select : Response} {close logout : Except Fault Response}
    {described : Nat} {losses : Losses} {files : FileTree}
    (hconnect : net.connect p site.files site.network = (.ok s, network))
    (hlogin : net.responder.call (.login p.user p.password) s = (.ok login, s₁) ∧ login.isGranted)
    (hdelete : net.responder.call (.delete p.mailbox) s₁ = (.ok delete, s₂))
    (hcreate : net.responder.call (.create p.mailbox) s₂ = (.ok create, s₃) ∧ create.isGranted)
    (hselect : net.responder.call (.select p.mailbox) s₃ = (.ok select, s₄) ∧ select.isGranted)
    (hreview : Session.examineFrom net.responder p 0 0 {} corpus ⟨s₄, site.files⟩
      = (.ok (described, losses), ⟨s₅, files⟩))
    (hclose : net.responder.call .close s₅ = (close, s₆))
    (hlogout : net.responder.call .logout s₆ = (logout, s₇)) :
    visit net p corpus site
      = (.ok ⟨p.id, corpus.length, described, losses.failures⟩,
        ⟨net.hangUp s₇ network, files⟩) := by
  simp [visit, hconnect, converse, Session.work, Session.logIn, Session.renewMailbox,
    Session.insist, Session.call, Except.mapError, hlogin, hdelete, hcreate, hselect,
    Session.examineAll, Session.takeLeave, hreview, hclose, hlogout]

section Missing

/-- Grants all, and says the same of every message. -/
def granting : Responder Unit where
  call
    | .fetch .., s => (.ok ⟨⟨.ok, "done"⟩, [⟨"FETCH", [.line (utf8 "1 FETCH (X)")]⟩]⟩, s)
    | _, s => (.ok ⟨⟨.ok, "done"⟩, []⟩, s)

theorem examine_granting {p : Profile} {m : Path} {i : Nat} {l : Losses} {t t₁ t₂ : FileTree}
    {content : Bytes} (h : t.read m = .ok content)
    (hbody : t.write (artifactFile m p.suffix .body) (utf8 "(X)") = .ok t₁)
    (hstructure : t₁.write (artifactFile m p.suffix .bodyStructure) (utf8 "(X)") = .ok t₂) :
    examine granting p i m l ⟨(), t⟩ = (.ok true, l, ⟨(), t₂⟩) :=
  examine_of_calls h rfl rfl (describe_of_call rfl rfl (by decide) (by decide) hbody)
    (describe_of_call rfl rfl (by decide) (by decide) hstructure)

theorem visit_granting {p : Profile} {corpus : List Path} {site : Site Unit} {described : Nat}
    {losses : Losses} {files : FileTree}
    (h : Session.examineFrom granting p 0 0 {} corpus ⟨(), site.files⟩
      = (.ok (described, losses), ⟨(), files⟩)) :
    visit (.ofResponder granting none) p corpus site
      = (.ok ⟨p.id, corpus.length, described, losses.failures⟩, ⟨(), files⟩) :=
  visit_of_calls rfl ⟨rfl, rfl⟩ rfl ⟨rfl, rfl⟩ ⟨rfl, rfl⟩ h rfl rfl

/-- One letter, and nothing else. -/
def oneLetter : Site Unit := ⟨(), ⟨[(["a.eml"], .file [97])]⟩⟩

/-- The letter with both artifacts beside it. -/
def describedLetter : FileTree :=
  (oneLetter.files.set ["a.fake.body"] (.file (utf8 "(X)"))).set ["a.fake.bodystructure"]
    (.file (utf8 "(X)"))

theorem twoLetters_artifacts :
    artifactFile ⟨"a.eml"⟩ twoLetters.profile.suffix .body = ⟨"a.fake.body"⟩
      ∧ artifactFile ⟨"a.eml"⟩ twoLetters.profile.suffix .bodyStructure
        = ⟨"a.fake.bodystructure"⟩ := by
  decide

theorem oneLetter_read : oneLetter.files.read ⟨"a.eml"⟩ = .ok [97] :=
  FileTree.read_of_get (by decide) (by rfl) rfl

theorem oneLetter_body :
    oneLetter.files.write (artifactFile ⟨"a.eml"⟩ twoLetters.profile.suffix .body) (utf8 "(X)")
      = .ok (oneLetter.files.set ["a.fake.body"] (.file (utf8 "(X)"))) := by
  rw [twoLetters_artifacts.1]
  exact FileTree.write_of_missing (by decide) (by rfl) rfl

theorem oneLetter_structure :
    (oneLetter.files.set ["a.fake.body"] (.file (utf8 "(X)"))).write
        (artifactFile ⟨"a.eml"⟩ twoLetters.profile.suffix .bodyStructure) (utf8 "(X)")
      = .ok describedLetter := by
  rw [twoLetters_artifacts.2]
  exact FileTree.write_of_missing (by decide) (by rfl) rfl

theorem examine_oneLetter (i : Nat) (l : Losses) :
    examine granting twoLetters.profile i ⟨"a.eml"⟩ l ⟨(), oneLetter.files⟩
      = (.ok true, l, ⟨(), describedLetter⟩) :=
  examine_granting oneLetter_read oneLetter_body oneLetter_structure

theorem oneLetter_visited :
    (visit (.ofResponder granting none) twoLetters.profile [⟨"b.eml"⟩, ⟨"a.eml"⟩] oneLetter).1
      = .ok ⟨"fake", 2, 1, [⟨⟨"b.eml"⟩, 0, .read, Problem.text .read (.io .noSuchFile)⟩]⟩ := by
  have hb : oneLetter.files.read ⟨"b.eml"⟩ = .error .noSuchFile := by
    rw [FileTree.read, FileTree.find_eq, FileTree.stopAt_name (by rfl) (by decide) (.inl rfl)]
    rfl
  have hreview : Session.examineFrom granting twoLetters.profile 0 0 {} [⟨"b.eml"⟩, ⟨"a.eml"⟩]
      ⟨(), oneLetter.files⟩
      = (.ok (1, ⟨[⟨⟨"b.eml"⟩, 0, .read, Problem.text .read (.io .noSuchFile)⟩]⟩),
        ⟨(), describedLetter⟩) := by
    simp only [Session.examineFrom, examine.eq_def granting _ 0, attempt, hb, examine_oneLetter]
    rfl
  rw [visit_granting hreview]
  rfl

/-- The letter that is there is kept, and the one that is not is the failure. -/
theorem visit_tallied_oneLetter :
    let v := visit (.ofResponder granting none) twoLetters.profile [⟨"b.eml"⟩, ⟨"a.eml"⟩] oneLetter
    ∃ report, v.1 = .ok report ∧ report.messages = 2 ∧ report.described = 1
      ∧ report.failures.map (·.message) = [⟨"b.eml"⟩]
      ∧ ∃ acts n t, Kept twoLetters.profile ⟨"a.eml"⟩ n t acts := by
  intro v
  obtain ⟨-, -, -, -, _, _, _, -, -, -, -, -, h⟩ := visit_tallied oneLetter_visited
  obtain ⟨acts, n, t, -, -, -, -, -, hiff⟩ := h 1 _ rfl
  exact ⟨_, oneLetter_visited, rfl, rfl, rfl, acts, n, t, hiff.1 (by simp)⟩

end Missing

end Visits

end ImapProbe
