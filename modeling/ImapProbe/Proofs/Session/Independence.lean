import ImapProbe.Proofs.Session.Tally
import ImapProbe.Proofs.Storage.Rewriting
import ImapProbe.Proofs.Storage.Strewn
import Mathlib.Data.List.Forall2

/-!
# Visits one after another

What a visit to one server leaves are artifacts of its profile. Where these are not read or written
by a visit to another, the other visit goes as it would without them: it says the same, ends the
same and writes the same (`visit_beside`). But for one thing: where a path would go on behind such
an artifact, it fails for another reason. So in visits one after another each goes as it would go
alone, whatever came of the others (`visitAll_alone`).
-/

namespace ImapProbe

/-- Where the artifacts of a profile go. -/
def ArtifactAt (t : FileTree) (corpus : List Path) (p : Profile) (place : Place) : Prop :=
  ∃ m ∈ corpus, ∃ d, t.target? (artifactFile m p.suffix d) = some place

theorem FileTree.SameWays.artifactAt_iff {t u : FileTree} (h : t.SameWays u) {corpus : List Path}
    {p : Profile} {place : Place} : ArtifactAt u corpus p place ↔ ArtifactAt t corpus p place := by
  simp only [ArtifactAt, FileTree.target?_congr h]

section Alike

variable (P : Place → Prop) (t : FileTree) (corpus : List Path) (p : Profile)

/-- Nothing that a profile reads or writes is at one of these places. -/
structure Clear : Prop where
  source : ∀ m ∈ corpus, ∀ place, t.source? m = some place → ¬P place
  target : ∀ place, ArtifactAt t corpus p place → ¬P place

/-- No message is at one of these places. -/
def Unread : Prop := ∀ m ∈ corpus, ∀ place, t.source? m = some place → ¬P place

/-- The path of a step goes on behind one of these places. -/
def Barred (m : Path) : Step → Prop
  | .read => m ∈ corpus ∧ t.GoesBehind P .look m
  | .write d => m ∈ corpus ∧ t.GoesBehind P .write (artifactFile m p.suffix d)
  | .append | .fetch _ => False

/-- What comes of a message without the files of others and with them. -/
inductive AttemptAlike (m : Path) :
    Except ExaminationFault Unit → Except ExaminationFault Unit → Prop
  | same (r : Except ExaminationFault Unit) : AttemptAlike m r r
  | barred {step : Step} : Barred P t corpus p m step →
      AttemptAlike m (.error (.problem step (.io .noSuchFile)))
        (.error (.problem step (.io .notDirectory)))

/-- What is told of a failure without the files of others and with them. -/
def FailureAlike (f g : Failure) : Prop :=
  g = f ∨ Barred P t corpus p f.message f.step ∧ f.reason = (Problem.io .noSuchFile).text f.step
    ∧ g = { f with reason := (Problem.io .notDirectory).text f.step }

def LossesAlike (l l' : Losses) : Prop :=
  List.Forall₂ (FailureAlike P t corpus p) l.failures l'.failures

/-- What comes of a visit without the files of others and with them: all the same, but for the
reasons of failures. -/
def OutcomeAlike (r r' : Except SessionFault Report) : Prop :=
  r' = r ∨ ∃ report failures, r = .ok report ∧ r' = .ok { report with failures }
    ∧ List.Forall₂ (FailureAlike P t corpus p) report.failures failures

variable {P t corpus p}

theorem LossesAlike.predict {l l' : Losses} (h : LossesAlike P t corpus p l l') (index : Nat) :
    l'.predict index = l.predict index := by
  simp only [Losses.predict, List.Forall₂.length_eq h]

theorem LossesAlike.add {l l' : Losses} (h : LossesAlike P t corpus p l l') {f g : Failure}
    (hf : FailureAlike P t corpus p f g) : LossesAlike P t corpus p (l.add f) (l'.add g) :=
  List.rel_append h (.cons hf .nil)

/-- Where no path goes on behind the files of others, all is the same. -/
theorem OutcomeAlike.eq {r r' : Except SessionFault Report} (h : OutcomeAlike P t corpus p r r')
    (hnone : ∀ m step, ¬Barred P t corpus p m step) : r' = r := by
  rcases h with h | ⟨report, failures, rfl, rfl, hf⟩
  · exact h
  · have heq : List.Forall₂ Eq report.failures failures :=
      hf.imp fun f g hfg => (hfg.resolve_right fun hbar => hnone _ _ hbar.1).symm
    rw [List.forall₂_eq_eq_eq] at heq
    rw [← heq]

end Alike

/-- Two desks with the same server, the second with files that others left; the same was written
to the files of both. -/
structure Desk.Beside {σ : Type} (P : Place → Prop) (t left : FileTree) (a b : Desk σ) : Prop where
  server : b.server = a.server
  files : a.files.Strewn P b.files
  ways : t.SameWays a.files
  written : ∃ ws, a.files = t.setAll ws ∧ b.files = left.setAll ws

section Desks

variable {σ : Type} (via : Responder σ) {P : Place → Prop} {t left : FileTree} {corpus : List Path}
  {p : Profile} {m : Path} {a b : Desk σ}

theorem demand_beside (h : a.Beside P t left b) (c : Command) (step : Step) :
    ∃ r a' b', demand via c step a = (r, a') ∧ demand via c step b = (r, b')
      ∧ a'.Beside P t left b' := by
  simp only [demand, h.server]
  rcases via.call c a.server with ⟨e | r, s⟩ <;>
    exact ⟨_, _, _, rfl, rfl, rfl, h.files, h.ways, h.written⟩

section Messages

variable (hm : m ∈ corpus)

include hm

theorem describe_beside (h : a.Beside P t left b) (n : UInt32) (d : Description) :
    ∃ r r' a' b', describe via p m n d a = (r, a') ∧ describe via p m n d b = (r', b')
      ∧ AttemptAlike P t corpus p m r r' ∧ a'.Beside P t left b' := by
  obtain ⟨r, a', b', ha, hb, hd⟩ := demand_beside via h
    (.fetch (toString n.toNat ++ ":" ++ toString n.toNat) d.items) (.fetch d)
  simp only [describe, ha, hb]
  rcases r with e | given
  · exact ⟨_, _, _, _, rfl, rfl, .same _, hd⟩
  simp only
  split
  · exact ⟨_, _, _, _, rfl, rfl, .same _, hd⟩
  rcases FileTree.write_strewn hd.files (artifactFile m p.suffix d)
      (artifact (given.parts "FETCH")) with
    ⟨place, hfree, hu, hu'⟩ | ⟨e, he, he'⟩ | ⟨hbehind, he, he'⟩
  · rw [hu, hu']
    obtain ⟨ws, hws, hws'⟩ := hd.written
    refine ⟨_, _, _, _, rfl, rfl, .same _, hd.server, hd.files.set hfree,
      hd.ways.trans hfree.sameWays, ws ++ [(place, artifact (given.parts "FETCH"))], ?_, ?_⟩
    · rw [FileTree.setAll_concat, hws]
    · rw [FileTree.setAll_concat, hws']
  · rw [he, he']
    exact ⟨_, _, _, _, rfl, rfl, .same _, hd⟩
  · rw [he, he']
    exact ⟨_, _, _, _, rfl, rfl, .barred ⟨hm, hd.ways.goesBehind_iff.1 hbehind⟩, hd⟩

theorem describeAll_beside (n : UInt32) : ∀ (ds : List Description) {a b : Desk σ},
    a.Beside P t left b →
      ∃ r r' a' b', describeAll via p m n ds a = (r, a') ∧ describeAll via p m n ds b = (r', b')
        ∧ AttemptAlike P t corpus p m r r' ∧ a'.Beside P t left b'
  | [], _, _, h => ⟨_, _, _, _, rfl, rfl, .same _, h⟩
  | d :: ds, a, b, h => by
    obtain ⟨r, r', a', b', ha, hb, hr, hd⟩ := describe_beside (p := p) via hm h n d
    simp only [describeAll, ha, hb]
    cases hr with
    | same =>
      rcases r with e | u
      · exact ⟨_, _, _, _, rfl, rfl, .same _, hd⟩
      · exact describeAll_beside n ds hd
    | barred hbar => exact ⟨_, _, _, _, rfl, rfl, .barred hbar, hd⟩

variable (hunread : Unread P t corpus)

include hunread

theorem attempt_beside (h : a.Beside P t left b) {l l' : Losses}
    (hl : LossesAlike P t corpus p l l') (index : Nat) :
    ∃ r r' a' b', attempt via p index m l a = (r, a') ∧ attempt via p index m l' b = (r', b')
      ∧ AttemptAlike P t corpus p m r r' ∧ a'.Beside P t left b' := by
  have hsource : ∀ place, a.files.source? m = some place → ¬P place := fun place hp => by
    rw [FileTree.source?_congr h.ways] at hp
    exact hunread m hm place hp
  simp only [attempt, hl.predict]
  rcases FileTree.read_strewn h.files hsource with hread | ⟨hbehind, he, he'⟩
  · rw [hread]
    rcases a.files.read m with e | content
    · exact ⟨_, _, _, _, rfl, rfl, .same _, h⟩
    obtain ⟨r, a', b', ha, hb, hd⟩ := demand_beside via h (.append p.mailbox content) .append
    simp only [ha, hb]
    rcases r with e | given
    · exact ⟨_, _, _, _, rfl, rfl, .same _, hd⟩
    · exact describeAll_beside (p := p) via hm _ Description.all hd
  · rw [he, he']
    exact ⟨_, _, _, _, rfl, rfl, .barred ⟨hm, h.ways.goesBehind_iff.1 hbehind⟩, h⟩

theorem examine_beside (h : a.Beside P t left b) {l l' : Losses}
    (hl : LossesAlike P t corpus p l l') (index : Nat) :
    ∃ r l₁ l₁' a' b', examine via p index m l a = (r, l₁, a')
      ∧ examine via p index m l' b = (r, l₁', b') ∧ LossesAlike P t corpus p l₁ l₁'
      ∧ a'.Beside P t left b' := by
  obtain ⟨r, r', a', b', ha, hb, hr, hd⟩ := attempt_beside via hm hunread h hl index
  simp only [examine, ha, hb]
  cases hr with
  | same =>
    rcases r with (⟨step, problem⟩ | e) | u
    · exact ⟨_, _, _, _, _, rfl, rfl, hl.add (.inl rfl), hd⟩
    · exact ⟨_, _, _, _, _, rfl, rfl, hl, hd⟩
    · exact ⟨_, _, _, _, _, rfl, rfl, hl, hd⟩
  | barred hbar => exact ⟨_, _, _, _, _, rfl, rfl, hl.add (.inr ⟨hbar, rfl, rfl⟩), hd⟩

end Messages

/-- What comes of the messages still to be examined, without the files of others and with them. -/
inductive ReviewAlike (P : Place → Prop) (t : FileTree) (corpus : List Path) (p : Profile) :
    Except Fault (Nat × Losses) → Except Fault (Nat × Losses) → Prop
  | fault (e : Fault) : ReviewAlike P t corpus p (.error e) (.error e)
  | done (described : Nat) {l l' : Losses} : LossesAlike P t corpus p l l' →
      ReviewAlike P t corpus p (.ok (described, l)) (.ok (described, l'))

theorem examineFrom_beside (hunread : Unread P t corpus) : ∀ (rest : List Path)
    (index described : Nat) {l l' : Losses} {a b : Desk σ}, (∀ m ∈ rest, m ∈ corpus) →
      LossesAlike P t corpus p l l' → a.Beside P t left b →
      ∃ r r' a' b', Session.examineFrom via p index described l rest a = (r, a')
        ∧ Session.examineFrom via p index described l' rest b = (r', b')
        ∧ ReviewAlike P t corpus p r r' ∧ a'.Beside P t left b'
  | [], _, described, _, _, _, _, _, hl, h => ⟨_, _, _, _, rfl, rfl, .done described hl, h⟩
  | m :: rest, index, described, l, l', a, b, hrest, hl, h => by
    obtain ⟨hm, hrest⟩ := List.forall_mem_cons.1 hrest
    obtain ⟨r, l₁, l₁', a', b', ha, hb, hl₁, hd⟩ := examine_beside via hm hunread h hl index
    simp only [Session.examineFrom, ha, hb]
    rcases r with e | done
    · exact ⟨_, _, _, _, rfl, rfl, .fault _, hd⟩
    · exact examineFrom_beside hunread rest _ _ hrest hl₁ hd

end Desks

namespace Session

/-- Two sessions of one profile at such desks. -/
structure Beside {σ : Type} (P : Place → Prop) (t left : FileTree) (p : Profile)
    (s s' : Session σ) : Prop where
  desk : s.toDesk.Beside P t left s'.toDesk
  left : s.profile = p
  right : s'.profile = p
  selected : s'.selected = s.selected

variable {σ : Type} (via : Responder σ) {P : Place → Prop} {t left : FileTree} {corpus : List Path}
  {p : Profile} {s s' : Session σ}

theorem Beside.call (h : s.Beside P t left p s') (c : Command) :
    ∃ r s₁ s₁', s.call via c = (r, s₁) ∧ s'.call via c = (r, s₁') ∧ s₁.Beside P t left p s₁' := by
  simp only [Session.call, h.desk.server]
  exact ⟨_, _, _, rfl, rfl, ⟨rfl, h.desk.files, h.desk.ways, h.desk.written⟩, h.left, h.right,
    h.selected⟩

theorem Beside.logIn (h : s.Beside P t left p s') :
    ∃ r s₁ s₁', s.logIn via = (r, s₁) ∧ s'.logIn via = (r, s₁') ∧ s₁.Beside P t left p s₁' := by
  obtain ⟨r, s₁, s₁', ha, hb, hs⟩ := h.call via (.login p.user p.password)
  simp only [Session.logIn, h.left, h.right, ha, hb]
  rcases r with e | given <;> exact ⟨_, _, _, rfl, rfl, hs⟩

theorem Beside.insist (h : s.Beside P t left p s') (action : MailboxAction) (c : Command) :
    ∃ r s₁ s₁', s.insist via action c = (r, s₁) ∧ s'.insist via action c = (r, s₁')
      ∧ s₁.Beside P t left p s₁' := by
  obtain ⟨r, s₁, s₁', ha, hb, hs⟩ := h.call via c
  simp only [Session.insist, ha, hb]
  rcases r with e | given
  · exact ⟨_, _, _, rfl, rfl, hs⟩
  · simp only [hs.left, hs.right]
    exact ⟨_, _, _, rfl, rfl, hs⟩

theorem Beside.renewMailbox (h : s.Beside P t left p s') :
    ∃ r s₁ s₁', s.renewMailbox via = (r, s₁) ∧ s'.renewMailbox via = (r, s₁')
      ∧ s₁.Beside P t left p s₁' := by
  obtain ⟨r, s₁, s₁', ha, hb, hs₁⟩ := h.call via (.delete p.mailbox)
  simp only [Session.renewMailbox, h.left, h.right, ha, hb]
  rcases r with e | given
  · exact ⟨_, _, _, rfl, rfl, hs₁⟩
  obtain ⟨r, s₂, s₂', ha, hb, hs₂⟩ := hs₁.insist via .create (.create p.mailbox)
  simp only [hs₁.left, hs₁.right, ha, hb]
  rcases r with e | u
  · exact ⟨_, _, _, rfl, rfl, hs₂⟩
  obtain ⟨r, s₃, s₃', ha, hb, hs₃⟩ := hs₂.insist via .select (.select p.mailbox)
  simp only [hs₂.left, hs₂.right, ha, hb]
  rcases r with e | u
  · exact ⟨_, _, _, rfl, rfl, hs₃⟩
  · exact ⟨_, _, _, rfl, rfl, hs₃.desk, hs₃.left, hs₃.right, rfl⟩

theorem Beside.examineAll (h : s.Beside P t left p s') (hunread : Unread P t corpus) :
    ∃ r r' s₁ s₁', s.examineAll via corpus = (r, s₁) ∧ s'.examineAll via corpus = (r', s₁')
      ∧ OutcomeAlike P t corpus p r r' ∧ s₁.Beside P t left p s₁' := by
  obtain ⟨r, r', a', b', ha, hb, hr, hd⟩ := examineFrom_beside via hunread corpus 0 0
    (fun _ hm => hm) (.nil : LossesAlike P t corpus p {} {}) h.desk
  simp only [Session.examineAll, h.left, h.right, ha, hb]
  cases hr with
  | fault e => exact ⟨_, _, _, _, rfl, rfl, .inl rfl, hd, rfl, rfl, h.selected⟩
  | done described hl =>
    exact ⟨_, _, _, _, rfl, rfl, .inr ⟨_, _, rfl, rfl, hl⟩, hd, rfl, rfl, h.selected⟩

theorem Beside.work (h : s.Beside P t left p s') (hunread : Unread P t corpus) :
    ∃ r r' s₁ s₁', s.work via corpus = (r, s₁) ∧ s'.work via corpus = (r', s₁')
      ∧ OutcomeAlike P t corpus p r r' ∧ s₁.Beside P t left p s₁' := by
  obtain ⟨r, s₁, s₁', ha, hb, hs₁⟩ := h.logIn via
  simp only [Session.work, ha, hb]
  rcases r with e | u
  · exact ⟨_, _, _, _, rfl, rfl, .inl rfl, hs₁⟩
  obtain ⟨r, s₂, s₂', ha, hb, hs₂⟩ := hs₁.renewMailbox via
  simp only [ha, hb]
  rcases r with e | u
  · exact ⟨_, _, _, _, rfl, rfl, .inl rfl, hs₂⟩
  · exact hs₂.examineAll via hunread

theorem Beside.takeLeave (h : s.Beside P t left p s') :
    (s.takeLeave via).Beside P t left (s'.takeLeave via) := by
  refine ⟨?_, h.desk.files, h.desk.ways, h.desk.written⟩
  simp only [Session.takeLeave, h.selected, h.desk.server]

end Session

theorem converse_beside {σ : Type} (via : Responder σ) {P : Place → Prop} {t left : FileTree}
    {corpus : List Path} {p : Profile} {a b : Desk σ} (hunread : Unread P t corpus)
    (h : a.Beside P t left b) :
    OutcomeAlike P t corpus p (converse via p corpus a).1 (converse via p corpus b).1
      ∧ (converse via p corpus a).2.Beside P t left (converse via p corpus b).2 := by
  have hstart : Session.Beside P t left p { toDesk := a, profile := p }
      { toDesk := b, profile := p } := ⟨h, rfl, rfl, rfl⟩
  obtain ⟨r, r', s₁, s₁', ha, hb, hr, hs⟩ := hstart.work via hunread
  simp only [converse, ha, hb]
  exact ⟨hr, hs.takeLeave via⟩

section Visits

variable {ν σ : Type} (net : Network ν σ) {P : Place → Prop} {corpus : List Path} {p : Profile}

/-- A visit with files left at places where it reads no message goes as it goes without them, and
writes the same. -/
theorem visit_alongside {site site' : Site ν} (hunread : Unread P site.files corpus)
    (hfiles : site.files.Strewn P site'.files)
    (hserver : (net.connect p site'.files site'.network).1
      = (net.connect p site.files site.network).1) :
    net.said p corpus site' = net.said p corpus site
      ∧ OutcomeAlike P site.files corpus p (visit net p corpus site).1 (visit net p corpus site').1
      ∧ (visit net p corpus site).2.files.Strewn P (visit net p corpus site').2.files
      ∧ ∃ ws, (visit net p corpus site).2.files = site.files.setAll ws
        ∧ (visit net p corpus site').2.files = site'.files.setAll ws := by
  rcases ha : net.connect p site.files site.network with ⟨c, n⟩
  rcases hb : net.connect p site'.files site'.network with ⟨c', n'⟩
  rw [ha, hb] at hserver
  obtain rfl : c' = c := hserver
  simp only [Network.said, visit, Network.recording, ha, hb]
  rcases c' with e | server
  · exact ⟨rfl, .inl rfl, hfiles, [], rfl, rfl⟩
  · obtain ⟨hr, hd⟩ := converse_beside net.responder hunread (a := ⟨server, site.files⟩)
      (b := ⟨server, site'.files⟩) ⟨rfl, hfiles, .refl _, [], rfl, rfl⟩
    obtain ⟨-, hd'⟩ := converse_beside net.responder.keepingExchanges (p := p) hunread
      (a := ⟨(server, []), site.files⟩) (b := ⟨(server, []), site'.files⟩)
      ⟨rfl, hfiles, .refl _, [], rfl, rfl⟩
    exact ⟨by simp only [hd'.server], hr, hd.files, hd.written⟩

/-- A visit with files that others left goes as it goes without them. -/
theorem visit_beside {site site' : Site ν} (hclear : Clear P site.files corpus p)
    (hfiles : site.files.Strewn P site'.files)
    (hserver : (net.connect p site'.files site'.network).1
      = (net.connect p site.files site.network).1) :
    net.said p corpus site' = net.said p corpus site
      ∧ OutcomeAlike P site.files corpus p (visit net p corpus site).1 (visit net p corpus site').1
      ∧ (visit net p corpus site).2.files.Strewn P (visit net p corpus site').2.files := by
  obtain ⟨hsaid, hout, hleft, -⟩ := visit_alongside net hclear.source hfiles hserver
  exact ⟨hsaid, hout, hleft⟩

variable (corpus)

/-- A visit writes artifacts of its profile, and nothing else. -/
theorem visit_written (p : Profile) (site : Site ν) :
    ∃ ws, FileTree.Written ws site.files (visit net p corpus site).2.files
      ∧ ∀ w ∈ ws, ∃ m ∈ corpus, ∃ (d : Description) (r : Response),
        w = (artifactFile m p.suffix d, artifact (r.parts "FETCH")) := by
  rcases visit_conversed net p corpus site with ⟨e, -, -, hf, -⟩ | ⟨-, opening, blocks, leave, -, h⟩
  · exact ⟨[], hf, by simp⟩
  · refine ⟨_, h.written_chain, fun w hw => ?_⟩
    obtain ⟨acts, hacts, hw⟩ : ∃ acts ∈ blocks, w ∈ writings acts := by
      simpa [writings, List.filterMap_flatten] using hw
    obtain ⟨i, hi⟩ := List.mem_iff_getElem?.1 hacts
    obtain ⟨m, hm, hartifacts⟩ := h.artifacts i acts hi
    obtain ⟨d, n, r, hw, -⟩ := hartifacts w hw
    exact ⟨m, List.mem_of_getElem? hm, d, r, hw⟩

theorem visit_strewn (p : Profile) (site : Site ν) :
    site.files.Strewn (ArtifactAt site.files corpus p) (visit net p corpus site).2.files := by
  obtain ⟨ws, hws, hartifacts⟩ := visit_written net corpus p site
  refine hws.strewn.mono ?_
  rintro place ⟨w, hw, hplace⟩
  obtain ⟨m, hm, d, r, rfl⟩ := hartifacts w hw
  exact ⟨m, hm, d, hplace⟩

theorem visitAll_written : ∀ (ps : List Profile) (site : Site ν),
    ∃ ws, FileTree.Written ws site.files (visitAll net corpus ps site).2.files
      ∧ ∀ w ∈ ws, ∃ p ∈ ps, ∃ m ∈ corpus, ∃ (d : Description) (r : Response),
        w = (artifactFile m p.suffix d, artifact (r.parts "FETCH"))
  | [], _ => ⟨[], rfl, by simp⟩
  | p :: ps, site => by
    obtain ⟨ws, hws, hp⟩ := visit_written net corpus p site
    obtain ⟨ws', hws', hps⟩ := visitAll_written ps (visit net p corpus site).2
    refine ⟨ws ++ ws', hws.append hws', fun w hw => ?_⟩
    rcases List.mem_append.1 hw with hw | hw
    · exact ⟨p, List.mem_cons_self, hp w hw⟩
    · obtain ⟨q, hq, hw⟩ := hps w hw
      exact ⟨q, List.mem_cons_of_mem _ hq, hw⟩

theorem visitAll_strewn (ps : List Profile) (site : Site ν) :
    site.files.Strewn (fun place => ∃ p ∈ ps, ArtifactAt site.files corpus p place)
      (visitAll net corpus ps site).2.files := by
  obtain ⟨ws, hws, hartifacts⟩ := visitAll_written net corpus ps site
  refine hws.strewn.mono ?_
  rintro place ⟨w, hw, hplace⟩
  obtain ⟨p, hp, m, hm, d, r, rfl⟩ := hartifacts w hw
  exact ⟨p, hp, m, hm, d, hplace⟩

theorem visitAll_append (ps qs : List Profile) (site : Site ν) :
    let (before, site') := visitAll net corpus ps site
    let (behind, site'') := visitAll net corpus qs site'
    visitAll net corpus (ps ++ qs) site = (before ++ behind, site'') := by
  induction ps generalizing site with
  | nil => rfl
  | cons p ps ih => simp [visitAll, ih]

theorem length_visitAll (ps : List Profile) (site : Site ν) :
    (visitAll net corpus ps site).1.length = ps.length := by
  induction ps generalizing site with
  | nil => rfl
  | cons p ps ih => simp [visitAll, ih]

theorem visitAll_split {ps : List Profile} {k : Nat} (hp : ps[k]? = some p) (site : Site ν) :
    let before := (visitAll net corpus (ps.take k) site).2
    (visitAll net corpus ps site).1[k]? = some (p, (visit net p corpus before).1)
      ∧ (visitAll net corpus ps site).2
        = (visitAll net corpus (ps.drop (k + 1)) (visit net p corpus before).2).2 := by
  intro before
  obtain ⟨hk, rfl⟩ := List.getElem?_eq_some_iff.1 hp
  have hlength : (visitAll net corpus (ps.take k) site).1.length = k := by
    rw [length_visitAll, List.length_take_of_le hk.le]
  have hall := visitAll_append net corpus (ps.take k) (ps.drop k) site
  rw [List.take_append_drop, List.drop_eq_getElem_cons hk] at hall
  rw [hall]
  exact ⟨by rw [List.getElem?_append_right hlength.le, hlength, Nat.sub_self]; rfl, rfl⟩

variable {corpus} {ps : List Profile} {site : Site ν}

/-- In visits one after another, each goes as it would go alone, whatever comes of the others: it
meets files that others left, and what it wrote no visit behind it writes. -/
theorem visitAll_alone {server : Profile → Except Fault σ}
    (hserver : ∀ p ∈ ps, ∀ files network,
      site.files.Strewn (fun place => ∃ q ∈ ps, ArtifactAt site.files corpus q place) files →
        (net.connect p files network).1 = server p)
    (hmessages : ∀ p ∈ ps, ∀ place, ArtifactAt site.files corpus p place →
      ∀ m ∈ corpus, site.files.source? m ≠ some place)
    (hapart : ps.Pairwise fun p q => ∀ place,
      ¬(ArtifactAt site.files corpus p place ∧ ArtifactAt site.files corpus q place))
    {k : Nat} {p : Profile} (hp : ps[k]? = some p) :
    let others (place : Place) : Prop :=
      ∃ j q, j ≠ k ∧ ps[j]? = some q ∧ ArtifactAt site.files corpus q place
    let alone := visit net p corpus site
    net.said p corpus (visitAll net corpus (ps.take k) site).2 = net.said p corpus site
      ∧ (∃ outcome, (visitAll net corpus ps site).1[k]? = some (p, outcome)
        ∧ OutcomeAlike others site.files corpus p alone.1 outcome
        ∧ ((∀ m step, ¬Barred others site.files corpus p m step) → outcome = alone.1))
      ∧ ∀ place, ArtifactAt site.files corpus p place →
        (visitAll net corpus ps site).2.files.get? place = alone.2.files.get? place := by
  intro others alone
  have hmine : ∀ place, ArtifactAt site.files corpus p place → ¬others place := by
    rintro place hplace ⟨j, q, hj, hq, hother⟩
    obtain ⟨hkl, hkp⟩ := List.getElem?_eq_some_iff.1 hp
    obtain ⟨hjl, hjq⟩ := List.getElem?_eq_some_iff.1 hq
    rw [List.pairwise_iff_getElem] at hapart
    rcases Nat.lt_or_gt_of_ne hj with hlt | hlt
    · exact hapart j k hjl hkl hlt place (by rw [hjq, hkp]; exact ⟨hother, hplace⟩)
    · exact hapart k j hkl hjl hlt place (by rw [hjq, hkp]; exact ⟨hplace, hother⟩)
  have hclear : Clear others site.files corpus p := by
    refine ⟨fun m hm place hsource => ?_, hmine⟩
    rintro ⟨j, q, -, hq, hother⟩
    exact hmessages q (List.mem_of_getElem? hq) place hother m hm hsource
  obtain ⟨before, hbefore⟩ : ∃ before, before = (visitAll net corpus (ps.take k) site).2 :=
    ⟨_, rfl⟩
  have hstrewn := hbefore ▸ visitAll_strewn net corpus (ps.take k) site
  have hconnect : (net.connect p before.files before.network).1
      = (net.connect p site.files site.network).1 := by
    have hmem := List.mem_of_getElem? hp
    rw [hserver p hmem _ _ (.refl _ _), hserver p hmem _ _ (hstrewn.mono ?_)]
    rintro place ⟨q, hq, hplace⟩
    exact ⟨q, List.mem_of_mem_take hq, hplace⟩
  have hstrewn : site.files.Strewn others before.files := hstrewn.mono (by
    rintro place ⟨q, hq, hplace⟩
    obtain ⟨j, hj⟩ := List.mem_iff_getElem?.1 hq
    rw [List.getElem?_take] at hj
    split at hj <;> rename_i hjk
    · exact ⟨j, q, hjk.ne, hj, hplace⟩
    · simp at hj)
  obtain ⟨hsaid, hout, hfiles⟩ := visit_beside net hclear hstrewn hconnect
  obtain ⟨hat, hafter⟩ := visitAll_split net corpus hp site
  rw [← hbefore] at hat hafter ⊢
  refine ⟨hsaid, ⟨_, hat, hout, hout.eq⟩, fun place hplace => ?_⟩
  rw [hafter, ← hfiles.get? (hmine place hplace)]
  refine (visitAll_strewn net corpus _ _).get? ?_
  rintro ⟨q, hq, hother⟩
  obtain ⟨j, hj⟩ := List.mem_iff_getElem?.1 hq
  rw [List.getElem?_drop] at hj
  have hways := hstrewn.sameWays.trans (visit_strewn net corpus p before).sameWays
  exact hmine place hplace ⟨k + 1 + j, q, by omega, hj, hways.artifactAt_iff.1 hother⟩

section Letters

open FileTree

/-- A profile whose artifacts stand beside those of the first. -/
def otherProfile : Profile := { twoLetters.profile with id := "other", suffix := ".other" }

/-- A profile whose artifacts would stand behind one of the first. -/
def behindProfile : Profile := { twoLetters.profile with id := "behind", suffix := ".fake.body/x" }

theorem artifactAt_letter {t : FileTree} {p : Profile} (body bodyStructure : String)
    (hfiles : artifactFile ⟨"a.eml"⟩ p.suffix .body = ⟨body⟩
      ∧ artifactFile ⟨"a.eml"⟩ p.suffix .bodyStructure = ⟨bodyStructure⟩)
    {x y : Place × Option (List String)} (hx : t.stopAt .write body = .ok x)
    (hy : t.stopAt .write bodyStructure = .ok y) (place : Place) :
    ArtifactAt t [⟨"a.eml"⟩] p place ↔ landing x = some place ∨ landing y = some place := by
  rw [← @target?_of_stopAt t ⟨body⟩ x hx, ← @target?_of_stopAt t ⟨bodyStructure⟩ y hy,
    ← hfiles.1, ← hfiles.2]
  constructor
  · rintro ⟨m, hm, d, hd⟩
    obtain rfl := List.mem_singleton.1 hm
    cases d
    · exact .inl hd
    · exact .inr hd
  · rintro (hd | hd)
    · exact ⟨_, List.mem_singleton.2 rfl, .body, hd⟩
    · exact ⟨_, List.mem_singleton.2 rfl, .bodyStructure, hd⟩

theorem oneLetter_fake (place : Place) :
    ArtifactAt oneLetter.files [⟨"a.eml"⟩] twoLetters.profile place
      ↔ some ["a.fake.body"] = some place ∨ some ["a.fake.bodystructure"] = some place :=
  @artifactAt_letter _ twoLetters.profile "a.fake.body" "a.fake.bodystructure"
    twoLetters_artifacts _ _
    (stopAt_name (by rfl) (by decide) (.inl rfl))
    (stopAt_name (by rfl) (by decide) (.inl rfl)) place

theorem oneLetter_other (place : Place) :
    ArtifactAt oneLetter.files [⟨"a.eml"⟩] otherProfile place
      ↔ some ["a.other.body"] = some place ∨ some ["a.other.bodystructure"] = some place :=
  @artifactAt_letter _ otherProfile "a.other.body" "a.other.bodystructure" (by decide) _ _
    (stopAt_name (by rfl) (by decide) (.inl rfl))
    (stopAt_name (by rfl) (by decide) (.inl rfl)) place

theorem stopAt_behind {t : FileTree} {purpose : Purpose} {path name : String}
    (hpath : t.stopAt purpose path = t.stop purpose greatestLinks [] ["a.fake.body", name])
    (hname : name ≠ "") (hfree : t.IsFree ["a.fake.body"]) :
    t.stopAt purpose path = .ok (["a.fake.body"], some [name]) :=
  stopAt_of_free hpath ⟨by decide, by decide, by simp [hname], by decide⟩ hfree

theorem oneLetter_behind (place : Place) :
    ¬ArtifactAt oneLetter.files [⟨"a.eml"⟩] behindProfile place := by
  rw [artifactAt_letter "a.fake.body/x.body" "a.fake.body/x.bodystructure" (by decide)
    (stopAt_behind (by rfl) (by decide) (.inl rfl))
    (stopAt_behind (by rfl) (by decide) (.inl rfl)) place]
  simp [landing]

theorem oneLetter_stopAt :
    oneLetter.files.stopAt .look "a.eml" = .ok (["a.eml"], some []) :=
  stopAt_name (by rfl) (by decide) (.inr ⟨_, rfl⟩)

theorem oneLetter_source : oneLetter.files.source? ⟨"a.eml"⟩ = some ["a.eml"] := by
  rw [source?, ending_find, oneLetter_stopAt]
  rfl

/-- The second profile goes as if the first had not been there, and leaves the same. -/
theorem visitAll_alone_other :
    let net := Network.ofResponder granting none
    let letters : List Path := [⟨"a.eml"⟩]
    let run := visitAll net letters [twoLetters.profile, otherProfile] oneLetter
    let alone := visit net otherProfile letters oneLetter
    run.1[1]? = some (otherProfile, alone.1)
      ∧ run.2.files.get? ["a.other.body"] = alone.2.files.get? ["a.other.body"] := by
  intro net letters run alone
  have hmessages : ∀ p ∈ [twoLetters.profile, otherProfile], ∀ place,
      ArtifactAt oneLetter.files letters p place →
      ∀ m ∈ letters, oneLetter.files.source? m ≠ some place := by
    refine List.forall_mem_cons.2 ⟨fun place hplace => ?_,
      List.forall_mem_singleton.2 fun place hplace => ?_⟩ <;>
      refine List.forall_mem_singleton.2 ?_ <;> rw [oneLetter_source]
    · rcases (oneLetter_fake place).1 hplace with h | h <;> simp [← h]
    · rcases (oneLetter_other place).1 hplace with h | h <;> simp [← h]
  have hapart : [twoLetters.profile, otherProfile].Pairwise fun p q => ∀ place,
      ¬(ArtifactAt oneLetter.files letters p place
        ∧ ArtifactAt oneLetter.files letters q place) := by
    simp only [List.pairwise_pair, letters, oneLetter_fake, oneLetter_other]
    rintro place ⟨h | h, h' | h'⟩ <;> simp [← Option.some.inj h] at h'
  obtain ⟨-, ⟨outcome, hat, -, hout⟩, hfiles⟩ := @visitAll_alone _ _ net letters _ oneLetter
    (fun _ => .ok ()) (fun _ _ _ _ _ => rfl) hmessages hapart 1 otherProfile rfl
  refine ⟨?_, hfiles _ ((oneLetter_other _).2 (.inl rfl))⟩
  rw [hat, hout ?_]
  rintro m (_ | _ | _ | d) hbarred
  · obtain ⟨hm, hbehind⟩ := hbarred
    obtain rfl := List.mem_singleton.1 hm
    exact not_goesBehind oneLetter_stopAt hbehind
  · exact hbarred
  · exact hbarred
  · obtain ⟨hm, hbehind⟩ := hbarred
    obtain rfl := List.mem_singleton.1 hm
    cases d
    · exact not_goesBehind
        (@stopAt_name _ _ _ "a.other.body" (by rfl) (by decide) (.inl rfl)) hbehind
    · exact not_goesBehind
        (@stopAt_name _ _ _ "a.other.bodystructure" (by rfl) (by decide) (.inl rfl)) hbehind

theorem examine_unwritten {p : Profile} {m : Path} {t : FileTree} {content : Bytes} {e : IoFault}
    (h : t.read m = .ok content)
    (hbody : t.write (artifactFile m p.suffix .body) (utf8 "(X)") = .error e) :
    examine granting p 0 m {} ⟨(), t⟩
      = (.ok false, ⟨[⟨m, 0, .write .body, (Problem.io e).text (.write .body)⟩]⟩, ⟨(), t⟩) := by
  have ha : artifact [Part.line (utf8 "1 FETCH (X)")] = utf8 "(X)" := by decide
  have hne : (utf8 "(X)").isEmpty = false := by rfl
  simp [examine, attempt, h, Description.all, describeAll, describe, demand, granting,
    Response.isGranted, Response.parts, ha, hbody, hne, Losses.add]

/-- The failure of the letter behind the artifact of another, and its reason. -/
theorem visit_behind {t : FileTree} {e : IoFault} (h : t.read ⟨"a.eml"⟩ = .ok [97])
    (hwrite : t.write ⟨"a.fake.body/x.body"⟩ (utf8 "(X)") = .error e) :
    (visit (.ofResponder granting none) behindProfile [⟨"a.eml"⟩] ⟨(), t⟩).1
      = .ok ⟨"behind", 1, 0,
        [⟨⟨"a.eml"⟩, 0, .write .body, (Problem.io e).text (.write .body)⟩]⟩ := by
  have hfile : artifactFile ⟨"a.eml"⟩ behindProfile.suffix .body = ⟨"a.fake.body/x.body"⟩ := by
    decide
  rw [← hfile] at hwrite
  have hreview : Session.examineFrom granting behindProfile 0 0 {} [⟨"a.eml"⟩] ⟨(), t⟩
      = (.ok (0, ⟨[⟨⟨"a.eml"⟩, 0, .write .body, (Problem.io e).text (.write .body)⟩]⟩),
        ⟨(), t⟩) := by
    simp only [Session.examineFrom, examine_unwritten h hwrite]
    rfl
  rw [visit_granting hreview]
  rfl

theorem write_behind {t : FileTree} {path : Path} {name : String}
    (h : t.stopAt .write path.text = .ok (["a.fake.body"], some [name])) (content : Bytes) :
    t.write path content
      = .error (if (t.get? ["a.fake.body"]).isNone then .noSuchFile else .notDirectory) := by
  rcases hn : (t.get? ["a.fake.body"]).isNone <;>
    simp [write, find_eq, h, Except.bind, arrive, hn]

theorem oneLetter_described :
    visit (.ofResponder granting none) twoLetters.profile [⟨"a.eml"⟩] oneLetter
      = (.ok ⟨"fake", 1, 1, []⟩, ⟨(), describedLetter⟩) := by
  have hreview : Session.examineFrom granting twoLetters.profile 0 0 {} [⟨"a.eml"⟩]
      ⟨(), oneLetter.files⟩ = (.ok (1, {}), ⟨(), describedLetter⟩) := by
    simp only [Session.examineFrom, examine_oneLetter]
    rfl
  rw [visit_granting hreview]
  rfl

/-- Servers that stay the same and artifacts that are apart, and two reports: the failure of a
letter behind an artifact of the first profile has another reason when the first was there. -/
theorem visitAll_unlike_alone :
    let net := Network.ofResponder granting none
    let letters : List Path := [⟨"a.eml"⟩]
    let failed (e : IoFault) : Report := ⟨"behind", 1, 0,
      [⟨⟨"a.eml"⟩, 0, .write .body, (Problem.io e).text (.write .body)⟩]⟩
    (∀ p files network, (net.connect p files network).1 = .ok ())
      ∧ (∀ p ∈ [twoLetters.profile, behindProfile], ∀ place,
        ArtifactAt oneLetter.files letters p place →
        ∀ m ∈ letters, oneLetter.files.source? m ≠ some place)
      ∧ (∀ place, ¬(ArtifactAt oneLetter.files letters twoLetters.profile place
        ∧ ArtifactAt oneLetter.files letters behindProfile place))
      ∧ (visit net behindProfile letters oneLetter).1 = .ok (failed .noSuchFile)
      ∧ (visitAll net letters [twoLetters.profile, behindProfile] oneLetter).1[1]?
        = some (behindProfile, .ok (failed .notDirectory))
      ∧ failed .notDirectory ≠ failed .noSuchFile := by
  intro net letters failed
  refine ⟨fun _ _ _ => rfl, List.forall_mem_cons.2 ⟨fun place hplace => ?_,
      List.forall_mem_singleton.2 fun place hplace => absurd hplace (oneLetter_behind place)⟩,
    fun place h => oneLetter_behind place h.2, ?_, ?_, by decide⟩
  · refine List.forall_mem_singleton.2 ?_
    rw [oneLetter_source]
    rcases (oneLetter_fake place).1 hplace with h | h <;> simp [← h]
  · refine visit_behind (read_of_get (by decide) (by rfl) rfl) ?_
    rw [write_behind (stopAt_behind (by rfl) (by decide) (.inl rfl))]
    rfl
  · have hread : describedLetter.read ⟨"a.eml"⟩ = .ok [97] :=
      read_of_get (by decide) (by rfl) rfl
    have hfailed := visit_behind hread (write_behind (stopAt_behind (by rfl) (by decide)
      (.inr ⟨utf8 "(X)", by rfl⟩)) _)
    simp only [visitAll, net, letters, oneLetter_described]
    rw [List.getElem?_cons_succ, List.getElem?_cons_zero, hfailed]
    rfl

end Letters

end Visits

end ImapProbe
