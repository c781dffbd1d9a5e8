import ImapProbe.Proofs.Session.Recording
import ImapProbe.Proofs.Session.Tally
import ImapProbe.Proofs.Storage.Strewn

/-!
# The steps of an examination

A message is read, appended, and fetched and written once for each description. A course does these
steps in order, up to the first that fails: it asks what the steps up to that one ask, writes what
the steps before it write, and ends with what that step met (`Course.steps`). An examination tells
no more of it than one failure, and none when the connection failed (`examine_steps`).
-/

namespace ImapProbe

/-- What is done for a description, in order. -/
def Description.steps (d : Description) : List Step := [.fetch d, .write d]

/-- The steps of an examination, in order. -/
def Step.all : List Step := .read :: .append :: Description.all.flatMap Description.steps

section Acts

variable (p : Profile) (message : Path) (n : UInt32) (t : FileTree)

/-- What a step asks of the server. -/
def Step.command? : Step → Option Command
  | .append => (t.read message).toOption.map (.append p.mailbox)
  | .fetch d => some (d.request n)
  | .read | .write _ => none

/-- The file that a step writes. -/
def Step.file? : Step → Option Path
  | .write d => some (artifactFile message p.suffix d)
  | .read | .append | .fetch _ => none

/-- A step came to its end. -/
def Step.Done (acts : List Act) : Step → Prop
  | .read => ∃ content, t.read message = .ok content
  | .append => ∃ content r, t.read message = .ok content
      ∧ ⟨.append p.mailbox content, .ok r⟩ ∈ exchanges acts ∧ r.isGranted
  | .fetch d => ∃ r, ⟨d.request n, .ok r⟩ ∈ exchanges acts ∧ r.isGranted
      ∧ 40 ∈ folded (r.parts "FETCH")
  | .write d => Recorded p message n acts d

/-- Steps were done, and one more was begun at most; nothing else was asked or written. -/
structure Passed (acts : List Act) (done : List Step) (begun : Option Step) : Prop where
  all : ∀ s ∈ done, s.Done p message n t acts
  commands : (exchanges acts).map (·.command)
    = (done ++ begun.toList).filterMap (Step.command? p message n t)
  files : (writings acts).map (·.1) = done.filterMap (Step.file? p message)

/-- What a step met that was not done, when the files were as `t'` has them. -/
inductive Met (acts : List Act) (t' : FileTree) : Step → ExaminationFault → Prop
  | unread {e : IoFault} : t'.read message = .error e → Met acts t' .read (.problem .read (.io e))
  | cut {s : Step} {c : Command} {e : Fault} : s.command? p message n t = some c →
    ⟨c, .error e⟩ ∈ exchanges acts → Met acts t' s (.connection e)
  | refused {s : Step} {c : Command} {r : Response} : s.command? p message n t = some c →
    ⟨c, .ok r⟩ ∈ exchanges acts → r.isGranted = false →
      Met acts t' s (.problem s (.refused r.completion))
  | noData {d : Description} {r : Response} : ⟨d.request n, .ok r⟩ ∈ exchanges acts →
    r.isGranted → 40 ∉ folded (r.parts "FETCH") →
      Met acts t' (.fetch d) (.problem (.fetch d) (.noData d))
  | unwritten {d : Description} {r : Response} {e : IoFault} :
    ⟨d.request n, .ok r⟩ ∈ exchanges acts → r.isGranted → 40 ∈ folded (r.parts "FETCH") →
      t'.write (artifactFile message p.suffix d) (artifact (r.parts "FETCH")) = .error e →
      Met acts t' (.write d) (.problem (.write d) (.io e))

/-- Steps were taken in order, all of them or up to the first that was not done. -/
def Taken (steps : List Step) (acts : List Act) (r : Except ExaminationFault Unit)
    (t' : FileTree) : Prop :=
  r = .ok () ∧ Passed p message n t acts steps none
    ∨ ∃ done s left fault, steps = done ++ s :: left ∧ r = .error fault
      ∧ Passed p message n t acts done (some s) ∧ Met p message n t acts t' s fault

end Acts

section Courses

variable {p : Profile} {message : Path} {n : UInt32} {t u t' : FileTree} {acts acts' : List Act}
  {r : Except ExaminationFault Unit}

theorem exchanges_subset (h : acts ⊆ acts') : exchanges acts ⊆ exchanges acts' :=
  List.filterMap_subset _ h

theorem writings_subset (h : acts ⊆ acts') : writings acts ⊆ writings acts' :=
  List.filterMap_subset _ h

theorem Step.Done.mono {s : Step} (h : s.Done p message n t acts) (hsub : acts ⊆ acts') :
    s.Done p message n t acts' := by
  cases s with
  | read => exact h
  | append =>
    obtain ⟨content, r, hread, hx, hg⟩ := h
    exact ⟨content, r, hread, exchanges_subset hsub hx, hg⟩
  | fetch d =>
    obtain ⟨r, hx, hg, hp⟩ := h
    exact ⟨r, exchanges_subset hsub hx, hg, hp⟩
  | write d =>
    obtain ⟨r, hx, hg, hp, hw⟩ := h
    exact ⟨r, exchanges_subset hsub hx, hg, hp, writings_subset hsub hw⟩

theorem Met.mono {s : Step} {fault : ExaminationFault} (h : Met p message n t acts t' s fault)
    (hsub : acts ⊆ acts') : Met p message n t acts' t' s fault := by
  cases h with
  | unread he => exact .unread he
  | cut hc hx => exact .cut hc (exchanges_subset hsub hx)
  | refused hc hx hg => exact .refused hc (exchanges_subset hsub hx) hg
  | noData hx hg hp => exact .noData (exchanges_subset hsub hx) hg hp
  | unwritten hx hg hp hw => exact .unwritten (exchanges_subset hsub hx) hg hp hw

theorem Passed.append {done done' : List Step} {begun : Option Step}
    (h : Passed p message n t acts done none) (h' : Passed p message n t acts' done' begun) :
    Passed p message n t (acts ++ acts') (done ++ done') begun := by
  refine ⟨fun s hs => ?_, ?_, ?_⟩
  · rcases List.mem_append.1 hs with hs | hs
    · exact (h.all s hs).mono (List.subset_append_left _ _)
    · exact (h'.all s hs).mono (List.subset_append_right _ _)
  · have hc := h.commands
    rw [Option.toList_none, List.append_nil] at hc
    rw [exchanges_append, List.map_append, hc, h'.commands, List.append_assoc,
      List.filterMap_append (l := done)]
  · rw [writings_append, List.map_append, h.files, h'.files, List.filterMap_append]

/-- Steps that were done are followed by what comes of the others. -/
theorem Passed.taken {done steps : List Step} (h : Passed p message n t acts done none)
    (h' : Taken p message n t steps acts' r t') :
    Taken p message n t (done ++ steps) (acts ++ acts') r t' := by
  rcases h' with ⟨hr, hp⟩ | ⟨done', s, left, fault, rfl, hr, hp, hm⟩
  · exact .inl ⟨hr, h.append hp⟩
  · exact .inr ⟨done ++ done', s, left, fault, by rw [List.append_assoc], hr, h.append hp,
      hm.mono (List.subset_append_right _ _)⟩

/-- The first step is not done, and nothing follows it. -/
theorem Taken.first {s : Step} {left : List Step} {fault : ExaminationFault}
    (hp : Passed p message n t acts [] (some s)) (hm : Met p message n t acts t' s fault) :
    Taken p message n t (s :: left) acts (.error fault) t' :=
  .inr ⟨[], s, left, fault, rfl, rfl, hp, hm⟩

theorem passed_asked {x : Exchange} {s : Step} (hc : s.command? p message n t = some x.command) :
    Passed p message n t [.asked x] [] (some s) :=
  ⟨by simp, by simp [hc], rfl⟩

/-- A description was asked for, and its answer holds data. -/
theorem passed_fetch {d : Description} {given : Response} (hg : given.isGranted)
    (hd : 40 ∈ folded (given.parts "FETCH")) :
    Passed p message n t [.asked ⟨d.request n, .ok given⟩] [.fetch d] none :=
  ⟨List.forall_mem_singleton.2 ⟨given, List.mem_cons_self, hg, hd⟩, rfl, rfl⟩

theorem Described.steps {ds : List Description} (h : Described p message n ds t acts r t')
    (t₀ : FileTree) : Taken p message n t₀ (ds.flatMap Description.steps) acts r t' := by
  induction h with
  | done => exact .inl ⟨rfl, by simp, rfl, rfl⟩
  | fault => exact .first (passed_asked rfl) (.cut rfl List.mem_cons_self)
  | refused hg => exact .first (passed_asked rfl) (.refused rfl List.mem_cons_self hg)
  | noData hg hd => exact .first (passed_asked rfl) (.noData List.mem_cons_self hg hd)
  | unwritten hg hd hw =>
    refine .inr ⟨[_], _, _, _, rfl, rfl, ?_, .unwritten List.mem_cons_self hg hd hw⟩
    exact ⟨(passed_fetch hg hd).all, rfl, rfl⟩
  | @written d ds t u t' given acts outcome hg hd hw _ ih =>
    have hpassed : Passed p message n t₀ [.asked ⟨d.request n, .ok given⟩,
        .wrote (artifactFile message p.suffix d) (artifact (given.parts "FETCH"))]
        d.steps none := by
      refine ⟨List.forall_mem_cons.2 ⟨?_, List.forall_mem_singleton.2 ?_⟩, rfl, rfl⟩
      · exact ⟨given, List.mem_cons_self, hg, hd⟩
      · exact ⟨given, List.mem_cons_self, hg, hd, List.mem_cons_self⟩
    exact hpassed.taken ih

section Appending

variable {content : Bytes} (hread : t.read message = .ok content)

include hread

theorem command?_append :
    Step.append.command? p message n t = some (.append p.mailbox content) := by
  rw [Step.command?, hread]
  rfl

theorem commands_append : [Step.read, .append].filterMap (Step.command? p message n t)
    = [.append p.mailbox content] := by
  rw [List.filterMap_cons_none rfl, List.filterMap_cons_some (command?_append hread),
    List.filterMap_nil]

theorem Taken.appending {answer : Except Fault Response} {fault : ExaminationFault}
    (hm : Met p message n t [.asked ⟨.append p.mailbox content, answer⟩] t' .append fault) :
    Taken p message n t Step.all [.asked ⟨.append p.mailbox content, answer⟩] (.error fault)
      t' := by
  refine .inr ⟨[.read], .append, _, _, rfl, rfl, ?_, hm⟩
  exact ⟨List.forall_mem_singleton.2 ⟨content, hread⟩, (commands_append hread).symm, rfl⟩

theorem passed_append {given : Response} (hg : given.isGranted) :
    Passed p message n t [.asked ⟨.append p.mailbox content, .ok given⟩] [.read, .append] none := by
  refine ⟨List.forall_mem_cons.2 ⟨⟨content, hread⟩, List.forall_mem_singleton.2 ?_⟩,
    (commands_append hread).symm, rfl⟩
  exact ⟨content, given, hread, List.mem_cons_self, hg⟩

end Appending

/-- A course takes the steps of an examination in order, and nothing passes besides. -/
theorem Course.steps (h : Course p message n t acts r t') :
    Taken p message n t Step.all acts r t' := by
  cases h with
  | unread he => exact .first ⟨by simp, rfl, rfl⟩ (.unread he)
  | fault hread => exact .appending hread (.cut (command?_append hread) List.mem_cons_self)
  | refused hread hg =>
    exact .appending hread (.refused (command?_append hread) List.mem_cons_self hg)
  | accepted hread hg hd => exact (passed_append hread hg).taken (hd.steps t)

end Courses

section Files

open FileTree

variable {p : Profile} {message : Path} {n : UInt32} {t t' : FileTree} {acts : List Act}
  {r : Except ExaminationFault Unit}

theorem Taken.files {steps : List Step} (h : Taken p message n t steps acts r t') :
    (writings acts).map (·.1) <+: steps.filterMap (Step.file? p message) := by
  rcases h with ⟨-, hp⟩ | ⟨done, s, left, fault, rfl, -, hp, -⟩
  · exact hp.files ▸ List.prefix_rfl
  · rw [hp.files, List.filterMap_append]
    exact List.prefix_append _ _

theorem Taken.writings_cases (h : Taken p message n t Step.all acts r t') :
    writings acts = [] ∨ ∃ content, writings acts = [(artifactFile message p.suffix .body, content)]
      ∨ ∃ content', writings acts = [(artifactFile message p.suffix .body, content),
        (artifactFile message p.suffix .bodyStructure, content')] := by
  have hfiles : (writings acts).map (·.1)
      <+: [artifactFile message p.suffix .body, artifactFile message p.suffix .bodyStructure] :=
    h.files
  generalize writings acts = ws at hfiles
  rcases ws with _ | ⟨⟨path, content⟩, _ | ⟨⟨path', content'⟩, _ | ⟨w, ws⟩⟩⟩
  · exact .inl rfl
  · obtain ⟨rfl, -⟩ := List.cons_prefix_cons.1 hfiles
    exact .inr ⟨content, .inl rfl⟩
  · obtain ⟨rfl, hrest⟩ := List.cons_prefix_cons.1 hfiles
    obtain ⟨rfl, -⟩ := List.cons_prefix_cons.1 hrest
    exact .inr ⟨content, .inr ⟨content', rfl⟩⟩
  · exact absurd hfiles.length_le (by simp)

/-- An artifact that was written holds what was written, unless the other one was written behind it
to the same place. -/
theorem Taken.read_artifact (h : Taken p message n t Step.all acts r t')
    (hw : Written (writings acts) t t') {d : Description} {content : Bytes}
    (hmem : (artifactFile message p.suffix d, content) ∈ writings acts) :
    t'.read (artifactFile message p.suffix d) = .ok content
      ∨ d = .body ∧ ∃ content', (artifactFile message p.suffix .bodyStructure, content')
          ∈ writings acts
        ∧ t.target? (artifactFile message p.suffix .bodyStructure)
          = t.target? (artifactFile message p.suffix .body)
        ∧ t'.read (artifactFile message p.suffix .body) = .ok content' := by
  obtain ⟨place, last, htarget, hlast, hread⟩ := hw.read_eq hmem
  have hone : ∀ w : Path × Bytes, t.lastAt? place [w]
      = if t.target? w.1 = some place then some w.2 else none := fun w => by
    rw [lastAt?_cons]
    rfl
  rcases h.writings_cases with hws | ⟨first, hws | ⟨second, hws⟩⟩ <;> rw [hws] at hmem hlast
  · simp at hmem
  · obtain ⟨hd, rfl⟩ := Prod.mk.inj (List.mem_singleton.1 hmem)
    rw [hone, ← hd, if_pos htarget] at hlast
    exact .inl (hread.trans (congrArg _ (Option.some.inj hlast).symm))
  · rw [lastAt?_cons, hone] at hlast
    rcases List.mem_cons.1 hmem with he | he
    · obtain ⟨hd, rfl⟩ := Prod.mk.inj he
      obtain rfl := artifactFile_injective message p.suffix hd
      by_cases hsame : t.target? (artifactFile message p.suffix .bodyStructure) = some place
      · rw [if_pos hsame] at hlast
        obtain rfl : second = last := Option.some.inj hlast
        exact .inr ⟨rfl, second, by simp [hws], hsame.trans htarget.symm, hread⟩
      · rw [if_neg hsame, if_pos htarget] at hlast
        exact .inl (hread.trans (congrArg _ (Option.some.inj hlast).symm))
    · obtain ⟨hd, rfl⟩ := Prod.mk.inj (List.mem_singleton.1 he)
      rw [← hd, if_pos htarget] at hlast
      exact .inl (hread.trans (congrArg _ (Option.some.inj hlast).symm))

end Files

section Examinations

variable {σ : Type} (via : Responder σ) (p : Profile) (index : Nat) (message : Path)
  (losses : Losses) (desk : Desk σ)

/-- What is said in an examination. -/
def Responder.saidAbout : List Exchange :=
  (examine via.keepingExchanges p index message losses ⟨(desk.server, []), desk.files⟩).2.2.server.2

theorem examine_acts :
    ∃ acts r, via.saidAbout p index message losses desk = exchanges acts
      ∧ Course p message (losses.predict index) desk.files acts r
        (examine via p index message losses desk).2.2.files
      ∧ concluded index message losses r = ((examine via p index message losses desk).1,
        (examine via p index message losses desk).2.1) := by
  have hfollows : via.Follows Prod.fst via.keepingExchanges := fun _ _ => rfl
  have hmap := examine_map hfollows.resembles p message ⟨(desk.server, []), desk.files⟩ index losses
  obtain ⟨acts, r, hsaid, hc, hr⟩ := examine_course
    (show examine via.keepingExchanges p index message losses ⟨(desk.server, []), desk.files⟩
      = (_, _, _) from rfl)
  rw [show desk = Desk.map Prod.fst ⟨(desk.server, ([] : List Exchange)), desk.files⟩ from rfl,
    hmap]
  exact ⟨acts, r, hsaid, hc, hr⟩

/-- An examination takes its steps in order: all of them, up to one that is told as a failure of the
message, or up to one at which the connection failed. Nothing is asked behind that step, and
nothing written by it; no file is changed but where the artifacts of the message go, and these hold
what the server said. -/
theorem examine_steps :
    ∃ acts r losses' desk', examine via p index message losses desk = (r, losses', desk')
      ∧ via.saidAbout p index message losses desk = exchanges acts
      ∧ (r = .ok true ∧ losses' = losses
          ∧ Passed p message (losses.predict index) desk.files acts Step.all none
        ∨ ∃ done s left, Step.all = done ++ s :: left
          ∧ Passed p message (losses.predict index) desk.files acts done (some s)
          ∧ ((∃ problem, r = .ok false
              ∧ losses' = losses.add ⟨message, index, s, problem.text s⟩
              ∧ Met p message (losses.predict index) desk.files acts desk'.files s
                (.problem s problem))
            ∨ ∃ fault, r = .error fault ∧ losses' = losses
              ∧ Met p message (losses.predict index) desk.files acts desk'.files s
                (.connection fault)))
      ∧ (∀ place, (∀ d, desk.files.target? (artifactFile message p.suffix d) ≠ some place) →
        desk'.files.get? place = desk.files.get? place)
      ∧ ∀ d content, (artifactFile message p.suffix d, content) ∈ writings acts →
        desk'.files.read (artifactFile message p.suffix d) = .ok content
          ∨ d = .body ∧ ∃ content',
            (artifactFile message p.suffix .bodyStructure, content') ∈ writings acts
              ∧ desk.files.target? (artifactFile message p.suffix .bodyStructure)
                = desk.files.target? (artifactFile message p.suffix .body)
              ∧ desk'.files.read (artifactFile message p.suffix .body) = .ok content' := by
  obtain ⟨acts, r, hsaid, hc, hr⟩ := examine_acts via p index message losses desk
  have htaken := hc.steps
  refine ⟨acts, _, _, _, rfl, hsaid, ?_, fun place hplace => ?_, fun d content =>
    htaken.read_artifact hc.written_chain⟩
  · rcases htaken with ⟨rfl, hp⟩ | ⟨done, s, left, fault, hall, rfl, hp, hm⟩
    · obtain ⟨he, hl⟩ := Prod.mk.inj hr
      exact .inl ⟨he.symm, hl.symm, hp⟩
    · refine .inr ⟨done, s, left, hall, hp, ?_⟩
      rcases fault with ⟨step, problem⟩ | fault <;> obtain ⟨he, hl⟩ := Prod.mk.inj hr
      · obtain rfl : step = s := by cases hm <;> rfl
        exact .inl ⟨problem, he.symm, hl.symm, hm⟩
      · exact .inr ⟨fault, he.symm, hl.symm, hm⟩
  · refine hc.written_chain.strewn.get? ?_
    rintro ⟨w, hw, hat⟩
    obtain ⟨d, _, _, rfl, -⟩ := hc.artifacts w hw
    exact hplace d hat

section Linked

/-- A letter whose second artifact is a link to the first. -/
def linkedLetter : FileTree :=
  ⟨[(["a.eml"], .file [97]), (["a.fake.body"], .file (utf8 "old")),
    (["a.fake.bodystructure"], .link "a.fake.body")]⟩

def saying (line : String) : Response := ⟨⟨.ok, "done"⟩, [⟨"FETCH", [.line (utf8 line)]⟩]⟩

theorem linkedLetter_stopAt :
    linkedLetter.stopAt .write "a.fake.body" = .ok (["a.fake.body"], some [])
      ∧ linkedLetter.stopAt .write "a.fake.bodystructure" = .ok (["a.fake.body"], some []) := by
  have hbody : ∀ links, linkedLetter.stop .write links [] ["a.fake.body"]
      = .ok (["a.fake.body"], some []) := fun links =>
    FileTree.stop_eq_of_free (by decide) (by decide) (by decide) (by decide) (.inr ⟨_, rfl⟩)
  have hlink : linkedLetter.get? ([] ++ ["a.fake.bodystructure"])
      = some (.link "a.fake.body") := rfl
  refine ⟨hbody 40, ?_⟩
  rw [show linkedLetter.stopAt .write "a.fake.bodystructure"
    = linkedLetter.stop .write 40 [] ["a.fake.bodystructure"] from rfl,
    FileTree.stop_eq_of_link (by decide) (by decide) (by decide) (by decide) hlink]
  exact hbody 39

/-- Where the second artifact is a link to the first, the first holds what was said for the second,
though nothing failed. -/
theorem linkedLetter_overwritten :
    let answers := [.ok ⟨⟨.ok, "done"⟩, []⟩, .ok (saying "1 FETCH (BODY (X))"),
      .ok (saying "1 FETCH (BODYSTRUCTURE (X))")]
    let e := examine .ofAnswers twoLetters.profile 0 ⟨"a.eml"⟩ {} ⟨answers, linkedLetter⟩
    e.1 = .ok true ∧ e.2.1 = {}
      ∧ artifact ((saying "1 FETCH (BODY (X))").parts "FETCH") = utf8 "(BODY (X))"
      ∧ e.2.2.files.read (artifactFile ⟨"a.eml"⟩ twoLetters.profile.suffix .body)
        = .ok (utf8 "(BODYSTRUCTURE (X))") := by
  intro answers e
  have hread : linkedLetter.read ⟨"a.eml"⟩ = .ok [97] :=
    FileTree.read_of_get (by decide) (by rfl) rfl
  have hbodyline : artifact ((saying "1 FETCH (BODY (X))").parts "FETCH") = utf8 "(BODY (X))" := by
    decide
  have hstructureline : artifact ((saying "1 FETCH (BODYSTRUCTURE (X))").parts "FETCH")
      = utf8 "(BODYSTRUCTURE (X))" := by decide
  let written (content : Bytes) (t : FileTree) : FileTree := t.set ["a.fake.body"] (.file content)
  have hbody : linkedLetter.write ⟨"a.fake.body"⟩ (utf8 "(BODY (X))")
      = .ok (written (utf8 "(BODY (X))") linkedLetter) :=
    FileTree.write_of_stops linkedLetter_stopAt.1
  have hstops : (written (utf8 "(BODY (X))") linkedLetter).stopAt .write "a.fake.bodystructure"
      = .ok (["a.fake.body"], some []) := by
    rw [FileTree.stopAt_congr (FileTree.stopAt_free linkedLetter_stopAt.1).sameWays]
    exact linkedLetter_stopAt.2
  have hstructure := @FileTree.write_of_stops _ _ (utf8 "(BODYSTRUCTURE (X))")
    ⟨"a.fake.bodystructure"⟩ hstops
  rw [← twoLetters_artifacts.1] at hbody
  rw [← twoLetters_artifacts.2] at hstructure
  have he : e = (.ok true, {}, ⟨[], written (utf8 "(BODYSTRUCTURE (X))")
      (written (utf8 "(BODY (X))") linkedLetter)⟩) :=
    examine_of_calls hread rfl rfl (describe_of_call rfl rfl hbodyline (by decide) hbody)
      (describe_of_call rfl rfl hstructureline (by decide) hstructure)
  rw [he, twoLetters_artifacts.1]
  exact ⟨rfl, rfl, hbodyline, FileTree.read_of_get (by decide) (by rfl) rfl⟩

end Linked

end Examinations

end ImapProbe
