import ImapProbe.Proofs.Folding
import ImapProbe.Session.Examination
import Mathlib.Data.List.TakeWhile

/-!
# What one message can come to

`Course` tells all that may happen to one message: what is asked of the server and what is written
to files, in order, with the answers, what comes of it, and the files before and after. An
examination takes such a course and does nothing else (`attempt_course`).
-/

namespace ImapProbe

structure Exchange where
  command : Command
  answer : Except Fault Response

/-- Answers as another responder does, and keeps what was said on both sides, in order. -/
def Responder.keepingExchanges {σ : Type} (via : Responder σ) : Responder (σ × List Exchange) where
  call c s :=
    let (answer, state) := via.call c s.1
    (answer, state, s.2 ++ [⟨c, answer⟩])

@[simp] theorem Responder.call_keepingExchanges {σ : Type} (via : Responder σ) (c : Command)
    (s : σ × List Exchange) :
    via.keepingExchanges.call c s
      = ((via.call c s.1).1, (via.call c s.1).2, s.2 ++ [⟨c, (via.call c s.1).1⟩]) := rfl

def onlyNumber (n : Nat) : String := toString n ++ ":" ++ toString n

def Description.request (n : UInt32) (d : Description) : Command :=
  .fetch (onlyNumber n.toNat) d.items

inductive Act where
  | asked (x : Exchange)
  | wrote (path : Path) (content : Bytes)

/-- What was said on both sides. -/
def exchanges (acts : List Act) : List Exchange :=
  acts.filterMap fun
    | .asked x => some x
    | .wrote .. => none

/-- The files that were written, with their contents. -/
def writings (acts : List Act) : List (Path × Bytes) :=
  acts.filterMap fun
    | .asked _ => none
    | .wrote path content => some (path, content)

section Acts

variable (x : Exchange) (path : Path) (content : Bytes) (acts acts' : List Act)

@[simp] theorem exchanges_nil : exchanges [] = [] := rfl

@[simp] theorem exchanges_asked : exchanges (.asked x :: acts) = x :: exchanges acts := rfl

@[simp] theorem exchanges_wrote : exchanges (.wrote path content :: acts) = exchanges acts := rfl

@[simp] theorem exchanges_append : exchanges (acts ++ acts') = exchanges acts ++ exchanges acts' :=
  List.filterMap_append

@[simp] theorem writings_nil : writings [] = [] := rfl

@[simp] theorem writings_asked : writings (.asked x :: acts) = writings acts := rfl

@[simp] theorem writings_wrote :
    writings (.wrote path content :: acts) = (path, content) :: writings acts := rfl

@[simp] theorem writings_append : writings (acts ++ acts') = writings acts ++ writings acts' :=
  List.filterMap_append

end Acts

section Courses

variable (p : Profile) (message : Path) (n : UInt32)

/-- What comes of the descriptions that are still to be asked for. -/
inductive Described : List Description → FileTree → List Act → Except ExaminationFault Unit →
    FileTree → Prop
  | done (t : FileTree) : Described [] t [] (.ok ()) t
  | fault {d : Description} {ds : List Description} {t : FileTree} {e : Fault} :
    Described (d :: ds) t [.asked ⟨d.request n, .error e⟩] (.error (.connection e)) t
  | refused {d : Description} {ds : List Description} {t : FileTree} {r : Response} :
    r.isGranted = false →
      Described (d :: ds) t [.asked ⟨d.request n, .ok r⟩]
        (.error (.problem (.fetch d) (.refused r.completion))) t
  | noData {d : Description} {ds : List Description} {t : FileTree} {r : Response} :
    r.isGranted = true → 40 ∉ folded (r.parts "FETCH") →
      Described (d :: ds) t [.asked ⟨d.request n, .ok r⟩]
        (.error (.problem (.fetch d) (.noData d))) t
  | unwritten {d : Description} {ds : List Description} {t : FileTree} {r : Response}
    {e : IoFault} :
    r.isGranted = true → 40 ∈ folded (r.parts "FETCH") →
      t.write (artifactFile message p.suffix d) (artifact (r.parts "FETCH")) = .error e →
      Described (d :: ds) t [.asked ⟨d.request n, .ok r⟩] (.error (.problem (.write d) (.io e))) t
  | written {d : Description} {ds : List Description} {t u t' : FileTree} {r : Response}
    {acts : List Act} {outcome : Except ExaminationFault Unit} :
    r.isGranted = true → 40 ∈ folded (r.parts "FETCH") →
      t.write (artifactFile message p.suffix d) (artifact (r.parts "FETCH")) = .ok u →
      Described ds u acts outcome t' →
      Described (d :: ds) t (.asked ⟨d.request n, .ok r⟩
        :: .wrote (artifactFile message p.suffix d) (artifact (r.parts "FETCH")) :: acts) outcome t'

/-- What comes of a message. -/
inductive Course : FileTree → List Act → Except ExaminationFault Unit → FileTree → Prop
  | unread {t : FileTree} {e : IoFault} :
    t.read message = .error e → Course t [] (.error (.problem .read (.io e))) t
  | fault {t : FileTree} {content : Bytes} {e : Fault} :
    t.read message = .ok content →
      Course t [.asked ⟨.append p.mailbox content, .error e⟩] (.error (.connection e)) t
  | refused {t : FileTree} {content : Bytes} {r : Response} :
    t.read message = .ok content → r.isGranted = false →
      Course t [.asked ⟨.append p.mailbox content, .ok r⟩]
        (.error (.problem .append (.refused r.completion))) t
  | accepted {t t' : FileTree} {content : Bytes} {r : Response} {acts : List Act}
    {outcome : Except ExaminationFault Unit} :
    t.read message = .ok content → r.isGranted = true →
      Described p message n Description.all t acts outcome t' →
      Course t (.asked ⟨.append p.mailbox content, .ok r⟩ :: acts) outcome t'

end Courses

section Steps

variable {p : Profile} {message : Path} {n : UInt32}

theorem Described.append {ds ds' : List Description} {t u t' : FileTree} {acts acts' : List Act}
    {done outcome : Except ExaminationFault Unit} (h : Described p message n ds t acts done u)
    (hd : done = .ok ()) (h' : Described p message n ds' u acts' outcome t') :
    Described p message n (ds ++ ds') t (acts ++ acts') outcome t' := by
  induction h with
  | done => exact h'
  | fault | refused | noData | unwritten => simp at hd
  | written hg hp hw _ ih => exact .written hg hp hw (ih hd h')

theorem Described.stop {ds : List Description} {t t' : FileTree} {acts : List Act}
    {outcome : Except ExaminationFault Unit} (h : Described p message n ds t acts outcome t')
    (ho : outcome ≠ .ok ()) (ds' : List Description) :
    Described p message n (ds ++ ds') t acts outcome t' := by
  induction h with
  | done => simp at ho
  | fault => exact .fault
  | refused hg => exact .refused hg
  | noData hg hp => exact .noData hg hp
  | unwritten hg hp hw => exact .unwritten hg hp hw
  | written hg hp hw _ ih => exact .written hg hp hw (ih ho)

/-- A message is asked about under one number, and nothing else is asked. -/
theorem Described.requests {ds : List Description} {t t' : FileTree} {acts : List Act}
    {outcome : Except ExaminationFault Unit} (h : Described p message n ds t acts outcome t') :
    ∀ x ∈ exchanges acts, ∃ d : Description, x.command = d.request n := by
  induction h with
  | done => simp
  | @fault d => exact List.forall_mem_singleton.2 ⟨d, rfl⟩
  | @refused d | @noData d | @unwritten d => exact List.forall_mem_singleton.2 ⟨d, rfl⟩
  | @written d _ _ _ _ _ _ _ _ _ _ _ ih =>
    simp only [exchanges_asked, exchanges_wrote, List.forall_mem_cons]
    exact ⟨⟨d, rfl⟩, ih⟩

variable {σ : Type} {via : Responder σ} {desk desk' : Desk (σ × List Exchange)}

theorem demand_exchange {c : Command} {step : Step} {r : Except ExaminationFault Response}
    (h : demand via.keepingExchanges c step desk = (r, desk')) :
    ∃ answer, desk'.server.2 = desk.server.2 ++ [⟨c, answer⟩] ∧ desk'.files = desk.files
      ∧ ((∃ e, answer = .error e ∧ r = .error (.connection e))
        ∨ ∃ given, answer = .ok given
          ∧ (given.isGranted = true ∧ r = .ok given
            ∨ given.isGranted = false
              ∧ r = .error (.problem step (.refused given.completion)))) := by
  simp only [demand, Responder.call_keepingExchanges] at h
  rcases ha : via.call c desk.server.1 with ⟨e | given, s⟩ <;> rw [ha] at h <;>
    simp only [Prod.mk.injEq] at h <;> obtain ⟨rfl, rfl⟩ := h
  · exact ⟨_, rfl, rfl, .inl ⟨e, rfl, rfl⟩⟩
  · refine ⟨_, rfl, rfl, .inr ⟨given, rfl, ?_⟩⟩
    rcases hg : given.isGranted
    · exact .inr ⟨rfl, by simp⟩
    · exact .inl ⟨rfl, by simp⟩

theorem describe_described {d : Description} {r : Except ExaminationFault Unit}
    (h : describe via.keepingExchanges p message n d desk = (r, desk')) :
    ∃ acts, desk'.server.2 = desk.server.2 ++ exchanges acts
      ∧ Described p message n [d] desk.files acts r desk'.files := by
  unfold describe at h
  simp only at h
  rcases hd : demand via.keepingExchanges (.fetch (toString n.toNat ++ ":" ++ toString n.toNat)
    d.items) (.fetch d) desk with ⟨e | given, desk₁⟩ <;> rw [hd] at h <;>
    obtain ⟨answer, hlog, hfiles, hr⟩ := demand_exchange hd <;> simp only at h
  · simp only [Prod.mk.injEq] at h
    obtain ⟨rfl, rfl⟩ := h
    refine ⟨[.asked ⟨d.request n, answer⟩], hlog, ?_⟩
    rw [hfiles]
    rcases hr with ⟨e, rfl, hr⟩ | ⟨given, rfl, ⟨-, hr⟩ | ⟨hg, hr⟩⟩ <;> simp at hr <;> subst hr
    · exact .fault
    · exact .refused hg
  · obtain ⟨rfl, hg⟩ : answer = .ok given ∧ given.isGranted = true := by
      rcases hr with ⟨e, -, hr⟩ | ⟨given', rfl, ⟨hg, hr⟩ | ⟨-, hr⟩⟩ <;> simp at hr
      exact ⟨by rw [hr], hr ▸ hg⟩
    rw [hfiles] at h
    split at h
    · rename_i hempty
      simp only [Prod.mk.injEq] at h
      obtain ⟨rfl, rfl⟩ := h
      rw [List.isEmpty_iff, artifact_eq_nil_iff] at hempty
      refine ⟨[.asked ⟨d.request n, .ok given⟩], hlog, ?_⟩
      rw [hfiles]
      exact .noData hg hempty
    · rename_i hfull
      rw [List.isEmpty_iff, artifact_eq_nil_iff, Decidable.not_not] at hfull
      split at h <;> rename_i hw <;> simp only [Prod.mk.injEq] at h <;> obtain ⟨rfl, rfl⟩ := h
      · refine ⟨[.asked ⟨d.request n, .ok given⟩], hlog, ?_⟩
        rw [hfiles]
        exact .unwritten hg hfull hw
      · exact ⟨[.asked ⟨d.request n, .ok given⟩, .wrote _ _], hlog,
          .written hg hfull hw (.done _)⟩

theorem describeAll_described :
    ∀ {ds : List Description} {desk : Desk (σ × List Exchange)} {r : Except ExaminationFault Unit},
      describeAll via.keepingExchanges p message n ds desk = (r, desk') →
      ∃ acts, desk'.server.2 = desk.server.2 ++ exchanges acts
        ∧ Described p message n ds desk.files acts r desk'.files
  | [], desk, r, h => by
    simp only [describeAll, Prod.mk.injEq] at h
    obtain ⟨rfl, rfl⟩ := h
    exact ⟨[], by simp, .done _⟩
  | d :: ds, desk, r, h => by
    simp only [describeAll] at h
    rcases hd : describe via.keepingExchanges p message n d desk with ⟨e | u, desk₁⟩ <;>
      rw [hd] at h <;> simp only at h <;> obtain ⟨acts, hlog, hacts⟩ := describe_described hd
    · simp only [Prod.mk.injEq] at h
      obtain ⟨rfl, rfl⟩ := h
      exact ⟨acts, hlog, hacts.stop (by simp) ds⟩
    · obtain ⟨acts', hlog', hacts'⟩ := describeAll_described h
      refine ⟨acts ++ acts', ?_, hacts.append rfl hacts'⟩
      rw [hlog', hlog, exchanges_append, List.append_assoc]

/-- An attempt at a message takes one of its courses, and asks nothing besides. -/
theorem attempt_course {index : Nat} {losses : Losses} {r : Except ExaminationFault Unit}
    (h : attempt via.keepingExchanges p index message losses desk = (r, desk')) :
    ∃ acts, desk'.server.2 = desk.server.2 ++ exchanges acts
      ∧ Course p message (losses.predict index) desk.files acts r desk'.files := by
  unfold attempt at h
  split at h <;> rename_i hread
  · simp only [Prod.mk.injEq] at h
    obtain ⟨rfl, rfl⟩ := h
    exact ⟨[], by simp, .unread hread⟩
  · rename_i content
    rcases hd : demand via.keepingExchanges (.append p.mailbox content) .append desk with
      ⟨e | given, desk₁⟩ <;> rw [hd] at h <;> simp only at h <;>
      obtain ⟨answer, hlog, hfiles, hr⟩ := demand_exchange hd
    · simp only [Prod.mk.injEq] at h
      obtain ⟨rfl, rfl⟩ := h
      refine ⟨[.asked _], hlog, ?_⟩
      rw [hfiles]
      rcases hr with ⟨e, rfl, hr⟩ | ⟨given, rfl, ⟨-, hr⟩ | ⟨hg, hr⟩⟩ <;> simp at hr <;> subst hr
      · exact .fault hread
      · exact .refused hread hg
    · obtain ⟨rfl, hg⟩ : answer = .ok given ∧ given.isGranted = true := by
        rcases hr with ⟨e, -, hr⟩ | ⟨given', rfl, ⟨hg, hr⟩ | ⟨-, hr⟩⟩ <;> simp at hr
        exact ⟨by rw [hr], hr ▸ hg⟩
      obtain ⟨acts, hlog', hacts⟩ := describeAll_described h
      refine ⟨.asked _ :: acts, ?_, .accepted hread hg (hfiles ▸ hacts)⟩
      rw [hlog', hlog, exchanges_asked, List.append_assoc]
      rfl

/-- What is made of the end of an attempt: only a fault of the connection is passed on, and any
other failure is recorded. -/
def concluded (index : Nat) (message : Path) (losses : Losses) :
    Except ExaminationFault Unit → Except Fault Bool × Losses
  | .ok () => (.ok true, losses)
  | .error (.connection e) => (.error e, losses)
  | .error (.problem step problem) =>
    (.ok false, losses.add ⟨message, index, step, problem.text step⟩)

theorem examine_course {index : Nat} {losses losses' : Losses} {outcome : Except Fault Bool}
    (h : examine via.keepingExchanges p index message losses desk = (outcome, losses', desk')) :
    ∃ acts r, desk'.server.2 = desk.server.2 ++ exchanges acts
      ∧ Course p message (losses.predict index) desk.files acts r desk'.files
      ∧ concluded index message losses r = (outcome, losses') := by
  unfold examine at h
  split at h <;> rename_i ha <;> obtain ⟨acts, hlog, hc⟩ := attempt_course ha <;>
    simp only [Prod.mk.injEq] at h <;> obtain ⟨rfl, rfl, rfl⟩ := h <;>
    exact ⟨acts, _, hlog, hc, rfl⟩

section Granted

variable {s s₁ s₂ s₃ : σ} {t t₁ t₂ : FileTree}

/-- A description that is granted and can be written. -/
theorem describe_of_call {d : Description} {r : Response} {octets : Bytes}
    (hcall : via.call (d.request n) s = (.ok r, s₁)) (hgranted : r.isGranted)
    (hoctets : artifact (r.parts "FETCH") = octets) (hne : octets ≠ [])
    (hwrite : t.write (artifactFile message p.suffix d) octets = .ok t₁) :
    describe via p message n d ⟨s, t⟩ = (.ok (), ⟨s₁, t₁⟩) := by
  rw [Description.request, onlyNumber] at hcall
  simp only [describe, demand, hcall, hgranted, if_true, hoctets, hwrite,
    List.isEmpty_eq_false_iff.2 hne, Bool.false_eq_true, if_false]

/-- A message that is granted, and so are both its descriptions. -/
theorem examine_of_calls {index : Nat} {losses : Losses} {content : Bytes} {r : Response}
    (hread : t.read message = .ok content)
    (hcall : via.call (.append p.mailbox content) s = (.ok r, s₁)) (hgranted : r.isGranted)
    (hbody : describe via p message (losses.predict index) .body ⟨s₁, t⟩ = (.ok (), ⟨s₂, t₁⟩))
    (hstructure : describe via p message (losses.predict index) .bodyStructure ⟨s₂, t₁⟩
      = (.ok (), ⟨s₃, t₂⟩)) :
    examine via p index message losses ⟨s, t⟩ = (.ok true, losses, ⟨s₃, t₂⟩) := by
  have happend : demand via (.append p.mailbox content) .append ⟨s, t⟩ = (.ok r, ⟨s₁, t⟩) := by
    simp only [demand, hcall, hgranted, if_true]
  simp only [examine, attempt, hread, happend, Description.all, describeAll, hbody, hstructure]

end Granted

end Steps

end ImapProbe
