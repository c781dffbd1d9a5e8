import ImapProbe.Proofs.Session.Course
import ImapProbe.Session.Basic

/-!
# What a session can come to

A session opens, reviews its messages one after another, and takes leave. `Conversed` tells all that
may pass in it, by what the server answers and what the files allow, and what the outcome is then.
Nothing else passes in a session (`converse_conversed`).
-/

namespace ImapProbe

/-- What an exchange ends a session with: its fault, or the refusal of a command that has to be
granted. -/
def Exchange.fault? (x : Exchange) : Option SessionFault :=
  match x.answer with
  | .error e => some (.connectionLost e)
  | .ok r =>
    if r.isGranted then none
    else match x.command with
      | .login .. => some (.loginRefused r.completion)
      | .create mailbox => some (.mailboxRefused .create mailbox r.completion)
      | .select mailbox => some (.mailboxRefused .select mailbox r.completion)
      | _ => none

/-- What a session asks for before the first message. -/
def Profile.opening (p : Profile) : List Command :=
  [.login p.user p.password, .delete p.mailbox, .create p.mailbox, .select p.mailbox]

/-- Commands are given in order, up to the first exchange that ends the session. -/
inductive Opened : List Command → List Exchange → Option SessionFault → Prop
  | all : Opened [] [] none
  | stopped {c : Command} {cs : List Command} {answer : Except Fault Response} {f : SessionFault} :
    Exchange.fault? ⟨c, answer⟩ = some f → Opened (c :: cs) [⟨c, answer⟩] (some f)
  | next {c : Command} {cs : List Command} {answer : Except Fault Response} {xs : List Exchange}
    {fault : Option SessionFault} :
    Exchange.fault? ⟨c, answer⟩ = none → Opened cs xs fault →
      Opened (c :: cs) (⟨c, answer⟩ :: xs) fault

/-- What comes of messages, the first of them at a place in the corpus: each takes its course, with
a number predicted from the losses before it, up to a fault of the connection. -/
inductive Reviewed (p : Profile) : Nat → Nat → Losses → List Path → FileTree → List (List Act) →
    Except Fault (Nat × Losses) → FileTree → Prop
  | done {index described : Nat} {losses : Losses} {t : FileTree} :
    Reviewed p index described losses [] t [] (.ok (described, losses)) t
  | cut {index described : Nat} {losses : Losses} {message : Path} {rest : List Path}
    {t t' : FileTree} {acts : List Act} {e : Fault} :
    Course p message (losses.predict index) t acts (.error (.connection e)) t' →
      Reviewed p index described losses (message :: rest) t [acts] (.error e) t'
  | lost {index described : Nat} {losses : Losses} {message : Path} {rest : List Path}
    {t u t' : FileTree} {acts : List Act} {step : Step} {problem : Problem}
    {blocks : List (List Act)} {outcome : Except Fault (Nat × Losses)} :
    Course p message (losses.predict index) t acts (.error (.problem step problem)) u →
      Reviewed p (index + 1) described (losses.add ⟨message, index, step, problem.text step⟩) rest
        u blocks outcome t' →
      Reviewed p index described losses (message :: rest) t (acts :: blocks) outcome t'
  | described {index described : Nat} {losses : Losses} {message : Path} {rest : List Path}
    {t u t' : FileTree} {acts : List Act} {blocks : List (List Act)}
    {outcome : Except Fault (Nat × Losses)} :
    Course p message (losses.predict index) t acts (.ok ()) u →
      Reviewed p (index + 1) (described + 1) losses rest u blocks outcome t' →
      Reviewed p index described losses (message :: rest) t (acts :: blocks) outcome t'

/-- What passes in a session: how it opens, what is done about each message, and how it takes
leave. -/
inductive Conversed (p : Profile) (corpus : List Path) (t : FileTree) :
    List Exchange → List (List Act) → List Exchange → Except SessionFault Report → FileTree → Prop
  | stopped {opening : List Exchange} {f : SessionFault} (bye : Except Fault Response) :
    Opened p.opening opening (some f) →
      Conversed p corpus t opening [] [⟨.logout, bye⟩] (.error f) t
  | cut {opening : List Exchange} {blocks : List (List Act)} {e : Fault} {t' : FileTree}
    (closed bye : Except Fault Response) :
    Opened p.opening opening none → Reviewed p 0 0 {} corpus t blocks (.error e) t' →
      Conversed p corpus t opening blocks [⟨.close, closed⟩, ⟨.logout, bye⟩]
        (.error (.connectionLost e)) t'
  | done {opening : List Exchange} {blocks : List (List Act)} {described : Nat} {losses : Losses}
    {t' : FileTree} (closed bye : Except Fault Response) :
    Opened p.opening opening none →
      Reviewed p 0 0 {} corpus t blocks (.ok (described, losses)) t' →
      Conversed p corpus t opening blocks [⟨.close, closed⟩, ⟨.logout, bye⟩]
        (.ok ⟨p.id, corpus.length, described, losses.failures⟩) t'

section Steps

variable {σ : Type} {via : Responder σ}

theorem examineFrom_reviewed {p : Profile} :
    ∀ {corpus : List Path} {index described : Nat} {losses : Losses}
      {desk desk' : Desk (σ × List Exchange)} {r : Except Fault (Nat × Losses)},
      Session.examineFrom via.keepingExchanges p index described losses corpus desk = (r, desk') →
      ∃ blocks, desk'.server.2 = desk.server.2 ++ exchanges blocks.flatten
        ∧ Reviewed p index described losses corpus desk.files blocks r desk'.files
  | [], index, described, losses, desk, desk', r, h => by
    simp only [Session.examineFrom, Prod.mk.injEq] at h
    obtain ⟨rfl, rfl⟩ := h
    exact ⟨[], by simp, .done⟩
  | message :: rest, index, described, losses, desk, desk', r, h => by
    rcases he : examine via.keepingExchanges p index message losses desk with
      ⟨outcome, losses', desk₁⟩
    obtain ⟨acts, done, hlog, hc, hv⟩ := examine_course he
    simp only [Session.examineFrom, he] at h
    rcases done with (⟨step, problem⟩ | e) | u <;> simp only [concluded, Prod.mk.injEq] at hv <;>
      obtain ⟨rfl, rfl⟩ := hv <;> simp only at h
    · obtain ⟨blocks, hlog', hr⟩ := examineFrom_reviewed h
      exact ⟨acts :: blocks, by rw [hlog', hlog]; simp, .lost hc hr⟩
    · simp only [Prod.mk.injEq] at h
      obtain ⟨rfl, rfl⟩ := h
      exact ⟨[acts], by simpa using hlog, .cut hc⟩
    · obtain ⟨blocks, hlog', hr⟩ := examineFrom_reviewed h
      exact ⟨acts :: blocks, by rw [hlog', hlog]; simp, .described hc hr⟩

theorem Opened.append {cs cs' : List Command} {xs xs' : List Exchange}
    {before fault : Option SessionFault} (h : Opened cs xs before) (hb : before = none)
    (h' : Opened cs' xs' fault) : Opened (cs ++ cs') (xs ++ xs') fault := by
  induction h with
  | all => exact h'
  | stopped => simp at hb
  | next hn _ ih => exact .next hn (ih hb)

theorem Opened.stop {cs : List Command} {xs : List Exchange} {fault : Option SessionFault}
    (h : Opened cs xs fault) (hf : fault ≠ none) (cs' : List Command) :
    Opened (cs ++ cs') xs fault := by
  induction h with
  | all => simp at hf
  | stopped hs => exact .stopped hs
  | next hn _ ih => exact .next hn (ih hf)

namespace Session

variable {s s₁ s' : Session (σ × List Exchange)} {r : Except SessionFault Unit}

/-- A session gives commands in order, up to the first exchange that ends it, and nothing else of
it changes. -/
def Opens (cs : List Command) (s : Session (σ × List Exchange)) (r : Except SessionFault Unit)
    (s' : Session (σ × List Exchange)) : Prop :=
  ∃ xs server, s' = { s with server := (server, s.server.2 ++ xs) }
    ∧ (r = .ok () ∧ Opened cs xs none ∨ ∃ f, r = .error f ∧ Opened cs xs (some f))

theorem Opens.profile {cs : List Command} (h : s.Opens cs r s') : s'.profile = s.profile := by
  obtain ⟨_, _, rfl, -⟩ := h
  rfl

theorem Opens.selected {cs : List Command} (h : s.Opens cs r s') : s'.selected = s.selected := by
  obtain ⟨_, _, rfl, -⟩ := h
  rfl

theorem Opens.append {cs cs' : List Command} (h : s.Opens cs (.ok ()) s₁)
    (h' : s₁.Opens cs' r s') : s.Opens (cs ++ cs') r s' := by
  obtain ⟨xs, server, rfl, ⟨-, ho⟩ | ⟨f, hf, -⟩⟩ := h
  · obtain ⟨xs', server', rfl, ho'⟩ := h'
    refine ⟨xs ++ xs', server', by simp only [List.append_assoc], ?_⟩
    rcases ho' with ⟨hr, ho'⟩ | ⟨f, hr, ho'⟩
    · exact .inl ⟨hr, ho.append rfl ho'⟩
    · exact .inr ⟨f, hr, ho.append rfl ho'⟩
  · simp at hf

theorem Opens.stop {cs : List Command} {f : SessionFault} (h : s.Opens cs (.error f) s')
    (cs' : List Command) : s.Opens (cs ++ cs') (.error f) s' := by
  obtain ⟨xs, server, rfl, ⟨hr, -⟩ | ⟨f', hr, ho⟩⟩ := h
  · simp at hr
  · exact ⟨xs, server, rfl, .inr ⟨f', hr, ho.stop (by simp) cs'⟩⟩

/-- One command, whose answer the session makes something of. -/
theorem opens_of_call (via : Responder σ) (s : Session (σ × List Exchange)) (c : Command)
    (made : Response → Except SessionFault Unit)
    (hmade : ∀ given, (made given = .ok () ∧ Exchange.fault? ⟨c, .ok given⟩ = none)
      ∨ ∃ f, made given = .error f ∧ Exchange.fault? ⟨c, .ok given⟩ = some f) :
    s.Opens [c] ((s.call via.keepingExchanges c).1.bind made)
      (s.call via.keepingExchanges c).2 := by
  simp only [call, Responder.call_keepingExchanges]
  rcases via.call c s.server.1 with ⟨e | given, server⟩
  · exact ⟨_, server, rfl, .inr ⟨_, rfl, .stopped rfl⟩⟩
  · refine ⟨[⟨c, .ok given⟩], server, rfl, ?_⟩
    rcases hmade given with ⟨hm, hn⟩ | ⟨f, hm, hf⟩
    · exact .inl ⟨hm, .next hn .all⟩
    · exact .inr ⟨f, hm, .stopped hf⟩

theorem logIn_opens (h : s.logIn via.keepingExchanges = (r, s')) :
    s.Opens [.login s.profile.user s.profile.password] r s' := by
  have ho := opens_of_call via s (.login s.profile.user s.profile.password)
    (fun given => if given.isGranted then .ok () else .error (.loginRefused given.completion))
    fun given => by rcases hg : given.isGranted <;> simp [Exchange.fault?, hg]
  unfold logIn at h
  split at h <;> rename_i hc <;> rw [hc] at ho <;> simp only [Prod.mk.injEq] at h <;>
    obtain ⟨rfl, rfl⟩ := h <;> exact ho

theorem insist_opens {p : Profile} {action : MailboxAction} {c : Command} (hp : s.profile = p)
    (hc : ∀ given : Response, given.isGranted = false → Exchange.fault? ⟨c, .ok given⟩
      = some (.mailboxRefused action p.mailbox given.completion))
    (h : s.insist via.keepingExchanges action c = (r, s')) : s.Opens [c] r s' := by
  subst hp
  have ho := opens_of_call via s c
    (fun given => if given.isGranted then .ok ()
      else .error (.mailboxRefused action s.profile.mailbox given.completion))
    fun given => by
      rcases hg : given.isGranted
      · exact .inr ⟨_, rfl, hc given hg⟩
      · exact .inl ⟨rfl, by simp [Exchange.fault?, hg]⟩
  unfold insist at h
  split at h <;> rename_i hs <;> rw [hs] at ho <;> simp only [Prod.mk.injEq] at h <;>
    obtain ⟨rfl, rfl⟩ := h
  · exact ho
  · rw [ho.profile]
    exact ho

theorem renewMailbox_opens (h : s.renewMailbox via.keepingExchanges = (r, s')) :
    ∃ s₁, s.Opens [.delete s.profile.mailbox, .create s.profile.mailbox, .select s.profile.mailbox]
        r s₁ ∧ s' = { s₁ with selected := r.isOk || s.selected } := by
  have hd := opens_of_call via s (.delete s.profile.mailbox) (fun _ => .ok ())
    fun given => .inl ⟨rfl, by rcases hg : given.isGranted <;> simp [Exchange.fault?, hg]⟩
  unfold renewMailbox at h
  split at h <;> rename_i s₁ hs <;> rw [hs] at hd
  · simp only [Prod.mk.injEq] at h
    obtain ⟨rfl, rfl⟩ := h
    exact ⟨s₁, hd.stop _, by rw [← hd.selected]; rfl⟩
  rw [hd.profile] at h
  split at h <;> rename_i s₂ hs₂ <;>
    have hc := hd.append
      (insist_opens hd.profile (fun given hg => by simp [Exchange.fault?, hg]) hs₂)
  · simp only [Prod.mk.injEq] at h
    obtain ⟨rfl, rfl⟩ := h
    exact ⟨s₂, hc.stop _, by rw [← hc.selected]; rfl⟩
  rw [hc.profile] at h
  split at h <;> rename_i s₃ hs₃ <;>
    have ha := hc.append
      (insist_opens hc.profile (fun given hg => by simp [Exchange.fault?, hg]) hs₃) <;>
    simp only [Prod.mk.injEq] at h <;> obtain ⟨rfl, rfl⟩ := h
  · exact ⟨s₃, ha, by rw [← ha.selected]; rfl⟩
  · exact ⟨s₃, ha, rfl⟩

theorem work_opens {corpus : List Path} {r : Except SessionFault Report}
    (h : s.work via.keepingExchanges corpus = (r, s')) :
    (∃ f, r = .error f ∧ s.Opens s.profile.opening (.error f) s')
      ∨ ∃ s₁, s.Opens s.profile.opening (.ok ()) s₁
        ∧ ({ s₁ with selected := true } : Session _).examineAll via.keepingExchanges corpus
          = (r, s') := by
  unfold work at h
  split at h <;> rename_i s₁ hs₁ <;> have hl := logIn_opens hs₁
  · simp only [Prod.mk.injEq] at h
    obtain ⟨rfl, rfl⟩ := h
    exact .inl ⟨_, rfl, hl.stop _⟩
  split at h <;> rename_i s₂ hs₂ <;> obtain ⟨s₃, ho, rfl⟩ := renewMailbox_opens hs₂ <;>
    rw [hl.profile] at ho <;> have ha := hl.append ho
  · simp only [Prod.mk.injEq] at h
    obtain ⟨rfl, rfl⟩ := h
    exact .inl ⟨_, rfl, by rw [← ho.selected]; exact ha⟩
  · exact .inr ⟨s₃, ha, h⟩

theorem examineAll_reviewed {corpus : List Path} {r : Except SessionFault Report}
    (h : s.examineAll via.keepingExchanges corpus = (r, s')) :
    ∃ blocks, s'.server.2 = s.server.2 ++ exchanges blocks.flatten ∧ s'.selected = s.selected
      ∧ ((∃ e, r = .error (.connectionLost e)
          ∧ Reviewed s.profile 0 0 {} corpus s.files blocks (.error e) s'.files)
        ∨ ∃ described losses, r = .ok ⟨s.profile.id, corpus.length, described, losses.failures⟩
          ∧ Reviewed s.profile 0 0 {} corpus s.files blocks (.ok (described, losses))
            s'.files) := by
  unfold examineAll at h
  split at h <;> rename_i he <;> obtain ⟨blocks, hlog, hr⟩ := examineFrom_reviewed he <;>
    simp only [Prod.mk.injEq] at h <;> obtain ⟨rfl, rfl⟩ := h
  · exact ⟨blocks, hlog, rfl, .inl ⟨_, rfl, hr⟩⟩
  · exact ⟨blocks, hlog, rfl, .inr ⟨_, _, rfl, hr⟩⟩

theorem takeLeave_exchanges (via : Responder σ) (s : Session (σ × List Exchange)) :
    (s.takeLeave via.keepingExchanges).files = s.files
      ∧ ∃ closed bye, (s.takeLeave via.keepingExchanges).server.2 = s.server.2
        ++ if s.selected then [⟨.close, closed⟩, ⟨.logout, bye⟩] else [⟨.logout, bye⟩] := by
  obtain ⟨desk, p, selected⟩ := s
  refine ⟨rfl, (via.call .close desk.server.1).1, ?_⟩
  rcases selected
  · exact ⟨_, rfl⟩
  · exact ⟨_, List.append_assoc _ [_] [_]⟩

end Session

/-- What passes at a desk in a session, and what comes of it. -/
theorem converse_conversed {p : Profile} {corpus : List Path}
    {desk desk' : Desk (σ × List Exchange)} {r : Except SessionFault Report}
    (h : converse via.keepingExchanges p corpus desk = (r, desk')) :
    ∃ opening blocks leave,
      desk'.server.2 = desk.server.2 ++ (opening ++ exchanges blocks.flatten ++ leave)
        ∧ Conversed p corpus desk.files opening blocks leave r desk'.files := by
  rcases hw : ({ toDesk := desk, profile := p } : Session _).work via.keepingExchanges corpus with
    ⟨outcome, s'⟩
  simp only [converse, hw, Prod.mk.injEq] at h
  obtain ⟨rfl, rfl⟩ := h
  obtain ⟨hfiles, closed, bye, hleave⟩ := s'.takeLeave_exchanges via
  rw [hfiles, hleave]
  rcases Session.work_opens hw with ⟨f, rfl, xs, server, rfl, ⟨hr, -⟩ | ⟨f', hr, ho⟩⟩ |
    ⟨s₁, ⟨xs, server, rfl, ⟨-, ho⟩ | ⟨f', hr, -⟩⟩, he⟩
  · simp at hr
  · obtain rfl := Except.error.inj hr
    exact ⟨xs, [], [⟨.logout, bye⟩], by simp, .stopped bye ho⟩
  · obtain ⟨blocks, hlog, hsel, ⟨e, rfl, hr⟩ | ⟨described, losses, rfl, hr⟩⟩ :=
      Session.examineAll_reviewed he
    · refine ⟨xs, blocks, _, ?_, .cut closed bye ho hr⟩
      rw [hlog, hsel]
      simp
    · refine ⟨xs, blocks, _, ?_, .done closed bye ho hr⟩
      rw [hlog, hsel]
      simp
  · simp at hr

end Steps

end ImapProbe
