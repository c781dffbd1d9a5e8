import ImapProbe.Proofs.Session.Course
import ImapProbe.Session.Visit

/-!
# Visits that are recorded

What a session does depends on the answers of its server alone, and of the data in these on those
of FETCH alone. So two servers with answers alike are served alike, whatever else their states hold
(`converse_resembling`): what a server keeps to at every command, it keeps to over a session
(`converse_keeps`), and a network that keeps what was said is visited as it is when no one listens
(`visit_recording`).
-/

namespace ImapProbe

/-- Two answers that a session cannot tell apart: it looks at no data but those of FETCH. -/
inductive AnswerAlike {ε : Type} : Except ε Response → Except ε Response → Prop
  | fault (e : ε) : AnswerAlike (.error e) (.error e)
  | response {r r' : Response} : r'.completion = r.completion →
      r'.parts "FETCH" = r.parts "FETCH" → AnswerAlike (.ok r) (.ok r')

theorem AnswerAlike.refl {ε : Type} : ∀ r : Except ε Response, AnswerAlike r r
  | .error e => .fault e
  | .ok _ => .response rfl rfl

theorem Response.isGranted_congr {r r' : Response} (h : r'.completion = r.completion) :
    r'.isGranted = r.isGranted := by
  rw [isGranted, isGranted, h]

namespace Responder

variable {σ τ : Type} (via : Responder σ) (part : τ → σ) (whole : Responder τ)

/-- One responder answers as another does, from a part of its state. -/
def Follows : Prop := ∀ c s, via.call c (part s) = ((whole.call c s).1, part (whole.call c s).2)

/-- The same, up to data that a session does not look at. -/
def Resembles : Prop :=
  ∀ c s, ∃ r r' s', whole.call c s = (r, s') ∧ via.call c (part s) = (r', part s')
    ∧ AnswerAlike r r'

variable {via part whole}

theorem Follows.resembles (h : via.Follows part whole) : via.Resembles part whole := fun c s =>
  ⟨_, _, _, rfl, h c s, .refl _⟩

end Responder

section Parts

variable {σ τ : Type} (part : τ → σ)

def Desk.map (desk : Desk τ) : Desk σ := ⟨part desk.server, desk.files⟩

def Session.map (s : Session τ) : Session σ :=
  { toDesk := s.toDesk.map part, profile := s.profile, selected := s.selected }

@[simp] theorem Desk.files_map (desk : Desk τ) : (desk.map part).files = desk.files := rfl

@[simp] theorem Session.toDesk_map (s : Session τ) : (s.map part).toDesk = s.toDesk.map part := rfl

@[simp] theorem Session.profile_map (s : Session τ) : (s.map part).profile = s.profile := rfl

end Parts

section Sessions

variable {σ τ : Type} {via : Responder σ} {part : τ → σ} {whole : Responder τ}
  (h : via.Resembles part whole)

include h

section Desks

variable (p : Profile) (message : Path) (n : UInt32) (desk : Desk τ)

theorem demand_map (c : Command) (step : Step) :
    ∃ r r' desk', demand whole c step desk = (r, desk')
      ∧ demand via c step (desk.map part) = (r', desk'.map part) ∧ AnswerAlike r r' := by
  obtain ⟨r, r', s, hw, hv, hr⟩ := h c desk.server
  simp only [demand, Desk.map, hw, hv]
  cases hr with
  | fault e => exact ⟨_, _, _, rfl, rfl, .fault _⟩
  | response hc hp =>
    refine ⟨_, _, _, rfl, rfl, ?_⟩
    rw [Response.isGranted_congr hc, hc]
    split
    · exact .response hc hp
    · exact .fault _

theorem describe_map (d : Description) :
    describe via p message n d (desk.map part)
      = ((describe whole p message n d desk).1,
          (describe whole p message n d desk).2.map part) := by
  obtain ⟨r, r', desk', hw, hv, hr⟩ := demand_map h desk
    (.fetch (toString n.toNat ++ ":" ++ toString n.toNat) d.items) (.fetch d)
  simp only [describe, hw, hv]
  cases hr with
  | fault e => rfl
  | response hc hp =>
    simp only [Desk.files_map, hp]
    split
    · rfl
    · rcases desk'.files.write _ _ with e | t <;> rfl

theorem describeAll_map : ∀ (ds : List Description) (desk : Desk τ),
    describeAll via p message n ds (desk.map part)
      = ((describeAll whole p message n ds desk).1,
        (describeAll whole p message n ds desk).2.map part)
  | [], _ => rfl
  | d :: ds, desk => by
    simp only [describeAll, describe_map h]
    rcases describe whole p message n d desk with ⟨e | u, desk'⟩
    · rfl
    · exact describeAll_map ds desk'

theorem attempt_map (index : Nat) (losses : Losses) :
    attempt via p index message losses (desk.map part)
      = ((attempt whole p index message losses desk).1,
        (attempt whole p index message losses desk).2.map part) := by
  simp only [attempt, Desk.files_map]
  rcases desk.files.read message with e | content
  · rfl
  · obtain ⟨r, r', desk', hw, hv, hr⟩ := demand_map h desk (.append p.mailbox content) .append
    simp only [hw, hv]
    cases hr with
    | fault e => rfl
    | response => exact describeAll_map h p message _ Description.all desk'

theorem examine_map (index : Nat) (losses : Losses) :
    examine via p index message losses (desk.map part)
      = ((examine whole p index message losses desk).1,
        (examine whole p index message losses desk).2.1,
        (examine whole p index message losses desk).2.2.map part) := by
  simp only [examine, attempt_map h]
  rcases attempt whole p index message losses desk with ⟨(_ | _) | _, desk'⟩ <;> rfl

theorem examineFrom_map : ∀ (corpus : List Path) (index described : Nat) (losses : Losses)
    (desk : Desk τ),
    Session.examineFrom via p index described losses corpus (desk.map part)
      = ((Session.examineFrom whole p index described losses corpus desk).1,
        (Session.examineFrom whole p index described losses corpus desk).2.map part)
  | [], _, _, _, _ => rfl
  | message :: rest, index, described, losses, desk => by
    simp only [Session.examineFrom, examine_map h]
    rcases examine whole p index message losses desk with ⟨e | done, losses', desk'⟩
    · rfl
    · exact examineFrom_map rest _ _ losses' desk'

end Desks

variable (s : Session τ)

namespace Session

theorem call_map (c : Command) :
    ∃ r r' s', s.call whole c = (r, s') ∧ (s.map part).call via c = (r', s'.map part)
      ∧ AnswerAlike r r' := by
  obtain ⟨r, r', server, hw, hv, hr⟩ := h c s.server
  simp only [call, toDesk_map, Desk.map, hw, hv]
  refine ⟨_, _, _, rfl, rfl, ?_⟩
  cases hr with
  | fault e => exact .fault _
  | response hc hp => exact .response hc hp

theorem logIn_map :
    (s.map part).logIn via = ((s.logIn whole).1, (s.logIn whole).2.map part) := by
  obtain ⟨r, r', s', hw, hv, hr⟩ := call_map h s (.login s.profile.user s.profile.password)
  simp only [logIn, profile_map, hw, hv]
  cases hr with
  | fault e => rfl
  | response hc =>
    simp only
    rw [Response.isGranted_congr hc, hc]

theorem insist_map (action : MailboxAction) (c : Command) :
    (s.map part).insist via action c
      = ((s.insist whole action c).1, (s.insist whole action c).2.map part) := by
  obtain ⟨r, r', s', hw, hv, hr⟩ := call_map h s c
  simp only [insist, hw, hv]
  cases hr with
  | fault e => rfl
  | response hc =>
    simp only [profile_map]
    rw [Response.isGranted_congr hc, hc]

theorem renewMailbox_map :
    (s.map part).renewMailbox via
      = ((s.renewMailbox whole).1, (s.renewMailbox whole).2.map part) := by
  obtain ⟨r, r', s₁, hw, hv, hr⟩ := call_map h s (.delete s.profile.mailbox)
  simp only [renewMailbox, profile_map, hw, hv]
  cases hr with
  | fault e => rfl
  | response =>
    simp only [insist_map h, profile_map]
    rcases s₁.insist whole .create (.create s₁.profile.mailbox) with ⟨e | u, s₂⟩
    · rfl
    · simp only [insist_map h, profile_map]
      rcases s₂.insist whole .select (.select s₂.profile.mailbox) with ⟨e | u, s₃⟩ <;> rfl

theorem examineAll_map (corpus : List Path) :
    (s.map part).examineAll via corpus
      = ((s.examineAll whole corpus).1, (s.examineAll whole corpus).2.map part) := by
  simp only [examineAll, toDesk_map, profile_map, examineFrom_map h]
  rcases examineFrom whole s.profile 0 0 {} corpus s.toDesk with
    ⟨e | ⟨described, losses⟩, desk⟩ <;> rfl

theorem work_map (corpus : List Path) :
    (s.map part).work via corpus
      = ((s.work whole corpus).1, (s.work whole corpus).2.map part) := by
  simp only [work, logIn_map h]
  rcases s.logIn whole with ⟨e | u, s₁⟩
  · rfl
  · simp only [renewMailbox_map h]
    rcases s₁.renewMailbox whole with ⟨e | u, s₂⟩
    · rfl
    · exact examineAll_map h s₂ corpus

theorem takeLeave_map : (s.map part).takeLeave via = (s.takeLeave whole).map part := by
  have hstate : ∀ c t, (via.call c (part t)).2 = part (whole.call c t).2 := fun c t => by
    obtain ⟨r, r', t', hw, hv, -⟩ := h c t
    rw [hw, hv]
  obtain ⟨desk, p, selected⟩ := s
  rcases selected <;> simp [takeLeave, Session.map, Desk.map, hstate]

end Session

/-- Servers with answers alike are served alike. -/
theorem converse_resembling (p : Profile) (corpus : List Path) (desk : Desk τ) :
    converse via p corpus (desk.map part)
      = ((converse whole p corpus desk).1, (converse whole p corpus desk).2.map part) := by
  have hw := Session.work_map h { toDesk := desk, profile := p } corpus
  simp only [Session.map] at hw
  simp only [converse, hw, ← Session.takeLeave_map h]
  rfl

end Sessions

/-- What every answer keeps to, and the session began with, the session ends with. -/
theorem converse_keeps {σ : Type} {via : Responder σ} {P : σ → Prop}
    (hcall : ∀ c s, P s → P (via.call c s).2) (p : Profile) (corpus : List Path) (desk : Desk σ)
    (hdesk : P desk.server) : P (converse via p corpus desk).2.server := by
  let whole : Responder { s // P s } :=
    ⟨fun c s => ((via.call c s.1).1, ⟨(via.call c s.1).2, hcall c s.1 s.2⟩)⟩
  have h : via.Follows Subtype.val whole := fun _ _ => rfl
  have hmap := converse_resembling h.resembles p corpus ⟨⟨desk.server, hdesk⟩, desk.files⟩
  rw [show desk = Desk.map Subtype.val ⟨⟨desk.server, hdesk⟩, desk.files⟩ from rfl, hmap]
  exact (converse whole p corpus ⟨⟨desk.server, hdesk⟩, desk.files⟩).2.server.2

namespace Network

variable {ν σ : Type} (net : Network ν σ)

/-- A network that works as another does, and keeps what was said, in order. -/
def recording : Network (ν × List Exchange) (σ × List Exchange) where
  responder := net.responder.keepingExchanges
  connect p files n :=
    match net.connect p files n.1 with
    | (.error e, network) => (.error e, network, n.2)
    | (.ok server, network) => (.ok (server, n.2), network, n.2)
  hangUp s n := (net.hangUp s.1 n.1, s.2)

/-- What is said in a visit. -/
def said (p : Profile) (corpus : List Path) (site : Site ν) : List Exchange :=
  (visit net.recording p corpus ⟨(site.network, []), site.files⟩).2.network.2

end Network

variable {ν σ : Type} (net : Network ν σ) (p : Profile) (corpus : List Path) (site : Site ν)

/-- A recorded visit is the visit itself, and what was said in it. -/
theorem visit_recording :
    visit net.recording p corpus ⟨(site.network, []), site.files⟩
      = ((visit net p corpus site).1,
        ⟨((visit net p corpus site).2.network, net.said p corpus site),
          (visit net p corpus site).2.files⟩) := by
  suffices h : visit net p corpus site
      = ((visit net.recording p corpus ⟨(site.network, []), site.files⟩).1,
        ⟨(visit net.recording p corpus ⟨(site.network, []), site.files⟩).2.network.1,
          (visit net.recording p corpus ⟨(site.network, []), site.files⟩).2.files⟩) by
    rw [h]
    rfl
  simp only [visit, Network.recording]
  rcases net.connect p site.files site.network with ⟨e | server, network⟩
  · rfl
  · have h : net.responder.Follows Prod.fst net.responder.keepingExchanges := fun _ _ => rfl
    have hmap := converse_resembling h.resembles p corpus ⟨(server, []), site.files⟩
    simp only [Desk.map] at hmap
    simp only [hmap]

/-- Each answer of a visit is one that the server gives in some state. -/
theorem said_answered : ∀ x ∈ net.said p corpus site,
    ∃ s, x.answer = (net.responder.call x.command s).1 := by
  unfold Network.said
  simp only [visit, Network.recording]
  rcases net.connect p site.files site.network with ⟨e | server, network⟩
  · simp
  · refine converse_keeps (P := fun s : σ × List Exchange => ∀ x ∈ s.2,
      ∃ s₀, x.answer = (net.responder.call x.command s₀).1) (fun c s hs => ?_) p corpus
      ⟨(server, []), site.files⟩ (by simp)
    simp only [Responder.call_keepingExchanges, List.forall_mem_append, List.forall_mem_singleton]
    exact ⟨hs, s.1, rfl⟩

end ImapProbe
