import ImapProbe.Proofs.Session.Course
import ImapProbe.Session.Basic

/-!
# What passed about each message

A run over a corpus is a list of episodes, one for each message that was begun: the commands given
for it with their answers, the files before and after, and the failures it was recorded with.
Nothing else passes in a run (`examineFrom_episodes`). The message is appended before anything is
fetched, every fetch asks for one and the same number, and a message that is no loss was accepted
(`examine_faithful`).
-/

namespace ImapProbe

/-- An APPEND that was granted. -/
def Exchange.deposits (x : Exchange) : Bool :=
  match x.command, x.answer with
  | .append .., .ok r => r.isGranted
  | _, _ => false

/-- What passed about one message. -/
structure Episode where
  /-- The place of the message in its corpus. -/
  index : Nat
  message : Path
  exchanges : List Exchange
  losses : List Failure
  before : FileTree
  after : FileTree

namespace Episode

def deposited (e : Episode) : Bool := e.exchanges.any Exchange.deposits

def isLoss (e : Episode) : Bool := !e.losses.isEmpty

end Episode

/-- Between two trees the artifacts made of the answers were written, and nothing else. -/
def Stored (p : Profile) (message : Path) :
    List (Description × Response) → FileTree → FileTree → Prop
  | [], t, t' => t' = t
  | (d, r) :: rest, t, t' =>
    ∃ u, t.write (artifactFile message p.suffix d) (artifact (r.parts "FETCH")) = .ok u
      ∧ Stored p message rest u t'

/-- What an episode with a predicted number keeps to. -/
structure Episode.Orderly (p : Profile) (n : UInt32) (e : Episode) : Prop where
  /-- The message is appended once at most. -/
  deposits : e.exchanges.countP Exchange.deposits = if e.deposited then 1 else 0
  /-- Only a message that was accepted is fetched, and under its number. -/
  fetches : ∀ x ∈ e.exchanges, ∀ set items, x.command = .fetch set items →
    e.deposited = true ∧ ∃ d : Description, x.command = d.request n
  stored : ∃ answers, Stored p e.message answers e.before e.after
    ∧ ∀ a ∈ answers, ⟨a.1.request n, .ok a.2⟩ ∈ e.exchanges

/-- What it keeps to besides, by its outcome. -/
structure Episode.Faithful (p : Profile) (n : UInt32) (outcome : Except Fault Bool)
    (e : Episode) : Prop extends e.Orderly p n where
  described : outcome = .ok true → e.deposited = true ∧ e.losses = []
  lost : outcome = .ok false → e.losses.length = 1
  cut : ∀ fault, outcome = .error fault → e.losses = []

variable {σ : Type} (via : Responder σ)

/-- The episodes of a run over messages, the first of them at a place in the corpus. -/
def episodes (p : Profile) :
    Nat → Losses → List Path → Desk (σ × List Exchange) → List Episode
  | _, _, [], _ => []
  | index, losses, message :: rest, desk =>
    match examine via.keepingExchanges p index message losses desk with
    | (outcome, losses', desk') =>
      ⟨index, message, desk'.server.2.drop desk.server.2.length,
        losses'.failures.drop losses.failures.length, desk.files, desk'.files⟩ ::
      match outcome with
      | .error _ => []
      | .ok _ => episodes p (index + 1) losses' rest desk'

section Steps

variable {via} {p : Profile} {message : Path} {n : UInt32} {desk desk' : Desk (σ × List Exchange)}

theorem Described.stored {ds : List Description} {t t' : FileTree} {acts : List Act}
    {r : Except ExaminationFault Unit} (h : Described p message n ds t acts r t') :
    ∃ answers, Stored p message answers t t'
      ∧ ∀ a ∈ answers, ⟨a.1.request n, .ok a.2⟩ ∈ exchanges acts := by
  induction h with
  | done | fault | refused | noData | unwritten => exact ⟨[], rfl, by simp⟩
  | @written d ds t u t' given acts outcome _ _ hw _ ih =>
    obtain ⟨answers, hst, hans⟩ := ih
    refine ⟨(d, given) :: answers, ⟨_, hw, hst⟩, ?_⟩
    simp only [exchanges_asked, exchanges_wrote, List.forall_mem_cons]
    exact ⟨List.mem_cons_self, fun a ha => List.mem_cons_of_mem _ (hans a ha)⟩

theorem countP_deposits_requests {new : List Exchange}
    (h : ∀ x ∈ new, ∃ d : Description, x.command = d.request n) :
    new.countP Exchange.deposits = 0 := by
  rw [List.countP_eq_zero]
  intro x hx
  obtain ⟨d, hd⟩ := h x hx
  simp [Exchange.deposits, hd, Description.request]

theorem Course.orderly {t t' : FileTree} {acts : List Act} {r : Except ExaminationFault Unit}
    (h : Course p message n t acts r t') (index : Nat) (lost : List Failure) :
    (⟨index, message, exchanges acts, lost, t, t'⟩ : Episode).Orderly p n
      ∧ (r = .ok () → (exchanges acts).any Exchange.deposits = true) := by
  cases h with
  | unread => exact ⟨⟨by simp [Episode.deposited], by simp, [], rfl, by simp⟩, by simp⟩
  | fault =>
    exact ⟨⟨by simp [Episode.deposited, Exchange.deposits], by simp, [], rfl, by simp⟩, by simp⟩
  | refused _ hg =>
    refine ⟨⟨?_, by simp, [], rfl, by simp⟩, by simp⟩
    simp [Episode.deposited, Exchange.deposits, hg]
  | @accepted _ content given acts _ _ hg hd =>
    have hdep : Exchange.deposits ⟨.append p.mailbox content, .ok given⟩ = true := hg
    obtain ⟨answers, hst, hans⟩ := hd.stored
    refine ⟨⟨?_, ?_, answers, hst, fun a ha => List.mem_cons_of_mem _ (hans a ha)⟩, ?_⟩
    · simp [Episode.deposited, countP_deposits_requests hd.requests, hdep]
    · simp only [exchanges_asked, List.forall_mem_cons]
      exact ⟨by simp, fun x hx set items _ =>
        ⟨by simp [Episode.deposited, hdep], hd.requests x hx⟩⟩
    · simp [hdep]

theorem examine_faithful {index : Nat} {losses losses' : Losses} {outcome : Except Fault Bool}
    (h : examine via.keepingExchanges p index message losses desk = (outcome, losses', desk')) :
    ∃ new lost, desk'.server.2 = desk.server.2 ++ new
      ∧ losses'.failures = losses.failures ++ lost
      ∧ (⟨index, message, new, lost, desk.files, desk'.files⟩ : Episode).Faithful p
        (losses.predict index) outcome := by
  obtain ⟨acts, r, hlog, hc, hv⟩ := examine_course h
  rcases r with (⟨step, problem⟩ | e) | u <;> simp only [concluded, Prod.mk.injEq] at hv <;>
    obtain ⟨rfl, rfl⟩ := hv
  · exact ⟨_, [_], hlog, rfl, (hc.orderly index _).1, by simp, by simp, by simp⟩
  · exact ⟨_, [], hlog, by simp, (hc.orderly index _).1, by simp, by simp, by simp⟩
  · obtain ⟨ho, hdep⟩ := hc.orderly index []
    exact ⟨_, [], hlog, by simp, ho, fun _ => ⟨hdep rfl, rfl⟩, by simp, by simp⟩

end Steps

section Run

variable (p : Profile)

theorem episodes_cons (index : Nat) (losses : Losses) (message : Path) (rest : List Path)
    (desk : Desk (σ × List Exchange)) :
    ∃ outcome losses' desk' new lost,
      examine via.keepingExchanges p index message losses desk = (outcome, losses', desk')
      ∧ desk'.server.2 = desk.server.2 ++ new ∧ losses'.failures = losses.failures ++ lost
      ∧ (⟨index, message, new, lost, desk.files, desk'.files⟩ : Episode).Faithful p
        (losses.predict index) outcome
      ∧ episodes via p index losses (message :: rest) desk
        = ⟨index, message, new, lost, desk.files, desk'.files⟩ :: match outcome with
          | .error _ => []
          | .ok _ => episodes via p (index + 1) losses' rest desk' := by
  rcases he : examine via.keepingExchanges p index message losses desk with
    ⟨outcome, losses', desk'⟩
  obtain ⟨new, lost, hlog, hloss, hf⟩ := examine_faithful he
  refine ⟨outcome, losses', desk', new, lost, rfl, hlog, hloss, hf, ?_⟩
  simp only [episodes, he, hlog, hloss, List.drop_left]

/-- What passes in a run is what passes in its episodes, and its losses are theirs. -/
theorem examineFrom_episodes :
    ∀ (corpus : List Path) (index described : Nat) (losses : Losses)
      (desk : Desk (σ × List Exchange)),
      (Session.examineFrom via.keepingExchanges p index described losses corpus desk).2.server.2
          = desk.server.2 ++ (episodes via p index losses corpus desk).flatMap (·.exchanges)
        ∧ ∀ n l, (Session.examineFrom via.keepingExchanges p index described losses corpus desk).1
            = .ok (n, l) →
          l.failures
            = losses.failures ++ (episodes via p index losses corpus desk).flatMap (·.losses)
  | [], index, described, losses, desk => by simp [Session.examineFrom, episodes]
  | message :: rest, index, described, losses, desk => by
    obtain ⟨outcome, losses', desk', new, lost, he, hlog, hloss, -, hes⟩ :=
      episodes_cons via p index losses message rest desk
    rw [hes]
    rcases outcome with fault | done
    · simp [Session.examineFrom, he, hlog]
    · obtain ⟨ih, ih'⟩ := examineFrom_episodes rest (index + 1)
        (if done then described + 1 else described) losses' desk'
      simp only [Session.examineFrom, he, List.flatMap_cons]
      refine ⟨by rw [ih, hlog, List.append_assoc], fun n l h => ?_⟩
      rw [ih' n l h, hloss, List.append_assoc]

/-- The message is done with: it was recorded with a failure, or accepted and not recorded. -/
def Episode.Finished (e : Episode) : Prop :=
  e.losses.length = 1 ∨ e.deposited = true ∧ e.losses = []

/-- Each episode stands at the place of its message, is faithful to the losses before it, and
comes after finished ones. -/
theorem episodes_faithful :
    ∀ (corpus : List Path) (index : Nat) (losses : Losses) (desk : Desk (σ × List Exchange))
      (k : Nat) (e : Episode), (episodes via p index losses corpus desk)[k]? = some e →
      e.index = index + k ∧ corpus[k]? = some e.message
        ∧ (∀ x ∈ (episodes via p index losses corpus desk).take k, x.Finished)
        ∧ ∃ outcome, e.Faithful p (Losses.predict ⟨losses.failures
            ++ ((episodes via p index losses corpus desk).take k).flatMap (·.losses)⟩ (index + k))
          outcome
  | [], index, losses, desk, k, e, h => by simp [episodes] at h
  | message :: rest, index, losses, desk, k, e, h => by
    obtain ⟨outcome, losses', desk', new, lost, -, -, hloss, hf, hes⟩ :=
      episodes_cons via p index losses message rest desk
    rw [hes] at h ⊢
    rcases k with _ | k
    · simp only [List.getElem?_cons_zero, Option.some.injEq] at h
      subst h
      exact ⟨rfl, rfl, by simp, outcome, by simpa using hf⟩
    · rcases outcome with fault | done
      · simp at h
      · simp only [List.getElem?_cons_succ] at h
        obtain ⟨hi, hm, hfin, outcome, hf'⟩ :=
          episodes_faithful rest (index + 1) losses' desk' k e h
        refine ⟨by omega, by simpa using hm, ?_, outcome, ?_⟩
        · simp only [List.take_succ_cons, List.forall_mem_cons]
          refine ⟨?_, hfin⟩
          rcases done
          · exact .inl (hf.lost rfl)
          · exact .inr (hf.described rfl)
        · rw [hloss, List.append_assoc, Nat.add_assoc, Nat.add_comm 1] at hf'
          simpa only [List.take_succ_cons, List.flatMap_cons] using hf'

end Run

end ImapProbe
