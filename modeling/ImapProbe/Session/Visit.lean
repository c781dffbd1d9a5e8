import ImapProbe.Session.Basic

/-!
# Visits to servers

A network gives connections: it has a state of its own, and it may look at the files when it is
asked for a connection. A visit to the server of a profile ends with a report or with what ended it
early; visits to several servers go on after one that ended early.
-/

namespace ImapProbe

structure Network (ν σ : Type) where
  responder : Responder σ
  connect : Profile → FileTree → ν → Except Fault σ × ν
  /-- Gives a connection back. -/
  hangUp : σ → ν → ν

/-- One server in some state, which may refuse the connection. -/
def Network.ofResponder {σ : Type} (via : Responder σ) (refusal : Option Fault) :
    Network σ σ where
  responder := via
  connect _ _ s :=
    match refusal with
    | some e => (.error e, s)
    | none => (.ok s, s)
  hangUp s _ := s

structure Site (ν : Type) where
  network : ν
  files : FileTree

section

variable {ν σ : Type} (net : Network ν σ)

def visit (p : Profile) (corpus : List Path) (site : Site ν) :
    Except SessionFault Report × Site ν :=
  match net.connect p site.files site.network with
  | (.error e, network) => (.error (.unreachable p.host p.port e), { site with network })
  | (.ok server, network) =>
    let (outcome, desk) := converse net.responder p corpus ⟨server, site.files⟩
    (outcome, ⟨net.hangUp desk.server network, desk.files⟩)

def visitAll (corpus : List Path) :
    List Profile → Site ν → List (Profile × Except SessionFault Report) × Site ν
  | [], site => ([], site)
  | p :: rest, site =>
    let (outcome, site) := visit net p corpus site
    let (outcomes, site) := visitAll corpus rest site
    ((p, outcome) :: outcomes, site)

end

def endedEarly (outcomes : List (Profile × Except SessionFault Report)) : List String :=
  outcomes.filterMap fun
    | (_, .ok _) => none
    | (p, .error _) => some p.id

end ImapProbe
