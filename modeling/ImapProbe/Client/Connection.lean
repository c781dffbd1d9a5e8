import ImapProbe.Fault

/-!
# Connections

The other end of a connection is a script of what arrives: octets in portions, failed reads, or
silence from some point on; after the script there is nothing more to read. Octets are written
into a queue that a flush sends, as far as the peer takes them. The log holds what went over the
connection in either direction.
-/

namespace ImapProbe

inductive Event where
  | chunk (octets : Bytes)
  | failure (cause : IoFault)
  /-- Nothing comes any more, and the connection stays open. -/
  | stall
  deriving DecidableEq, Repr

inductive Transfer where
  | received (octets : Bytes)
  | sent (octets : Bytes)
  deriving DecidableEq, Repr

/-- One, and the octets that an event brings. -/
def Event.bound : Event → Nat
  | .chunk octets => octets.length + 1
  | _ => 1

structure Connection where
  script : List Event
  /-- How long a read waits. -/
  timeout : Duration
  /-- How many octets the peer still takes; any number when absent. -/
  budget : Option Nat := none
  /-- Octets that were written and not sent. -/
  queued : Bytes := []
  log : List Transfer := []
  deriving DecidableEq, Repr

namespace Connection

/-- The next octets that arrive, of which there is one at least. -/
def pull (k : Connection) : Except Fault Bytes × Connection :=
  match k with
  | { script := [], .. } => (.error .closed, k)
  | { script := .stall :: _, .. } => (.error (.timeout k.timeout), k)
  | { script := .failure cause :: rest, .. } => (.error (.io cause), { k with script := rest })
  | { script := .chunk [] :: rest, .. } => pull { k with script := rest }
  | { script := .chunk (b :: bs) :: rest, .. } =>
    (.ok (b :: bs), { k with script := rest, log := k.log ++ [.received (b :: bs)] })
termination_by k.script.length

def write (k : Connection) (octets : Bytes) : Connection := { k with queued := k.queued ++ octets }

/-- The octets of the queue that the peer takes. -/
def accepted (k : Connection) : Bytes := k.queued.take (k.budget.getD k.queued.length)

def flush (k : Connection) : Except Fault Unit × Connection :=
  let sent := k.accepted
  let k' := { k with
    queued := k.queued.drop sent.length
    budget := k.budget.map (· - sent.length)
    log := if sent.isEmpty then k.log else k.log ++ [.sent sent] }
  (if sent.length = k.queued.length then .ok () else .error (.io .brokenPipe), k')

/-- Bounds the octets still to come: one for each event, and those it brings. -/
def bound (k : Connection) : Nat := k.script.foldr (fun e n => e.bound + n) 0

theorem bound_pull {k k' : Connection} {octets : Bytes} (h : k.pull = (.ok octets, k')) :
    k'.bound + octets.length + 1 ≤ k.bound := by
  fun_induction pull k with
  | case1 | case2 | case3 => simp at h
  | case4 timeout budget queued log rest ih =>
    have := ih h
    simp only [bound, List.foldr_cons, Event.bound] at this ⊢
    omega
  | case5 =>
    simp only [Prod.mk.injEq, Except.ok.injEq] at h
    rw [← h.1, ← h.2]
    simp only [bound, List.foldr_cons, Event.bound, List.length_cons]
    omega

end Connection

/-- The log with neighbouring entries of one side made one. -/
def transcript : List Transfer → List Transfer
  | .received a :: rest =>
    match transcript rest with
    | .received b :: rest => .received (a ++ b) :: rest
    | rest => .received a :: rest
  | .sent a :: rest =>
    match transcript rest with
    | .sent b :: rest => .sent (a ++ b) :: rest
    | rest => .sent a :: rest
  | [] => []

end ImapProbe
