import ImapProbe.Fault
import ImapProbe.Response
import ImapProbe.Wire.Cutter

/-!
# Messages put together from fragments

An assembler puts the fragments of a message together, each literal with the line that announced
it, and refuses a message with more octets than its limit, literals and endings counted.
-/

namespace ImapProbe.Wire

structure Message where
  parts : List Part
  /-- As they arrived, endings included. -/
  octets : Bytes
  deriving DecidableEq, Repr

/-- The first line of a message, its ending left out. -/
def Message.opening (m : Message) : Bytes :=
  match m.parts with
  | .line octets :: _ => octets
  | .literal announcement _ :: _ => announcement
  | [] => []

structure Assembler where
  limit : Nat
  cutter : Cutter := {}
  /-- The line that announced the awaited literal. -/
  announcement : Option Bytes := none
  /-- The parts of the message that is being read. -/
  parts : List Part := []
  /-- The octets of that message. -/
  received : Bytes := []
  deriving DecidableEq, Repr

namespace Assembler

def feed (a : Assembler) (bytes : Bytes) : Assembler := { a with cutter := a.cutter.feed bytes }

def idle (limit : Nat) (cutter : Cutter) : Assembler := { limit, cutter }

/-- Ends the message, or refuses it when it is above the limit. -/
def complete (a : Assembler) : Except Malformation Message :=
  if a.received.length ≤ a.limit then .ok ⟨a.parts, a.received⟩
  else .error (.oversized a.limit)

/-- Adds a fragment to the message; a line that announces nothing ends it. -/
def add (a : Assembler) (fragment : Fragment) : Assembler × Bool :=
  let a := { a with received := a.received ++ fragment.octets }
  match fragment with
  | .line octets =>
    if a.cutter.awaited = .line then
      ({ a with parts := a.parts ++ [.line (chomp octets)] }, true)
    else ({ a with announcement := some (chomp octets) }, false)
  | .literal octets =>
    ({ a with
        parts := a.parts ++ [.literal (a.announcement.getD []) octets]
        announcement := none }, false)

theorem cutter_add (a : Assembler) (fragment : Fragment) :
    (a.add fragment).1.cutter = a.cutter := by
  unfold add
  cases fragment <;> simp only
  split <;> rfl

def next (a : Assembler) : Option (Except Malformation Message) × Assembler :=
  match _h : a.cutter.next with
  | (none, cutter) => (none, { a with cutter })
  | (some fragment, cutter) =>
    match _h' : ({ a with cutter : Assembler }).add fragment with
    | (a', true) => (some a'.complete, idle a'.limit a'.cutter)
    | (a', false) => next a'
termination_by a.cutter.effort
decreasing_by
  have hc := cutter_add { a with cutter } fragment
  rw [_h'] at hc
  simp only at hc
  rw [hc]
  exact Cutter.next_effort _h

/-- A message takes effort, and none is made up while there is no message. -/
theorem effort_next (a : Assembler) :
    (a.next.1.isSome → a.next.2.cutter.effort < a.cutter.effort)
      ∧ (a.next.1 = none → a.next.2.cutter.effort ≤ a.cutter.effort) := by
  fun_induction next a with
  | case1 a cutter h => exact ⟨by simp, fun _ => Cutter.effort_next_none h⟩
  | case2 a fragment cutter h a' h' =>
    have hc := cutter_add { a with cutter } fragment
    rw [h'] at hc
    have := Cutter.next_effort h
    simp_all [idle]
  | case3 a fragment cutter h a' h' ih =>
    have hc := cutter_add { a with cutter } fragment
    rw [h'] at hc
    have := Cutter.next_effort h
    simp only at hc
    rw [hc] at ih
    exact ⟨fun hs => Nat.lt_trans (ih.1 hs) this,
      fun hn => Nat.le_of_lt (Nat.lt_of_le_of_lt (ih.2 hn) this)⟩

def results (a : Assembler) : List (Except Malformation Message) × Assembler :=
  go a.cutter.effort a
where
  go : Nat → Assembler → List (Except Malformation Message) × Assembler
    | n, a =>
      match a.next, n with
      | (none, a), _ => ([], a)
      | (some r, a), 0 => ([r], a)
      | (some r, a), n + 1 => (r :: (go n a).1, (go n a).2)

end Assembler

end ImapProbe.Wire
