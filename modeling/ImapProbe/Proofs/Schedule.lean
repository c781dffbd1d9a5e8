import ImapProbe.Proofs.Framing
import ImapProbe.Text.Utf8

/-!
# Schedules

Octets arrive in portions, and between two portions an assembler may be asked any number of times.
All of this is a schedule. An assembler that is asked to the end at last gives the results of the
octets in one portion, whatever the schedule (`run_eq_results`), so two schedules of one stream
cannot be told apart by what is given (`run_schedules`).
-/

namespace ImapProbe.Wire

/-- What is done with an assembler. -/
inductive Move where
  | feed (octets : Bytes)
  | ask
  deriving DecidableEq, Repr

/-- The octets that arrive. -/
def Move.fed : List Move → Bytes
  | [] => []
  | .feed octets :: moves => octets ++ fed moves
  | .ask :: moves => fed moves

namespace Assembler

variable {a a' : Assembler}

/-- All results of a schedule, and of asking until there is none. -/
def run : List Move → Assembler → List (Except Malformation Message) × Assembler
  | [], a => a.results
  | .feed octets :: moves, a => run moves (a.feed octets)
  | .ask :: moves, a =>
    match a.next with
    | (none, a) => run moves a
    | (some r, a) => (r :: (run moves a).1, (run moves a).2)

/-- Without new octets an assembler that gave nothing gives nothing again. -/
theorem next_of_next_none (h : a.next = (none, a')) : a'.next = (none, a') := by
  have hfeed := next_feed_none h []
  rw [feed_nil, feed_nil] at hfeed
  exact hfeed.symm.trans h

theorem next_results : ∀ a : Assembler, a.results.2.next = (none, a.results.2)
  | a => by
    rcases h : a.next with ⟨_ | r, a'⟩
    · rw [results_of_next_none h]
      exact next_of_next_none h
    · have := effort_lt_of_next h
      rw [results_of_next h]
      exact next_results a'
termination_by a => a.cutter.effort

/-- A schedule gives what its octets give in one portion. -/
theorem run_eq_results : ∀ (moves : List Move) (a : Assembler),
    a.run moves = (a.feed (Move.fed moves)).results
  | [], a => by rw [run, Move.fed, feed_nil]
  | .feed octets :: moves, a => by
    rw [run, run_eq_results moves, Move.fed, feed_feed]
  | .ask :: moves, a => by
    rw [run, Move.fed]
    rcases h : a.next with ⟨_ | r, a'⟩ <;> simp only
    · rw [run_eq_results moves a', results_congr (next_feed_none h _)]
    · rw [run_eq_results moves a', results_of_next (next_feed h _)]

/-- Two schedules of one stream give the same messages and refusals in the same order, and leave
the assembler the same, with nothing more to give. -/
theorem run_schedules (a : Assembler) {moves moves' : List Move}
    (h : Move.fed moves = Move.fed moves') :
    a.run moves = a.run moves' ∧ (a.run moves).2.next = (none, (a.run moves).2) := by
  refine ⟨by rw [run_eq_results, run_eq_results, h], ?_⟩
  rw [run_eq_results]
  exact next_results _

/-- Cuts inside the announcement of a literal, inside a literal and inside an ending make no
difference, nor does a message above the limit. -/
theorem run_schedules_cut :
    let moves : List Move := [.feed (utf8 "* 1 FETCH \x7b"), .ask, .feed (utf8 "2\x7d\r"), .ask,
      .feed (utf8 "\na"), .feed [], .ask, .feed (utf8 "\n)\r"), .ask,
      .feed (utf8 "\n* BYE above the limit"), .ask, .ask, .feed (utf8 "\r\n")]
    let moves' : List Move :=
      [.feed (utf8 "* 1 FETCH \x7b2\x7d\r\na\n)\r\n* BYE above the limit\r\n")]
    Move.fed moves = Move.fed moves' ∧ ((idle 20 {}).run moves).1.map Except.toOption
      = [some ⟨[.literal (utf8 "* 1 FETCH \x7b2\x7d") (utf8 "a\n"), .line (utf8 ")")],
          utf8 "* 1 FETCH \x7b2\x7d\r\na\n)\r\n"⟩, none] := by
  intro moves moves'
  have hfed : Move.fed moves = Move.fed moves' := by decide
  refine ⟨hfed, ?_⟩
  rw [(run_schedules (idle 20 {}) hfed).1]
  decide +kernel

end Assembler

end ImapProbe.Wire
