import ImapProbe.Command.Basic
import ImapProbe.Fault
import ImapProbe.Response

/-!
# Responders

A responder is whatever answers commands: it has a state, and an answer to every command in every
state. An answer is a response, whatever its status, or a fault.
-/

namespace ImapProbe

structure Responder (σ : Type) where
  call : Command → σ → Except Fault Response × σ

namespace Responder

/-- Answers as another responder does, and keeps the commands it was given, the first one first. -/
def keepingCommands {σ : Type} (via : Responder σ) : Responder (σ × List Command) where
  call c s :=
    let (answer, state) := via.call c s.1
    (answer, state, s.2 ++ [c])

/-- Gives the answers of a list, whatever the commands, and then finds the connection closed. -/
def ofAnswers : Responder (List (Except Fault Response)) where
  call _
    | [] => (.error .closed, [])
    | answer :: rest => (answer, rest)

end Responder

end ImapProbe
