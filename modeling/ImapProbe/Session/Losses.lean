import ImapProbe.Storage.Path

/-!
# Messages that were lost

A message that gave up is a loss, with its place in the corpus and the step it gave up at. The
sequence number of a message is predicted from its place and the number of losses before it: a
server numbers the messages it accepts one after another.
-/

namespace ImapProbe

/-- What a server is asked to say about a message. -/
inductive Description where
  | body
  | bodyStructure
  deriving DecidableEq, Repr

namespace Description

/-- Both, in the order in which they are asked for. -/
def all : List Description := [.body, .bodyStructure]

def items : Description → String
  | .body => "(BODY)"
  | .bodyStructure => "(BODYSTRUCTURE)"

def extension : Description → String
  | .body => "body"
  | .bodyStructure => "bodystructure"

end Description

inductive Step where
  | read
  | append
  | fetch (d : Description)
  | write (d : Description)
  deriving DecidableEq, Repr

def Step.text : Step → String
  | .read => "read"
  | .append => "append"
  | .fetch d => "fetch " ++ d.extension
  | .write d => "write " ++ d.extension

structure Failure where
  message : Path
  index : Nat
  step : Step
  reason : String
  deriving DecidableEq, Repr

def Failure.line (f : Failure) : String :=
  f.message.text ++ " (" ++ f.step.text ++ "): " ++ f.reason

structure Losses where
  failures : List Failure := []
  deriving DecidableEq, Repr

namespace Losses

def add (l : Losses) (f : Failure) : Losses := ⟨l.failures ++ [f]⟩

/-- The number of the message at a place, if it was accepted just now. Numbers have 32 bits, and
the difference does not fall below zero. -/
def predict (l : Losses) (index : Nat) : UInt32 :=
  let ordinal := UInt32.ofNat index + 1
  let failed := UInt32.ofNat l.failures.length
  if failed ≤ ordinal then ordinal - failed else 0

end Losses

end ImapProbe
