import ImapProbe.Bytes

/-!
# Answers of a server

An answer is the tagged completion of a command and the data the server sent before it, in order of
arrival. Data keep the form they had on the wire: a literal stays with the line that announced it.
Names of data are compared in any letter case.
-/

namespace ImapProbe

/-- A part of what a server sends, line endings left out. -/
inductive Part where
  | line (octets : Bytes)
  /-- A literal, with the line that announces it. -/
  | literal (announcement octets : Bytes)
  deriving DecidableEq, Repr

inductive Status where
  | ok
  | no
  | bad
  deriving DecidableEq, Repr

def Status.text : Status → String
  | .ok => "OK"
  | .no => "NO"
  | .bad => "BAD"

/-- The tagged line that closes a command. -/
structure Completion where
  status : Status
  text : String
  deriving DecidableEq, Repr

def Completion.line (c : Completion) : String := c.status.text ++ " " ++ c.text

/-- An ASCII text in capitals; other characters stay. -/
def capitals (s : String) : String := String.ofList (s.toList.map Char.toUpper)

/-- What a server says without being tied to a command. -/
structure ServerData where
  name : String
  parts : List Part
  deriving DecidableEq, Repr

/-- Data under a name, which is kept in capitals. -/
def ServerData.named (name : String) (parts : List Part) : ServerData := ⟨capitals name, parts⟩

structure Response where
  completion : Completion
  data : List ServerData
  deriving DecidableEq, Repr

namespace Response

def isGranted (r : Response) : Bool := r.completion.status == .ok

/-- The parts of all data of one name. -/
def parts (r : Response) (name : String) : List Part :=
  (r.data.filter fun d => capitals d.name == capitals name).flatMap (·.parts)

end Response

end ImapProbe
