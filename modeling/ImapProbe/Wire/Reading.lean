import ImapProbe.Text.Utf8
import ImapProbe.Wire.Message
import ImapProbe.Wire.StatusLine

/-!
# What a message means

To a client that waits for the end of its command a message is a request to go on, data or a
tagged completion. Data need not follow any grammar past their name, which may stand behind
a number.
-/

namespace ImapProbe.Wire

/-- The name at the start of a line, in capitals, and the rest. -/
def name? (line : Bytes) : Option (String × Bytes) :=
  let isNameOctet (b : UInt8) := Bytes.isLetter b || b == 45
  let name := line.takeWhile isNameOctet
  if name.isEmpty then none
  else some (capitals (lossy name), line.dropWhile isNameOctet)

/-- The name of data, behind a number and a space or at the start, and the rest. -/
def dataName? (line : Bytes) : Option (String × Bytes) :=
  let number := line.takeWhile Bytes.isDigit
  let numbered : Option (String × Bytes) :=
    match number.isEmpty, line.dropWhile Bytes.isDigit with
    | false, 32 :: rest => name? rest
    | _, _ => none
  numbered <|> name? line

/-- A message as its reader takes it. -/
inductive Reading where
  /-- The server waits for a literal. -/
  | goAhead
  | data (d : ServerData)
  | completed (tag : String) (completion : Completion)
  deriving DecidableEq, Repr

/-- The parts less the first `n` octets of the first line. -/
def dropFirst (n : Nat) : List Part → List Part
  | .line octets :: rest => .line (octets.drop n) :: rest
  | .literal announcement octets :: rest => .literal (announcement.drop n) octets :: rest
  | [] => []

namespace Message

def read (m : Message) : Except Malformation Reading :=
  let line := m.opening
  if (utf8 "+").isPrefixOf line then .ok .goAhead
  else if (utf8 "* ").isPrefixOf line then
    let name := ((dataName? (line.drop 2)).map (·.1)).getD ""
    .ok (.data ⟨name, dropFirst 2 m.parts⟩)
  else match completion? line with
    | some (tag, status) => .ok (.completed (lossy tag) ⟨status, serverWords line⟩)
    | none => .error (.line (lossy line))

/-- The words of a greeting that lets a session start. -/
def welcome (m : Message) : Except Fault String :=
  match salutation? m.opening with
  | some .bye => .error (.greeting (serverWords m.opening))
  | some _ => .ok (serverWords m.opening)
  | none => .error (.greeting (lossy m.opening))

end Message

end ImapProbe.Wire
