import ImapProbe.Command.Basic
import ImapProbe.Command.Item
import ImapProbe.Command.SequenceSet
import ImapProbe.Wire.Fragment
import ImapProbe.Wire.StatusLine

/-!
# The form of a command on the wire

A command is written as a tag, its name and its arguments. An argument takes the plainest form
that can carry it: bare, between double quotes, or as a literal. A literal cuts the command: the
line so far, with the announcement of the literal, is a fragment of its own, and the literal
follows once the server has asked for it. No form can carry NUL.
-/

namespace ImapProbe

open Wire

namespace Command

/-- A part of a command: octets that go on with the line, or a literal. -/
inductive Piece where
  | text (octets : Bytes)
  | literal (octets : Bytes)
  deriving DecidableEq, Repr

def nulOffset? (octets : Bytes) : Option Nat := octets.findIdx? (· == 0)

/-- A text between double quotes, with a backslash before each quote and backslash in it. -/
def quote (octets : Bytes) : Bytes :=
  34 :: (octets.flatMap fun b => if b = 34 ∨ b = 92 then [92, b] else [b]) ++ [34]

/-- The plainest form of an argument, or the place of the octet that none can carry. -/
def argument (octets : Bytes) : Except Nat Piece :=
  if !octets.isEmpty && octets.all isBareOctet then .ok (.text octets)
  else if octets.all isTextOctet then .ok (.text (quote octets))
  else match nulOffset? octets with
    | some offset => .error offset
    | none => .ok (.literal octets)

/-- The name INBOX is the same in any letter case, and is written in capitals. -/
def mailboxName (mailbox : String) : Bytes :=
  if capitals mailbox = "INBOX" then utf8 "INBOX" else utf8 mailbox

def named (name : ArgumentName) (form : Except Nat Piece) : Except EncodingFault Piece :=
  form.mapError (.argument name 0)

def onMailbox (name mailbox : String) : Except EncodingFault (List Piece) := do
  let mailbox ← (argument (mailboxName mailbox)).mapError (.octet 0)
  return [.text (utf8 (name ++ " ")), mailbox]

/-- The message of an APPEND is a literal, whatever it holds. -/
def message (octets : Bytes) : Except Nat Piece :=
  match nulOffset? octets with
  | some offset => .error offset
  | none => .ok (.literal octets)

/-- One item stands alone, several between parentheses. -/
def itemList : List Item → String
  | [item] => item.name
  | items => "(" ++ " ".intercalate (items.map Item.name) ++ ")"

/-- A command less its tag. -/
def pieces : Command → Except EncodingFault (List Piece)
  | .login user password => do
    let user ← named .username (argument (utf8 user))
    let password ← named .password (argument (utf8 password))
    return [.text (utf8 "LOGIN "), user, .text (utf8 " "), password]
  | .select mailbox => onMailbox "SELECT" mailbox
  | .create mailbox => onMailbox "CREATE" mailbox
  | .delete mailbox => onMailbox "DELETE" mailbox
  | .append mailbox octets => do
    let mailbox ← named .mailbox (argument (mailboxName mailbox))
    let octets ← named .data (message octets)
    return [.text (utf8 "APPEND "), mailbox, .text (utf8 " "), octets]
  | .fetch messages items => do
    let items ← Item.ofList items
    match SequenceSet.read? messages with
    | none => throw .sequenceSet
    | some set => return [.text (utf8 ("FETCH " ++ set.text ++ " " ++ itemList items))]
  | .close => return [.text (utf8 "CLOSE")]
  | .logout => return [.text (utf8 "LOGOUT")]

def announcement (size : Nat) : Bytes := utf8 ("\x7b" ++ toString size ++ "\x7d") ++ Bytes.crlf

/-- The fragments of a command that goes on after `line`. -/
def writtenFrom (line : Bytes) : List Piece → List Fragment
  | [] => [.line (line ++ Bytes.crlf)]
  | .text octets :: rest => writtenFrom (line ++ octets) rest
  | .literal octets :: rest =>
    .line (line ++ announcement octets.length) :: .literal octets :: writtenFrom [] rest

def written (tag : String) (pieces : List Piece) : List Fragment :=
  writtenFrom (utf8 (tag ++ " ")) pieces

/-- A tag is not empty, and each of its octets is one that a tag may hold. -/
def checkTag (tag : String) : Except EncodingFault Unit :=
  let octets := utf8 tag
  if octets.isEmpty then .error .emptyTag
  else match octets.zipIdx.find? fun p => !isTagOctet p.1 with
    | some (b, offset) => .error (.octet b offset)
    | none => .ok ()

def write (tag : String) (c : Command) : Except EncodingFault (List Fragment) := do
  let pieces ← c.pieces
  checkTag tag
  return written tag pieces

/-- A command in one line, less what must not be shown. -/
def outline (tag : String) (c : Command) (written : List Fragment) : String :=
  match c with
  | .login .. => tag ++ " LOGIN <redacted>"
  | .append .. => tag ++ " APPEND <literal>"
  | _ =>
    let first : Bytes := (written.findSome? fun
      | .line octets => some octets
      | .literal _ => none).getD []
    String.ofList (dropEndBlanks (lossy first).toList)

end Command

end ImapProbe
