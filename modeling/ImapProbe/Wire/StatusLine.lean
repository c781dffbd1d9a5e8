import ImapProbe.Response
import ImapProbe.Text.Utf8

/-!
# Greetings and tagged completions

The grammar of the two lines that carry a status. The text behind the status is not empty and of
ASCII characters other than NUL, CR and LF; it may open with a code between brackets, and then
either ends there or goes on after a space. The words of the server are kept as they are: the
text of a line is what follows its second space.
-/

namespace ImapProbe.Wire

def isTextOctet (b : UInt8) : Bool := 1 ≤ b && b ≤ 127 && b != Bytes.cr && b != Bytes.lf

def isAtomOctet (b : UInt8) : Bool :=
  0x21 ≤ b && b ≤ 0x7E && !(utf8 "()\x7b%*\"\\]").contains b

/-- A character an argument may hold without quotes. -/
def isBareOctet (b : UInt8) : Bool := isAtomOctet b || b == 93

/-- A character a tag may hold. -/
def isTagOctet (b : UInt8) : Bool := isBareOctet b && b != 43

/-- Whether a line begins with a word, in any letter case. -/
def opensWith (word line : Bytes) : Bool :=
  (word.map Bytes.capital).isPrefixOf (line.map Bytes.capital)

/-- Where a list of character sets is being read. -/
inductive Charsets where
  | opening
  | atom
  | quoted
  | escaped
  | closed
  deriving DecidableEq, Repr

/-- What follows a list of character sets, each an atom or a quoted string, and its closing
parenthesis. -/
def afterCharsets : Charsets → Bytes → Option Bytes
  | _, [] => none
  | .opening, b :: bs =>
    if b = 34 then afterCharsets .quoted bs
    else if isAtomOctet b then afterCharsets .atom bs
    else none
  | .atom, b :: bs =>
    if isAtomOctet b then afterCharsets .atom bs
    else if b = Bytes.space then afterCharsets .opening bs
    else if b = 41 then some bs
    else none
  | .quoted, b :: bs =>
    if b = 34 then afterCharsets .closed bs
    else if b = 92 then afterCharsets .escaped bs
    else if isTextOctet b then afterCharsets .quoted bs
    else none
  | .escaped, b :: bs =>
    if b = 34 ∨ b = 92 then afterCharsets .quoted bs
    else none
  | .closed, b :: bs =>
    if b = Bytes.space then afterCharsets .opening bs
    else if b = 41 then some bs
    else none

/-- What follows the first closing bracket of a line. -/
def afterBracket : Bytes → Option Bytes
  | [] => none
  | b :: bs =>
    if b = 93 then some bs
    else if b = Bytes.cr ∨ b = Bytes.lf then none
    else afterBracket bs

/-- What follows a code and its closing bracket. The list of character sets is the one code that
may hold a closing bracket, inside quotes. -/
def afterCode (line : Bytes) : Option Bytes :=
  if opensWith (utf8 "BADCHARSET (") line then
    match afterCharsets .opening (line.drop 12) with
    | some (93 :: rest) => some rest
    | _ => afterBracket line
  else afterBracket line

def isText (line : Bytes) : Bool := !line.isEmpty && line.all isTextOctet

/-- The text behind a status, up to the end of the line. -/
def isStatusText : Bytes → Bool
  | 91 :: line =>
    match afterCode line with
    | some [] => true
    | some (32 :: text) => isText text
    | _ => false
  | line => isText line

/-- What follows the second space of a line, as text; nothing when there is none. -/
def serverWords (line : Bytes) : String :=
  lossy (((line.dropWhile (· != Bytes.space)).drop 1).dropWhile (· != Bytes.space) |>.drop 1)

/-- What a server may say first. -/
inductive Salutation where
  | ok
  | preauth
  | bye
  deriving DecidableEq, Repr

def salutation? (line : Bytes) : Option Salutation :=
  let first? (word : Bytes) (s : Salutation) : Option Salutation :=
    if opensWith word line && isStatusText (line.drop word.length) then some s else none
  first? (utf8 "* OK ") .ok <|> first? (utf8 "* PREAUTH ") .preauth <|> first? (utf8 "* BYE ") .bye

def completion? (line : Bytes) : Option (Bytes × Status) :=
  let tag := line.takeWhile isTagOctet
  let rest := line.dropWhile isTagOctet
  let status? (word : Bytes) (status : Status) : Option (Bytes × Status) :=
    if opensWith word rest && isStatusText (rest.drop word.length) then some (tag, status)
    else none
  if tag.isEmpty then none
  else status? (utf8 " OK ") .ok <|> status? (utf8 " NO ") .no <|> status? (utf8 " BAD ") .bad

end ImapProbe.Wire
