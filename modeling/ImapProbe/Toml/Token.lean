/-!
# Tokens of a TOML document

The characters of a document are cut into tokens before anything is made of them, by a machine that
reads one character at a time. A line ends in a line feed, with or without a carriage return before
it. Words hold ASCII letters, digits, hyphens and underscores: keys, numbers, dates and truth values
alike. A string between three marks may hold line ends, less one right at its start, and one or two
marks of its own before the closing three.
-/

namespace ImapProbe.Toml

inductive Token where
  /-- Spaces and tabs. -/
  | blank (text : List Char)
  | newline
  | comment
  | equals
  | period
  | comma
  | colon
  | plus
  | openBrace
  | closeBrace
  | openBracket
  | closeBracket
  | word (text : List Char)
  | string (multiline : Bool) (value : List Char)
  deriving DecidableEq, Repr

/-- Line feeds in the stead of CRLF pairs. -/
def foldCrlf : List Char → List Char
  | '\r' :: '\n' :: rest => '\n' :: foldCrlf rest
  | c :: rest => c :: foldCrlf rest
  | [] => []

def isPlain (c : Char) : Bool := c == '\t' || (0x20 ≤ c.toNat && c.toNat != 0x7F)

/-- A character a comment may hold. -/
def isCommentChar (c : Char) : Bool := c == '\t' || 0x20 ≤ c.toNat

def isWordChar (c : Char) : Bool := c.isAlphanum || c == '-' || c == '_'

def isBlankChar (c : Char) : Bool := c == ' ' || c == '\t'

def hexValue? (c : Char) : Option Nat :=
  if c.isDigit then some (c.toNat - '0'.toNat)
  else if 'a' ≤ c && c ≤ 'f' then some (c.toNat - 'a'.toNat + 10)
  else if 'A' ≤ c && c ≤ 'F' then some (c.toNat - 'A'.toNat + 10)
  else none

structure Text where
  mark : Char
  multiline : Bool
  fresh : Bool := true
  /-- Its characters, the last one first. -/
  value : List Char := []
  /-- The marks just read, which may close it. -/
  marks : Nat := 0
  deriving DecidableEq, Repr

namespace Text

def push (s : Text) (c : Char) : Text := { s with fresh := false, value := c :: s.value }

/-- The marks just read do not close the string. -/
def settle (s : Text) : Text :=
  { s with fresh := s.fresh && s.marks == 0, marks := 0
           value := List.replicate s.marks s.mark ++ s.value }

/-- The string, when some of the marks just read close it. -/
def token (s : Text) (closing : Nat) : Token :=
  .string s.multiline (List.replicate (s.marks - closing) s.mark ++ s.value).reverse

end Text

inductive State where
  | start
  /-- Inside a word, whose characters are given last one first. -/
  | word (read : List Char)
  | blank (read : List Char)
  | comment
  /-- One or two marks stand at the start of a string. -/
  | opened (mark : Char) (marks : Nat)
  | inside (s : Text)
  | escape (s : Text)
  | hex (s : Text) (owed value : Nat)
  /-- Behind a backslash that joins lines, before the line end or past it. -/
  | joining (s : Text) (ended : Bool)
  deriving DecidableEq, Repr

def first (c : Char) : Option (List Token × State) :=
  if c = '\n' then some ([.newline], .start)
  else if c = '=' then some ([.equals], .start)
  else if c = '.' then some ([.period], .start)
  else if c = ',' then some ([.comma], .start)
  else if c = ':' then some ([.colon], .start)
  else if c = '+' then some ([.plus], .start)
  else if c = '\x7b' then some ([.openBrace], .start)
  else if c = '\x7d' then some ([.closeBrace], .start)
  else if c = '[' then some ([.openBracket], .start)
  else if c = ']' then some ([.closeBracket], .start)
  else if c = '#' then some ([.comment], .comment)
  else if isBlankChar c then some ([], .blank [c])
  else if isWordChar c then some ([], .word [c])
  else if c = '"' ∨ c = '\'' then some ([], .opened c 1)
  else none

def endBefore (t : List Token) (c : Char) : Option (List Token × State) :=
  (first c).map fun r => (t ++ r.1, r.2)

def Text.next (s : Text) (c : Char) : Option (List Token × State) :=
  if c = s.mark then
    let s := { s with marks := s.marks + 1 }
    if !s.multiline then some ([s.token 1], .start)
    else if s.marks = 5 then some ([s.token 3], .start)
    else some ([], .inside s)
  else if 3 ≤ s.marks then endBefore [s.token 3] c
  else
    let s := s.settle
    if c = '\n' then
      if !s.multiline then none
      else if s.fresh then some ([], .inside { s with fresh := false })
      else some ([], .inside (s.push c))
    else if c = '\\' ∧ s.mark = '"' then some ([], .escape { s with fresh := false })
    else if isPlain c then some ([], .inside (s.push c))
    else none

/-- A character behind a backslash. -/
def Text.escaped (s : Text) (c : Char) : Option State :=
  if c = '"' ∨ c = '\\' then some (.inside (s.push c))
  else if c = 'b' then some (.inside (s.push '\x08'))
  else if c = 'f' then some (.inside (s.push '\x0c'))
  else if c = 'n' then some (.inside (s.push '\n'))
  else if c = 'r' then some (.inside (s.push '\r'))
  else if c = 't' then some (.inside (s.push '\t'))
  else if c = 'u' then some (.hex s 4 0)
  else if c = 'U' then some (.hex s 8 0)
  else if s.multiline ∧ isBlankChar c then some (.joining s false)
  else if s.multiline ∧ c = '\n' then some (.joining s true)
  else none

def State.next : State → Char → Option (List Token × State)
  | .start, c => first c
  | .word read, c =>
    if isWordChar c then some ([], .word (c :: read)) else endBefore [.word read.reverse] c
  | .blank read, c =>
    if isBlankChar c then some ([], .blank (c :: read)) else endBefore [.blank read.reverse] c
  | .comment, c => if isCommentChar c then some ([], .comment) else first c
  | .opened mark 1, c =>
    if c = mark then some ([], .opened mark 2)
    else Text.next { mark, multiline := false } c
  | .opened mark _, c =>
    if c = mark then some ([], .inside { mark, multiline := true })
    else endBefore [.string false []] c
  | .inside s, c => s.next c
  | .escape s, c => (s.escaped c).map ([], ·)
  | .hex s owed value, c =>
    match hexValue? c with
    | none => none
    | some d =>
      let value := value * 16 + d
      if owed ≠ 1 then some ([], .hex s (owed - 1) value)
      else if value.isValidChar then some ([], .inside (s.push (Char.ofNat value)))
      else none
  | .joining s false, c =>
    if isBlankChar c then some ([], .joining s false)
    else if c = '\n' then some ([], .joining s true)
    else none
  | .joining s true, c =>
    if isBlankChar c || c == '\n' then some ([], .joining s true) else s.next c

def State.finish : State → Option (List Token)
  | .start | .comment => some []
  | .word read => some [.word read.reverse]
  | .blank read => some [.blank read.reverse]
  | .opened _ 2 => some [.string false []]
  | .inside s => if 3 ≤ s.marks then some [s.token 3] else none
  | _ => none

/-- The tokens of the characters from a state on. -/
def tokens (s : State) : List Char → Option (List Token)
  | [] => s.finish
  | c :: cs =>
    match s.next c with
    | none => none
    | some (done, s) => (tokens s cs).map (done ++ ·)

def tokenize (text : String) : Option (List Token) :=
  let cs := foldCrlf text.toList
  tokens .start (if cs.head? = some '\ufeff' then cs.drop 1 else cs)

end ImapProbe.Toml
