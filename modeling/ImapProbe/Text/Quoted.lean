import ImapProbe.Text.Printable

/-!
# Quoted text

A text between double quotes. A quote, a backslash, a tab, a line end and a NUL in it are written
with a backslash, and any other character that is not printable by its number.
-/

namespace ImapProbe

namespace Quoted

def byNumber (c : Char) : List Char :=
  ['\\', 'u', '\x7b'] ++ Nat.toDigits 16 c.toNat ++ ['\x7d']

/-- A character as it stands in a quoted text. -/
def escape (c : Char) : List Char :=
  if c = '"' ∨ c = '\\' then ['\\', c]
  else if c = '\t' then ['\\', 't']
  else if c = '\n' then ['\\', 'n']
  else if c = '\r' then ['\\', 'r']
  else if c = Char.ofNat 0 then ['\\', '0']
  else if isPrintable c then [c]
  else byNumber c

end Quoted

def quoted (s : String) : String :=
  "\"" ++ String.ofList (s.toList.flatMap Quoted.escape) ++ "\""

end ImapProbe
