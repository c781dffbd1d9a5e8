import ImapProbe.Bytes

/-!
# UTF-8

A machine reads one octet at a time and gives what the octet settles: a character, or the mark of
a malformed piece. A malformed piece is a longest run of octets that begins some character; the
octet that breaks it is read again on its own. Lossy text shows every piece as U+FFFD, strict text
refuses them.
-/

namespace ImapProbe

def utf8 (s : String) : Bytes := s.toList.flatMap String.utf8EncodeChar

@[simp] theorem utf8_append (s t : String) : utf8 (s ++ t) = utf8 s ++ utf8 t := by
  simp [utf8]

namespace Utf8

/-- Between characters, or inside one: its bits so far, the octets owed, and the bounds of the
next of them. -/
inductive State where
  | start
  | inside (value owed : Nat) (low high : UInt8)
  deriving DecidableEq, Repr

/-- The first octet of a character. -/
def first (b : UInt8) : List (Option Char) × State :=
  if b ≤ 0x7F then ([some (Char.ofNat b.toNat)], .start)
  else if b < 0xC2 then ([none], .start)
  else if b ≤ 0xDF then ([], .inside (b.toNat - 0xC0) 1 0x80 0xBF)
  else if b ≤ 0xEF then
    ([], .inside (b.toNat - 0xE0) 2 (if b = 0xE0 then 0xA0 else 0x80)
      (if b = 0xED then 0x9F else 0xBF))
  else if b ≤ 0xF4 then
    ([], .inside (b.toNat - 0xF0) 3 (if b = 0xF0 then 0x90 else 0x80)
      (if b = 0xF4 then 0x8F else 0xBF))
  else ([none], .start)

def State.next : State → UInt8 → List (Option Char) × State
  | .start, b => first b
  | .inside value owed low high, b =>
    if low ≤ b ∧ b ≤ high then
      let value := value * 64 + (b.toNat - 0x80)
      if owed = 1 then ([some (Char.ofNat value)], .start)
      else ([], .inside value (owed - 1) 0x80 0xBF)
    else (none :: (first b).1, (first b).2)

/-- Characters and malformed pieces, in order. -/
def pieces : State → Bytes → List (Option Char)
  | .start, [] => []
  | .inside .., [] => [none]
  | s, b :: bs => (s.next b).1 ++ pieces (s.next b).2 bs

end Utf8

/-- Text as a reader sees it: U+FFFD for every malformed piece. -/
def lossy (bs : Bytes) : String :=
  String.ofList ((Utf8.pieces .start bs).map (·.getD '\ufffd'))

/-- Text that holds no malformed piece. -/
def strict? (bs : Bytes) : Option String :=
  ((Utf8.pieces .start bs).mapM id).map String.ofList

end ImapProbe
