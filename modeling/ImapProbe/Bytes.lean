/-!
# Byte strings

What travels on a connection and lies in a file. A line runs up to and with its line feed, the
last one up to the end: cutting into lines loses nothing (`flatten_lines`).
-/

namespace ImapProbe

abbrev Bytes := List UInt8

namespace Bytes

def cr : UInt8 := 13

def lf : UInt8 := 10

def space : UInt8 := 32

def crlf : Bytes := [cr, lf]

def isDigit (b : UInt8) : Bool := 48 ≤ b && b ≤ 57

def isUpper (b : UInt8) : Bool := 65 ≤ b && b ≤ 90

def isLower (b : UInt8) : Bool := 97 ≤ b && b ≤ 122

def isLetter (b : UInt8) : Bool := isUpper b || isLower b

def capital (b : UInt8) : UInt8 := if isLower b then b - 32 else b

/-- The pieces of a byte string, each up to and with an octet that ends one. -/
def cutAfter (isEnd : UInt8 → Bool) : Bytes → List Bytes
  | [] => []
  | b :: bs =>
    if isEnd b then [b] :: cutAfter isEnd bs
    else match cutAfter isEnd bs with
      | [] => [[b]]
      | l :: ls => (b :: l) :: ls

theorem flatten_cutAfter (isEnd : UInt8 → Bool) : ∀ bs : Bytes, (cutAfter isEnd bs).flatten = bs
  | [] => rfl
  | b :: bs => by
    have ih := flatten_cutAfter isEnd bs
    unfold cutAfter
    split
    · simp [ih]
    · split <;> rename_i h <;> rw [h] at ih <;> simp_all

def lines (bs : Bytes) : List Bytes := cutAfter (· == lf) bs

theorem flatten_lines (bs : Bytes) : (lines bs).flatten = bs := flatten_cutAfter _ bs

def holds (needle : Bytes) : Bytes → Bool
  | [] => needle.isEmpty
  | b :: bs => needle.isPrefixOf (b :: bs) || holds needle bs

theorem holds_iff {needle : Bytes} : ∀ {bs : Bytes}, holds needle bs ↔ needle <:+: bs
  | [] => by simp [holds]
  | b :: bs => by
    rw [holds, Bool.or_eq_true, List.isPrefixOf_iff_prefix, holds_iff, List.infix_cons_iff]

end Bytes

end ImapProbe
