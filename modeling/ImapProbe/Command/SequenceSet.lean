import ImapProbe.Fault
import ImapProbe.Text.Split

/-!
# Sets of sequence numbers

A set lists numbers and ranges of numbers in the order in which they are given. A number is at
least 1 and fits in 32 bits; `*` is the number of the last message.
-/

namespace ImapProbe

inductive Bound where
  | last
  | number (n : Nat)
  deriving DecidableEq, Repr

namespace Bound

def text : Bound → String
  | .last => "*"
  | .number n => toString n

/-- Reads a number, which may have a plus sign in front and then zeros, or a star. -/
def read? (cs : List Char) : Option Bound :=
  if cs = ['*'] then some .last
  else if cs.head? = some '0' then none
  else
    let digits := if cs.head? = some '+' then cs.drop 1 else cs
    let n := Nat.ofDigitChars 10 digits 0
    if !digits.isEmpty && digits.all Char.isDigit && 1 ≤ n && n < UInt32.size then some (.number n)
    else none

end Bound

inductive Range where
  | single (n : Bound)
  | between (low high : Bound)
  deriving DecidableEq, Repr

namespace Range

def text : Range → String
  | .single n => n.text
  | .between low high => low.text ++ ":" ++ high.text

def read? (cs : List Char) : Option Range :=
  match cut ':' cs with
  | [n] => (Bound.read? n).map .single
  | [low, high] => return .between (← Bound.read? low) (← Bound.read? high)
  | _ => none

end Range

structure SequenceSet where
  ranges : List Range
  deriving DecidableEq, Repr

namespace SequenceSet

def text (s : SequenceSet) : String := ",".intercalate (s.ranges.map Range.text)

def read? (s : String) : Option SequenceSet := ((cut ',' s.toList).mapM Range.read?).map .mk

end SequenceSet

end ImapProbe
