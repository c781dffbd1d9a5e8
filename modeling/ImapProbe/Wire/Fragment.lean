import ImapProbe.Bytes

/-!
# Fragments of a byte stream

Both sides of a connection send lines and literals. A line that ends in `{n}` or `{n+}` announces
a literal of `n` octets, which follows its line feed. The announcement is found by a machine that
reads the line one octet at a time and looks at nothing but the last brace group.
-/

namespace ImapProbe.Wire

/-- One line with its ending, or the octets of one literal. -/
inductive Fragment where
  | line (octets : Bytes)
  | literal (octets : Bytes)
  deriving DecidableEq, Repr

def Fragment.octets : Fragment → Bytes
  | .line octets => octets
  | .literal octets => octets

/-- How much of an announcement stands at the end of what was read of a line. -/
inductive Announcing where
  | other
  | opened
  | digits (value : Nat)
  | plus (value : Nat)
  | closed (value : Nat)
  /-- A carriage return, with the announcement right before it. -/
  | returned (announced : Option Nat)
  deriving DecidableEq, Repr

namespace Announcing

def next (s : Announcing) (b : UInt8) : Announcing :=
  if b = 123 then .opened
  else if b = Bytes.cr then
    match s with
    | .closed n => .returned (some n)
    | _ => .returned none
  else
    match s with
    | .opened => if Bytes.isDigit b then .digits (b.toNat - 48) else .other
    | .digits n =>
      if Bytes.isDigit b then
        let n := n * 10 + (b.toNat - 48)
        if n < UInt32.size then .digits n else .other
      else if b = 43 then .plus n
      else if b = 125 then .closed n
      else .other
    | .plus n => if b = 125 then .closed n else .other
    | _ => .other

/-- The size announced when the line feed comes now. -/
def size? : Announcing → Option Nat
  | .closed n => some n
  | .returned announced => announced
  | _ => none

end Announcing

/-- The size of the literal that a line announces, its line feed left out. -/
def announced? (line : Bytes) : Option Nat := (line.foldl Announcing.next .other).size?

/-- A line without its ending: the line feed, and one carriage return before it. -/
def chomp (line : Bytes) : Bytes :=
  let body := if line.getLast? = some Bytes.lf then line.dropLast else line
  if line.getLast? = some Bytes.lf ∧ body.getLast? = some Bytes.cr then body.dropLast else body

end ImapProbe.Wire
