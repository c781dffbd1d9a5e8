import ImapProbe.Toml.Token

/-!
# Numbers of a TOML document

Digits may be parted by single underscores. A decimal number has a zero in front only if it is
zero. An integer fits in 64 bits, and a float is finite.
-/

namespace ImapProbe.Toml

def isDigitOf (base : Nat) (c : Char) : Bool :=
  match hexValue? c with
  | some d => d < base
  | none => false

structure Digits where
  read : List Char := []
  /-- The run began with a zero. -/
  zeroFirst : Bool := false
  /-- The last character was an underscore. -/
  parted : Bool := false

/-- A run of digits with single underscores between them, and what follows it. -/
def digits (base : Nat) (leadingZeros : Bool) (d : Digits) :
    List Char → Option (List Char × List Char)
  | [] => if d.read.isEmpty || d.parted then none else some (d.read.reverse, [])
  | c :: cs =>
    if c = '0' ∧ d.read.isEmpty then
      digits base leadingZeros { d with read := [c], zeroFirst := true } cs
    else if isDigitOf base c then
      if !d.read.isEmpty && d.zeroFirst && !leadingZeros then none
      else digits base leadingZeros { d with read := c :: d.read, parted := false } cs
    else if c = '_' ∧ d.read.isEmpty then none
    else if c = '_' ∧ !d.parted then digits base leadingZeros { d with parted := true } cs
    else if d.read.isEmpty || d.parted then none
    else some (d.read.reverse, c :: cs)

/-- Digits behind a sign, if one is allowed: whether it is a minus, the digits and the rest. -/
def signed (sign : Bool) (base : Nat) (leadingZeros : Bool) (cs : List Char) :
    Option (Bool × List Char × List Char) :=
  let withSign := sign && (cs.head? == some '+' || cs.head? == some '-')
  (digits base leadingZeros {} (if withSign then cs.drop 1 else cs)).map
    (withSign && cs.head? == some '-', ·)

def natOf (base : Nat) (ds : List Char) : Nat :=
  ds.foldl (fun n c => n * base + (hexValue? c).getD 0) 0

def integer? (base : Nat) (cs : List Char) : Option Int :=
  match signed (base == 10) base (base != 10) cs with
  | some (negative, ds, []) =>
    let n : Int := natOf base ds
    let n := if negative then -n else n
    if (Int64.ofInt n).toInt = n then some n else none
  | _ => none

/-- Whether `digits * 10 ^ exponent` rounds to a finite double. -/
def isFinite (ds : List Char) (exponent : Int) : Bool :=
  let n := natOf 10 ds
  let size : Int := (Nat.toDigits 10 n).length + exponent
  let bound := Nat.pow 2 1024 - Nat.pow 2 970
  if n = 0 ∨ size < 300 then true
  else if 310 < size then false
  else if 0 ≤ exponent then n * Nat.pow 10 exponent.toNat < bound
  else n < bound * Nat.pow 10 (-exponent).toNat

end ImapProbe.Toml
