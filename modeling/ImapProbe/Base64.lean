import ImapProbe.Bytes

/-!
# Base 64

Four characters stand for three octets, six bits each. At the end two or three characters stand for
one or two octets, and equals signs may fill them up to four; bits left over say nothing. Blanks may
stand anywhere.
-/

namespace ImapProbe

inductive Base64Fault where
  /-- A character that is none of base 64. -/
  | stray (octet : UInt8)
  /-- An equals sign before the last four characters. -/
  | earlyPadding
  /-- The last characters stand for no octets. -/
  | brokenEnd
  deriving DecidableEq, Repr

def Base64Fault.text : Base64Fault → String
  | .stray octet => "InvalidCharacter(" ++ toString octet.toNat ++ ")"
  | .earlyPadding => "PrematurePadding"
  | .brokenEnd => "InvalidTrailingPadding"

namespace Base64

def digit? (b : UInt8) : Option Nat :=
  if Bytes.isUpper b then some (b.toNat - 65)
  else if Bytes.isLower b then some (b.toNat - 71)
  else if Bytes.isDigit b then some (b.toNat + 4)
  else if b = 43 then some 62
  else if b = 47 then some 63
  else none

def padding : UInt8 := 61

def isBlank (b : UInt8) : Bool := b == Bytes.space || (9 ≤ b && b ≤ 13)

/-- The octets of digits, where the padding has none. -/
def octets : List (Option Nat) → Except Base64Fault Bytes
  | [] => .ok []
  | [some a, some b] | [some a, some b, none, none] => .ok [UInt8.ofNat (a * 4 + b / 16)]
  | [some a, some b, some c] | [some a, some b, some c, none] =>
    let n := (a * 64 + b) * 64 + c
    .ok [UInt8.ofNat (n / 1024), UInt8.ofNat (n / 4)]
  | some a :: some b :: some c :: some d :: rest => do
    let n := ((a * 64 + b) * 64 + c) * 64 + d
    return UInt8.ofNat (n / 65536) :: UInt8.ofNat (n / 256) :: UInt8.ofNat n :: (← octets rest)
  | digits => .error (if 4 < digits.length then .earlyPadding else .brokenEnd)

/-- The octets a text stands for. Of a stray character and padding before it the padding is the
fault if eight characters that it is among are followed by another one. -/
def decode (text : Bytes) : Except Base64Fault Bytes :=
  let text := text.filter fun b => !isBlank b
  let read := text.takeWhile fun b => b == padding || (digit? b).isSome
  match text[read.length]? with
  | none => octets (read.map digit?)
  | some b =>
    if (read.take ((read.length - 1) / 8 * 8)).contains padding then .error .earlyPadding
    else .error (.stray b)

end Base64

end ImapProbe
