import ImapProbe.Fault
import ImapProbe.Network.Bundle
import ImapProbe.Network.Element

/-!
# Certificates

A certificate is a sequence of the signed part, the algorithm of the signature, and the signature.
The signed part of the third version of certificates names the same algorithm and may have
extensions: a critical one must be known, and a known one stands once. That of the first version
has neither a version nor extensions, and no other version is known.
-/

namespace ImapProbe.Certificate

open Element

/-! ### The tags of elements -/

abbrev boolean : UInt8 := 0x01

abbrev integer : UInt8 := 0x02

abbrev bits : UInt8 := 0x03

abbrev octets : UInt8 := 0x04

abbrev objectId : UInt8 := 0x06

abbrev sequence : UInt8 := 0x30

abbrev version : UInt8 := 0xA0

abbrev extensions : UInt8 := 0xA3

/-- The number that stands for the third version. -/
def thirdVersion : Bytes := [integer, 0x01, 0x02]

structure Extension where
  id : Bytes
  isCritical : Bool
  value : Bytes
  deriving DecidableEq, Repr

namespace Extension

/-- Whether an extension is critical, which it is not when nothing is said, and what follows. -/
def critical? (content : Bytes) : Option (Bool × Bytes) :=
  if content.head? = some boolean then
    match field? boolean content with
    | some ([0xFF], rest) => some (true, rest)
    | some ([0x00], rest) => some (false, rest)
    | _ => none
  else some (false, content)

def read? (content : Bytes) : Option (Extension × Bytes) := do
  let (id, rest) ← field? objectId content
  let (isCritical, rest) ← critical? rest
  let (value, rest) ← field? octets rest
  return ({ id, isCritical, value }, rest)

/-- The use of the key, whose value may be anything. -/
def keyUsage : UInt8 := 15

/-- The numbers of the known extensions: the use of the key, other names, basic constraints, name
constraints, distribution points, and the extended use of the key. -/
def known : List UInt8 := [keyUsage, 17, 19, 30, 31, 37]

/-- The number of a known extension. All of them lie under one number for each of three levels. -/
def number? (e : Extension) : Option UInt8 :=
  match e.id with
  | [0x55, 0x1D, n] => if known.contains n then some n else none
  | _ => none

/-- Checks an extension behind known ones with the given numbers: the numbers up to and with it. -/
def check (seen : List UInt8) (e : Extension) : Except CertificateFault (List UInt8) :=
  match e.number? with
  | none => if e.isCritical then .error .unknownExtension else .ok seen
  | some n =>
    if seen.contains n then .error .repeatedExtension
    else if n == keyUsage || (field? sequence e.value).any (·.2.isEmpty) then .ok (n :: seen)
    else .error .badEncoding

end Extension

def checkExtensions : List UInt8 → List Bytes → Except CertificateFault Unit
  | _, [] => .ok ()
  | seen, content :: rest =>
    match Extension.read? content with
    | none => .error .badEncoding
    | some (e, left) =>
      match e.check seen with
      | .error fault => .error fault
      | .ok seen => if left.isEmpty then checkExtensions seen rest else .error .badEncoding

/-- Checks what follows the keys in the signed part: nothing, or extensions, at least one. -/
def checkEnd (content : Bytes) : Except CertificateFault Unit :=
  if content.isEmpty then .ok ()
  else match field? extensions content with
    | none => .error .badEncoding
    | some (inner, rest) =>
      match field? sequence inner with
      | none => .error .badEncoding
      | some (list, innerRest) =>
        let (contents, left) := run sequence list
        match checkExtensions [] contents with
        | .error fault => .error fault
        | .ok () =>
          if !contents.isEmpty && left.isEmpty && innerRest.isEmpty && rest.isEmpty then .ok ()
          else .error .badEncoding

/-- Checks what follows the version in the signed part of a certificate of the third version, where
the algorithm of the signature is given. -/
def checkThird (algorithm content : Bytes) : Except CertificateFault Unit :=
  match fields? [integer, sequence] content with
  | some ([_, named], rest) =>
    if named ≠ algorithm then .error .otherAlgorithm
    else match fields? [sequence, sequence, sequence, sequence] rest with
      | some (_, rest) => checkEnd rest
      | none => .error .badEncoding
  | _ => .error .badEncoding

/-- Checks the signed part of a certificate of the first version. -/
def checkFirst (content : Bytes) : Except CertificateFault Unit :=
  match fields? [integer, sequence, sequence, sequence, sequence, sequence] content with
  | some (_, []) => .ok ()
  | _ => .error .badEncoding

def check (certificate : Bytes) : Except CertificateFault Unit :=
  match field? sequence certificate with
  | some (content, []) =>
    match fields? [sequence, sequence, bits] content with
    | some ([signed, algorithm, 0x00 :: _], []) =>
      match field? version signed with
      | some (number, rest) =>
        if number = thirdVersion then checkThird algorithm rest else .error .badEncoding
      | none => checkFirst signed
    | _ => .error .badEncoding
  | _ => .error .badEncoding

def checkAll : List (Except IoFault Bytes) → Except Fault Unit
  | [] => .ok ()
  | .error fault :: _ => .error (.io fault)
  | .ok certificate :: rest =>
    match check certificate with
    | .error fault => .error (.tls (.certificate fault))
    | .ok () => checkAll rest

end ImapProbe.Certificate
