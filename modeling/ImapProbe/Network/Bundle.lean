import ImapProbe.Fault
import ImapProbe.Text.Utf8

/-!
# Bundles

A bundle is a text with sections, each between a line that opens it, with `-----BEGIN `, the kind of
what it holds and five dashes, and a line that closes it, with `-----END `, the same kind and five
dashes. Sections of some kinds hold base 64, and of these certificates are looked for; text between
sections, and sections of any other kind, say nothing. Where a section is opened inside another it
takes over the lines read so far.
-/

namespace ImapProbe.Bundle

/-- A section that was opened: its kind, and its lines, the last one first. -/
structure Section where
  kind : Bytes
  lines : List Bytes := []

def certificateKind : String := "CERTIFICATE"

def base64Kinds : List String :=
  [certificateKind, "PUBLIC KEY", "RSA PRIVATE KEY", "PRIVATE KEY", "EC PRIVATE KEY", "X509 CRL",
    "CERTIFICATE REQUEST", "ECHCONFIG"]

def dash : UInt8 := 45

def opening : Bytes := utf8 "-----BEGIN "

/-- A line feed or a carriage return, each of which ends a line. -/
def isLineEnd (b : UInt8) : Bool := b == Bytes.lf || b == Bytes.cr

/-- The kind of the section that a line opens: what stands before the dashes at its end. There must
be five; spaces may stand between and behind them. -/
def kind? (line : Bytes) : Option Bytes :=
  let isTail (b : UInt8) := b == dash || b == Bytes.space || isLineEnd b
  let tail := (line.reverse.takeWhile isTail).reverse.dropWhile (· != dash)
  if tail.count dash = 5 then some ((line.take (line.length - tail.length)).drop opening.length)
  else none

namespace Section

def isClosedBy (s : Section) (line : Bytes) : Bool :=
  (utf8 "-----END " ++ s.kind ++ utf8 "-----").isPrefixOf line

/-- What a section that was closed holds, if it is a certificate. -/
def certificate? (s : Section) : Except Base64Fault (Option Bytes) :=
  if base64Kinds.any fun kind => utf8 kind == s.kind then
    (Base64.decode s.lines.reverse.flatten).map fun octets =>
      if s.kind == utf8 certificateKind then some octets else none
  else .ok none

end Section

/-- The certificates up to the first fault, which then comes last. A section may have been opened
before the lines. -/
def certificatesOf : Option Section → List Bytes → List (Except IoFault Bytes)
  | none, [] => []
  | some s, [] => [.error (.openSection (lossy s.kind))]
  | current, line :: rest =>
    if opening.isPrefixOf line then
      match kind? line with
      | none => [.error (.illegalSection (lossy line))]
      | some kind => certificatesOf (some { kind, lines := current.elim [] Section.lines }) rest
    else match current with
      | none => certificatesOf none rest
      | some s =>
        if s.isClosedBy line then
          match s.certificate? with
          | .error e => [.error (.base64 e)]
          | .ok none => certificatesOf none rest
          | .ok (some octets) => .ok octets :: certificatesOf none rest
        else certificatesOf (some { s with lines := line :: s.lines }) rest

def certificates (bundle : Bytes) : List (Except IoFault Bytes) :=
  certificatesOf none (Bytes.cutAfter isLineEnd bundle)

end ImapProbe.Bundle
