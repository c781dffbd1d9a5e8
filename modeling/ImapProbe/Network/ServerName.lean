import ImapProbe.Text.Split

/-!
# Server names

The names a certificate can be checked against: IPv4 and IPv6 addresses in their full forms, and
DNS names. A DNS name has labels of letters, digits, hyphens and underscores between periods; a
label neither starts nor ends with a hyphen, and the last one is not a number.
-/

namespace ImapProbe

namespace ServerName

def isOctet (cs : List Char) : Bool :=
  !cs.isEmpty && cs.length ≤ 3 && cs.all Char.isDigit && (cs.length == 1 || cs.head? != some '0')
    && Nat.ofDigitChars 10 cs 0 ≤ 255

def isIPv4 (cs : List Char) : Bool :=
  let parts := cut '.' cs
  parts.length == 4 && parts.all isOctet

def isHexGroup (cs : List Char) : Bool :=
  1 ≤ cs.length && cs.length ≤ 4
    && cs.all fun c => c.isDigit || ('a' ≤ c && c ≤ 'f') || ('A' ≤ c && c ≤ 'F')

/-- How many groups a part of an IPv6 address has; the last may be an IPv4 address in the stead
of two. -/
def groups? (ipv4 : Bool) (cs : List Char) : Option Nat :=
  if cs.isEmpty then some 0
  else
    let parts := cut ':' cs
    let tail := parts.getLast?.getD []
    if parts.all isHexGroup then some parts.length
    else if ipv4 && parts.dropLast.all isHexGroup && isIPv4 tail then some (parts.length + 1)
    else none

/-- The parts of an address before and behind its first pair of colons. -/
def splitGap : List Char → List Char × Option (List Char)
  | ':' :: ':' :: rest => ([], some rest)
  | c :: rest => (c :: (splitGap rest).1, (splitGap rest).2)
  | [] => ([], none)

def isIPv6 (cs : List Char) : Bool :=
  match splitGap cs with
  | (whole, none) => groups? true whole == some 8
  | (front, some back) =>
    match groups? false front, groups? true back with
    | some m, some n => m + n ≤ 7
    | _, _ => false

def isLabelChar (c : Char) : Bool := c.isAlphanum || c == '-' || c == '_'

def isLabel (cs : List Char) : Bool :=
  1 ≤ cs.length && cs.length ≤ 63 && cs.all isLabelChar && cs.head? != some '-'
    && cs.getLast? != some '-'

/-- A period may stand at the end. -/
def isDns (cs : List Char) : Bool :=
  let labels := cut '.' cs
  let labels := if labels.getLast? == some [] then labels.dropLast else labels
  cs.length ≤ 253 && !labels.isEmpty && labels.all isLabel
    && !((labels.getLast?.getD []).all Char.isDigit)

def isValid (host : String) : Bool :=
  isIPv4 host.toList || isIPv6 host.toList || isDns host.toList

end ServerName

end ImapProbe
