import ImapProbe.Bytes

/-!
# Elements

Structured data is a sequence of elements, each of a tag, a length and a content, which may be
elements in turn. A tag is one octet, and a length is written in the fewest octets.
-/

namespace ImapProbe.Element

/-- Contents are shorter. -/
def limit : Nat := 65535

/-- What stands behind a tag: a length, and that many octets of content; and what follows. -/
def content? : Bytes → Option (Bytes × Bytes)
  | 0x81 :: n :: rest => if 0x80 ≤ n then cutAt n.toNat rest else none
  | 0x82 :: m :: n :: rest => if m ≠ 0 then cutAt (m.toNat * 256 + n.toNat) rest else none
  | n :: rest => if n < 0x80 then cutAt n.toNat rest else none
  | [] => none
where
  /-- The first `n` octets, and what follows them. -/
  cutAt (n : Nat) (bs : Bytes) : Option (Bytes × Bytes) :=
    if n < limit ∧ n ≤ bs.length then some (bs.take n, bs.drop n) else none

/-- The content of an element with the given tag, and what follows it. -/
def field? (tag : UInt8) : Bytes → Option (Bytes × Bytes)
  | b :: rest => if b = tag then content? rest else none
  | [] => none

theorem length_le_of_content? {bs content rest : Bytes} (h : content? bs = some (content, rest)) :
    rest.length ≤ bs.length := by
  unfold content? content?.cutAt at h
  grind

theorem length_lt_of_field? {tag : UInt8} {bs content rest : Bytes}
    (h : field? tag bs = some (content, rest)) : rest.length < bs.length := by
  cases bs with
  | nil => simp [field?] at h
  | cons b bs =>
    simp only [field?] at h
    split at h
    · exact Nat.lt_succ_of_le (length_le_of_content? h)
    · simp at h

/-- The contents of elements with the given tags, in order, and what follows them. -/
def fields? : List UInt8 → Bytes → Option (List Bytes × Bytes)
  | [], bs => some ([], bs)
  | tag :: tags, bs => do
    let (content, bs) ← field? tag bs
    let (contents, bs) ← fields? tags bs
    return (content :: contents, bs)

/-- The contents of as many elements with the given tag as there are, and what follows them. -/
def run (tag : UInt8) (bs : Bytes) : List Bytes × Bytes :=
  match _h : field? tag bs with
  | none => ([], bs)
  | some (content, rest) =>
    let (contents, rest) := run tag rest
    (content :: contents, rest)
termination_by bs.length
decreasing_by exact length_lt_of_field? ‹_›

end ImapProbe.Element
