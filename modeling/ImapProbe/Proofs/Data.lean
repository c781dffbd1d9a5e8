import ImapProbe.Artifact
import ImapProbe.Proofs.DataName
import ImapProbe.Proofs.Utterance

/-!
# Data that a server utters

An untagged utterance is read as data (`read_message`) whose name is the one its first line tells
(`name_datum_iff`), and whose octets are those it had on the wire, less the asterisk before the
name and the last line ending, with CRLF behind each announcement (`folded_datum`).
-/

namespace ImapProbe.Wire.Utterance

variable {u : Utterance}

/-- The text of the first line. -/
def opening (u : Utterance) : Bytes :=
  match u.literals with
  | l :: _ => l.line.text
  | [] => u.last.text

def IsUntagged (u : Utterance) : Prop := utf8 "* " <+: u.opening

/-- An untagged utterance with data of this name. -/
def Tells (name : String) (u : Utterance) : Prop :=
  u.IsUntagged ∧ Names (utf8 name) (u.opening.drop 2)

/-- The utterance less its last line ending, with CRLF for every other line ending. -/
def folded (u : Utterance) : Bytes :=
  (u.literals.flatMap fun l => l.line.text ++ Bytes.crlf ++ l.octets) ++ u.last.text

/-- The data that the utterance is read as. -/
def datum (u : Utterance) : ServerData :=
  ⟨((dataName? (u.opening.drop 2)).map (·.1)).getD "", dropFirst 2 u.parts⟩

/-- All line endings are CRLF. -/
def EndsInCrlf (u : Utterance) : Prop :=
  (∀ l ∈ u.literals, l.line.ending = .crlf) ∧ u.last.ending = .crlf

theorem octets_of_endsInCrlf (h : u.EndsInCrlf) : u.octets = u.folded ++ Bytes.crlf := by
  have hline : ∀ l : Line, l.ending = .crlf → l.octets = l.text ++ Bytes.crlf := fun l hl => by
    simp [Line.octets, Line.body, hl, Ending.carriage, Bytes.crlf]
  have hlits : u.literals.flatMap (fun l => l.line.octets ++ l.octets)
      = u.literals.flatMap fun l => l.line.text ++ Bytes.crlf ++ l.octets :=
    congrArg List.flatten (List.map_congr_left fun l hl => by rw [hline l.line (h.1 l hl)])
  rw [octets, hlits, hline u.last h.2, folded, List.append_assoc]

theorem opening_message (u : Utterance) : u.message.opening = u.opening := by
  rcases u with ⟨_ | ⟨l, literals⟩, last, plain⟩ <;> rfl

theorem read_message (h : u.IsUntagged) : u.message.read = .ok (.data u.datum) := by
  obtain ⟨text, ht⟩ := h
  have hplus : (utf8 "+").isPrefixOf u.opening = false := by
    rw [← ht]
    rfl
  have hstar : (utf8 "* ").isPrefixOf u.opening = true := by
    rw [← ht]
    exact List.isPrefixOf_iff_prefix.mpr (List.prefix_append ..)
  simp only [Message.read, opening_message, hplus, hstar]
  rfl

theorem folded_parts (u : Utterance) : ImapProbe.folded u.parts = u.folded := by
  simp [ImapProbe.folded, parts, folded, List.flatMap_map]

theorem folded_datum (h : u.IsUntagged) : ImapProbe.folded u.datum.parts = u.folded.drop 2 := by
  have hlen : 2 ≤ u.opening.length := h.length_le
  rcases u with ⟨_ | ⟨l, literals⟩, last, plain⟩
  · simp [ImapProbe.folded, datum, parts, dropFirst, folded]
  · have hp : dropFirst 2 (parts ⟨l :: literals, last, plain⟩)
        = .literal (l.line.text.drop 2) l.octets :: parts ⟨literals, last, plain⟩ := by
      rw [parts_cons]
      rfl
    have hrest := folded_parts ⟨literals, last, plain⟩
    simp only [ImapProbe.folded] at hrest
    simp only [ImapProbe.folded, datum, hp, List.flatMap_cons, hrest]
    simp only [folded, List.flatMap_cons, List.append_assoc]
    rw [List.drop_append_of_le_length (show 2 ≤ l.line.text.length from hlen)]

/-- Data have the name that their first line tells. -/
theorem name_datum_iff {name : String} (hn : utf8 name ≠ []) (ha : (utf8 name).all (· ≤ 0x7F))
    (hl : lossy (utf8 name) = name) (h : u.IsUntagged) : u.datum.name = name ↔ u.Tells name := by
  have hd : u.datum.name = lossy (utf8 name) ↔ Names (utf8 name) (u.opening.drop 2) :=
    dataName_eq_iff hn fun b hb => of_decide_eq_true (List.all_eq_true.mp ha b hb)
  rw [hl] at hd
  exact hd.trans ⟨fun hnames => ⟨h, hnames⟩, And.right⟩

theorem name_datum_fetch (h : u.IsUntagged) : u.datum.name = "FETCH" ↔ u.Tells "FETCH" :=
  name_datum_iff (by decide) (by decide) (by rfl) h

theorem name_datum_bye (h : u.IsUntagged) : u.datum.name = "BYE" ↔ u.Tells "BYE" :=
  name_datum_iff (by decide) (by decide) (by rfl) h

theorem capitals_name_datum (u : Utterance) : capitals u.datum.name = u.datum.name := by
  have hw : ∀ b ∈ nameWord (u.opening.drop 2), b ≤ 0x7F := fun b hb =>
    isNameOctet_ascii (nameWord_isNameOctet b hb)
  have hidem : ∀ b : UInt8, b ≤ 0x7F → Bytes.capital (Bytes.capital b) = Bytes.capital b :=
    forall_ascii _ (by decide)
  rw [datum, dataName_eq, capitals_lossy (map_capital_ascii hw), List.map_map]
  congr 1
  exact List.map_congr_left fun b hb => hidem b (hw b hb)

instance : DecidablePred (Tells "FETCH") := fun u =>
  if h : utf8 "* " <+: u.opening then
    decidable_of_iff _ (name_datum_fetch h)
  else isFalse fun ht => h ht.1

end ImapProbe.Wire.Utterance
