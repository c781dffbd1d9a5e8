import ImapProbe.Fault
import ImapProbe.Response
import ImapProbe.Text.Blank

/-!
# Items to fetch

A list of items is written with blanks between the names, any number of opening parentheses at its
start and of closing ones at its end. Names are read in any letter case.
-/

namespace ImapProbe

/-- What may be asked about a message. -/
inductive Item where
  | body
  | bodyStructure
  | envelope
  | flags
  | internalDate
  | rfc822Size
  | uid
  deriving DecidableEq, Repr

namespace Item

def name : Item → String
  | .body => "BODY"
  | .bodyStructure => "BODYSTRUCTURE"
  | .envelope => "ENVELOPE"
  | .flags => "FLAGS"
  | .internalDate => "INTERNALDATE"
  | .rfc822Size => "RFC822.SIZE"
  | .uid => "UID"

def all : List Item :=
  [.body, .bodyStructure, .envelope, .flags, .internalDate, .rfc822Size, .uid]

theorem mem_all (i : Item) : i ∈ all := by cases i <;> decide

def ofName? (name : String) : Option Item := all.find? fun i => i.name == capitals name

/-- The items of a list, which names one at least. -/
def ofList (items : String) : Except EncodingFault (List Item) :=
  let opened := items.toList.dropWhile (· == '(')
  let inner := (opened.reverse.dropWhile (· == ')')).reverse
  let read (word : List Char) : Except EncodingFault Item :=
    match ofName? (String.ofList word) with
    | some i => .ok i
    | none => .error (.unsupportedItem (String.ofList word))
  match (words inner).mapM read with
  | .ok [] => .error (.noItem items)
  | r => r

end Item

end ImapProbe
