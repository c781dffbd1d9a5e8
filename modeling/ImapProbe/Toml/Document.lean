import ImapProbe.Toml.Value

/-!
# TOML documents

A document is a list of sections: entries, each section but the first under a header. A header
names the table its entries belong to; a header between double brackets adds an element to an array
of tables, and what is below that header belongs to the element until the next one. A table has one
section at most, and a section of an array must stand before those below it.
-/

namespace ImapProbe.Toml

structure Section where
  header : List String := []
  isElement : Bool := false
  entries : Entries := []

/-- Adds an entry to the last section. -/
def addToLast (parts : List String) (v : Value) : List Section → Option (List Section)
  | [] => (addEntry v parts []).map fun entries => [{ entries }]
  | [s] => (addEntry v parts s.entries).map fun entries => [{ s with entries }]
  | s :: rest => (addToLast parts v rest).map (s :: ·)

def header (ts : List Token) : Option (Section × List Token) := do
  let isElement := ts.head? == some .openBracket
  let (header, ts) ← key (skipBlank (if isElement then ts.drop 1 else ts))
  match isElement, ts with
  | false, .closeBracket :: ts | true, .closeBracket :: .closeBracket :: ts =>
    return ({ header, isElement }, ← endLine ts)
  | _, _ => none

/-- The sections of a document behind those already read. The first argument bounds the lines. -/
def sections : Nat → List Section → List Token → Option (List Section)
  | 0, _, _ => none
  | n + 1, read, ts =>
    match skipLines ts with
    | [] => some read
    | .openBracket :: ts =>
      match header ts with
      | none => none
      | some (s, ts) => sections n (read ++ [s]) ts
    | ts =>
      match key ts with
      | some (parts, .equals :: ts) =>
        match value (2 * ts.length) (skipBlank ts) with
        | none => none
        | some (v, ts) =>
          match endLine ts, addToLast parts v read with
          | some ts, some read => sections n read ts
          | _, _ => none
      | _ => none

/-- The sections of each element of an array, the first section of an element being its own. -/
def elementSections (header : List String) : List Section → List (Section × List Section)
  | [] => []
  | s :: rest =>
    let later := elementSections header rest
    if s.isElement ∧ s.header = header then (s, below header rest) :: later else later
where
  /-- The sections up to the next element. -/
  below (header : List String) (ss : List Section) : List Section :=
    ss.takeWhile fun s => !(s.isElement && s.header == header)

/-- The entries of a table, from the sections of it and of what is below it. The headers of all of
them begin with `depth` names in common. `owner` is the header of the shortest section that was
met, and none before the first. The first argument bounds the steps. -/
def tableOf : Nat → (depth : Nat) → (owner : Option (List String)) → List Section → Option Entries
  | 0, _, _, _ => none
  | _ + 1, _, _, [] => some []
  | n + 1, depth, owner, s :: rest =>
    if owner = some s.header then none
    else
      let owner := match owner with
        | some o => if s.header.length < o.length then s.header else o
        | none => s.header
      match s.header[depth]? with
      | none =>
        if s.isElement then none
        else (tableOf n depth (some owner) rest).map (s.entries ++ ·)
      | some key =>
        let mine := s :: rest.filter fun t => t.header[depth]? == some key
        let others := rest.filter fun t => t.header[depth]? != some key
        let made : Option Value :=
          if s.isElement && s.header.length == depth + 1 then
            let elements := (elementSections s.header mine).mapM fun (head, below) =>
              (tableOf n (depth + 1) (some head.header) below).map fun entries =>
                Value.table .headers (head.entries ++ entries)
            elements.map .array
          else (tableOf n (depth + 1) none mine).map (.table .headers)
        match made, tableOf n depth (some owner) others with
        | some v, some entries => some ((key, v) :: entries)
        | _, _ => none

def document (text : String) : Option Entries := do
  let ts ← tokenize text
  let ss ← sections (ts.length + 1) [] ts
  tableOf ((ss.flatMap Section.header).length + ss.length + 1) 0 none ss

end ImapProbe.Toml
