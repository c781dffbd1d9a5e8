import ImapProbe.Toml.Number

/-!
# Values of a TOML document

A table keeps its entries in the order of the document, also those of one key. Keys with dots
build tables inside tables, which further keys of the same beginning go on with; a table written
in any other form is closed to them. Of a float or a date only the kind is kept.
-/

namespace ImapProbe.Toml

inductive TableForm where
  /-- Between braces. -/
  | braces
  /-- By keys with dots, which may add to it. -/
  | dotted
  /-- Under headers. -/
  | headers
  deriving DecidableEq, Repr

inductive Value where
  | string (s : String)
  | integer (n : Int)
  | float
  | boolean (b : Bool)
  | date
  | array (values : List Value)
  | table (form : TableForm) (entries : List (String × Value))

abbrev Entries := List (String × Value)

/-- Puts a value under a key of several parts. -/
def addEntry (value : Value) : List String → Entries → Option Entries
  | [], _ => none
  | [key], entries => some (entries ++ [(key, value)])
  | key :: rest, entries =>
    match entries.findIdx? fun e => e.1 == key with
    | none => (addEntry value rest []).map fun inner => entries ++ [(key, .table .dotted inner)]
    | some i =>
      match entries[i]? with
      | some (_, .table .dotted inner) =>
        (addEntry value rest inner).map fun inner => entries.set i (key, .table .dotted inner)
      | _ => none

def skipBlank : List Token → List Token
  | .blank _ :: ts => ts
  | ts => ts

/-- The tokens less blanks, line ends and comments in front. -/
def skipLines : List Token → List Token
  | .blank _ :: ts | .newline :: ts => skipLines ts
  | .comment :: .newline :: ts => skipLines ts
  | [.comment] => []
  | ts => ts

/-- The tokens of the next line, when the line at hand ends here. -/
def endLine (ts : List Token) : Option (List Token) :=
  match skipBlank ts with
  | [] | [.comment] => some []
  | .newline :: ts | .comment :: .newline :: ts => some ts
  | _ => none

def keyPart : List Token → Option (String × List Token)
  | .word text :: ts | .string false text :: ts => some (String.ofList text, ts)
  | _ => none

/-- The further parts of a key, each behind a period. -/
def keyParts : Nat → List Token → Option (List String × List Token)
  | 0, _ => none
  | n + 1, ts =>
    match skipBlank ts with
    | .period :: ts => do
      let (part, ts) ← keyPart (skipBlank ts)
      let (parts, ts) ← keyParts n ts
      return (part :: parts, ts)
    | ts => some ([], ts)

def key (ts : List Token) : Option (List String × List Token) := do
  let (part, ts) ← keyPart ts
  let (parts, ts) ← keyParts (ts.length + 1) ts
  return (part :: parts, ts)

/-- A float: what stands before the period, and behind it. -/
def float? (whole : List Char) (fraction : Option (List Char)) (ts : List Token) :
    Option (Value × List Token) := do
  let (_, ds, rest) ← signed true 10 false whole
  let (fs, rest) ← match fraction with
    | none => pure ([], rest)
    | some cs => if rest.isEmpty then digits 10 true {} cs else none
  let places : Int := fs.length
  let finite (exponent : Int) : Option Value :=
    if isFinite (ds ++ fs) (exponent - places) then some .float else none
  match rest with
  | [] => return (← finite 0, ts)
  | e :: cs =>
    if e ≠ 'e' ∧ e ≠ 'E' then none
    else if cs.isEmpty then
      match (if ts.head? = some .plus then ts.drop 1 else ts) with
      | .word cs :: ts =>
        match digits 10 true {} cs with
        | some (es, []) => return (← finite (natOf 10 es), ts)
        | _ => none
      | _ => none
    else
      match signed true 10 true cs with
      | some (negative, es, []) =>
        let n : Int := natOf 10 es
        return (← finite (if negative then -n else n), ts)
      | _ => none

/-- A number whose first word is given. -/
def number? (cs : List Char) (ts : List Token) : Option (Value × List Token) :=
  let integer (base : Nat) (cs : List Char) := (integer? base cs).map fun n => (.integer n, ts)
  match cs with
  | '0' :: 'x' :: ds => integer 16 ds
  | '0' :: 'o' :: ds => integer 8 ds
  | '0' :: 'b' :: ds => integer 2 ds
  | _ =>
    if cs.contains 'e' || cs.contains 'E' then float? cs none ts
    else match ts with
      | .period :: .word fraction :: ts => float? cs (some fraction) ts
      | .period :: _ => none
      | _ =>
        let unsigned := if cs.head? = some '-' then cs.drop 1 else cs
        if unsigned = "inf".toList ∨ unsigned = "nan".toList then some (.float, ts)
        else integer 10 cs

def wordAfter (mark : Token) (ts : List Token) : Option (List Token) :=
  if ts.head? = some mark then
    match ts.drop 1 with
    | .word _ :: ts => some ts
    | _ => none
  else some ts

/-- The rest of a date or time behind its first word; the first colon may have been read. -/
def date? (colonRead : Bool) (ts : List Token) : Option (List Token) :=
  let ts := match ts with
    | .blank [' '] :: .word _ :: ts => ts
    | _ => ts
  let (timed, ts) := if colonRead then (true, ts)
    else if ts.head? = some .colon then (true, ts.drop 1)
    else (false, ts)
  if !timed then some ts
  else match ts with
    | .word _ :: .colon :: .word _ :: ts => do
      let ts ← wordAfter .period ts
      let ts ← wordAfter .plus ts
      wordAfter .colon ts
    | _ => none

/-- A number or a date whose first word is given. -/
def numberOrDate? (cs : List Char) (ts : List Token) : Option (Value × List Token) :=
  let holds (a b : Char) := (cs.zip (cs.drop 1)).contains (a, b)
  if cs.contains 'T' || cs.contains 't'
      || ((cs.drop 1).contains '-' && !holds 'e' '-' && !holds 'E' '-') then
    (date? false ts).map (.date, ·)
  else if ts.head? = some .colon then (date? true (ts.drop 1)).map (.date, ·)
  else number? cs ts

def wordValue? (cs : List Char) (ts : List Token) : Option (Value × List Token) :=
  if cs = "true".toList then some (.boolean true, ts)
  else if cs = "false".toList then some (.boolean false, ts)
  else if cs = "inf".toList ∨ cs = "nan".toList ∨ (cs.head?.any fun c => c == '-' || c.isDigit) then
    numberOrDate? cs ts
  else none

mutual

/-- A value. The first argument bounds the tokens it may have. -/
def value : Nat → List Token → Option (Value × List Token)
  | 0, _ => none
  | n + 1, ts =>
    match ts with
    | .string _ text :: ts => some (.string (String.ofList text), ts)
    | .word cs :: ts => wordValue? cs ts
    | .plus :: .word cs :: ts => number? cs ts
    | .openBracket :: ts => (elements n [] (skipLines ts)).map fun r => (.array r.1, r.2)
    | .openBrace :: ts =>
      match skipBlank ts with
      | .closeBrace :: ts => some (.table .braces [], ts)
      | ts => (pairs n [] ts).map fun r => (.table .braces r.1, r.2)
    | _ => none

/-- The elements of an array behind those already read, up to its bracket. -/
def elements : Nat → List Value → List Token → Option (List Value × List Token)
  | 0, _, _ => none
  | n + 1, read, ts =>
    match ts with
    | .closeBracket :: ts => some (read, ts)
    | _ =>
      match value n ts with
      | none => none
      | some (v, ts) =>
        match skipLines ts with
        | .comma :: ts => elements n (read ++ [v]) (skipLines ts)
        | .closeBracket :: ts => some (read ++ [v], ts)
        | _ => none

/-- The entries of a table between braces behind those already read, up to its brace. -/
def pairs : Nat → Entries → List Token → Option (Entries × List Token)
  | 0, _, _ => none
  | n + 1, read, ts =>
    match key ts with
    | some (parts, .equals :: ts) =>
      match value n (skipBlank ts) with
      | none => none
      | some (v, ts) =>
        match addEntry v parts read with
        | none => none
        | some read =>
          match skipBlank ts with
          | .closeBrace :: ts => some (read, ts)
          | .comma :: ts => pairs n read (skipBlank ts)
          | _ => none
    | _ => none

end

end ImapProbe.Toml
