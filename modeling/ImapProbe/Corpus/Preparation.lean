import ImapProbe.Corpus.Basic

/-!
# Preparing a corpus

A test vector is a mail with the structure that is expected of it, under a line that holds a marker:
the mail is the lines before. A file with line feeds alone can be given carriage returns, once: a
file that has a CRLF is refused.
-/

namespace ImapProbe

inductive PreparationFault where
  | directory (path : Path) (cause : IoFault)
  | unreadable (path : Path) (cause : IoFault)
  | unwritable (cause : IoFault)
  | alreadyCrlf (path : Path)
  deriving DecidableEq, Repr

namespace PreparationFault

/-- What was being done, or the whole fault when it has no cause. -/
def outline : PreparationFault → String
  | .directory path _ => "unable to read corpus directory " ++ path.text
  | .unreadable path _ => "unable to read " ++ path.text
  | .unwritable cause => cause.text
  | .alreadyCrlf path => path.text ++ " is already a CRLF file"

def text (e : PreparationFault) : String :=
  match e with
  | .directory _ cause | .unreadable _ cause => e.outline ++ ": " ++ cause.text
  | _ => e.outline

end PreparationFault

def openCorpus (t : FileTree) (directory : Path) (extension : String) :
    Except PreparationFault (List Path) :=
  (corpus t directory extension).mapError (.directory directory)

namespace TestVector

/-- What the line above the expected structure holds. -/
def marker : Bytes := utf8 "EXPECTED STRUCTURE"

/-- The lines before the marker. -/
def mail (content : Bytes) : Bytes :=
  ((Bytes.lines content).takeWhile fun line => !Bytes.holds marker line).flatten

def extract (t : FileTree) (vector : Path) : Except PreparationFault (Path × FileTree) := do
  let content ← (t.read vector).mapError (.unreadable vector)
  let target := vector.withExtension "eml"
  let t ← (t.write target (mail content)).mapError .unwritable
  return (target, t)

/-- Writes the mails of test vectors up to the first that fails; the tree is the one it left. -/
def extractEach (t : FileTree) : List Path → Except PreparationFault (List Path) × FileTree
  | [] => (.ok [], t)
  | vector :: rest =>
    match extract t vector with
    | .error e => (.error e, t)
    | .ok (target, t) =>
      let (written, t) := extractEach t rest
      (written.map (target :: ·), t)

def extractAll (t : FileTree) (directory : Path) :
    Except PreparationFault (List Path) × FileTree :=
  match openCorpus t directory "txt" with
  | .error e => (.error e, t)
  | .ok vectors => extractEach t vectors

end TestVector

/-- Puts a carriage return before each line feed. -/
def withCrlf (content : Bytes) : Bytes :=
  content.flatMap fun b => if b = Bytes.lf then Bytes.crlf else [b]

def convertToCrlf (t : FileTree) (path : Path) : Except PreparationFault FileTree := do
  let content ← (t.read path).mapError (.unreadable path)
  if Bytes.holds Bytes.crlf content then throw (.alreadyCrlf path)
  (t.write path (withCrlf content)).mapError .unwritable

end ImapProbe
