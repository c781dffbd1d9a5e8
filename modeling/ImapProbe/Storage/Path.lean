/-!
# Paths

A path is a text of names between slashes. Slashes at its end, and names `.` other than a first
one, stand for nothing. The name of a path is its last one, unless that is `.` or `..`; the stem
of a name ends at its last dot, unless the name starts there.
-/

namespace ImapProbe

structure Path where
  text : String
  deriving DecidableEq, Repr

namespace Path

/-- The name less its last dot and what follows, and what follows that dot. A dot at the start of
a name does not count. -/
def splitName (name : List Char) : List Char × Option (List Char) :=
  let tail := name.reverse.takeWhile (· != '.')
  match name.reverse.dropWhile (· != '.') with
  | [] => (name, none)
  | _ :: stem => if stem.isEmpty then (name, none) else (stem.reverse, some tail.reverse)

/-- A reversed path less the slashes and dots at its end that stand for nothing. -/
def trimEnd : List Char → List Char
  | '/' :: c :: rest => trimEnd (c :: rest)
  | '.' :: '/' :: c :: rest => trimEnd (c :: rest)
  | ['.', '/'] => ['/']
  | rest => rest

/-- The last name of a path and what stands before it. -/
def split (p : Path) : List Char × List Char :=
  let reversed := trimEnd p.text.toList.reverse
  ((reversed.takeWhile (· != '/')).reverse, (trimEnd (reversed.dropWhile (· != '/'))).reverse)

def name? (p : Path) : Option (List Char) :=
  let name := p.split.1
  if name = [] ∨ name = ['.'] ∨ name = ['.', '.'] then none else some name

def stem? (p : Path) : Option (List Char) := p.name?.map fun n => (splitName n).1

def extension? (p : Path) : Option (List Char) := p.name?.bind fun n => (splitName n).2

def isAbsolute (name : List Char) : Bool := name.head? == some '/'

/-- A path below another; an absolute one stands for itself. -/
def below (base name : List Char) : Path :=
  if isAbsolute name then ⟨String.ofList name⟩
  else if base.isEmpty || base.getLast? == some '/' then ⟨String.ofList (base ++ name)⟩
  else ⟨String.ofList (base ++ '/' :: name)⟩

/-- The path with another name, or with a name behind a path that has none. -/
def withName (p : Path) (name : List Char) : Path :=
  match p.name? with
  | some _ => below p.split.2 name
  | none => below p.text.toList name

def child (directory : Path) (name : String) : Path := below directory.text.toList name.toList

/-- The path with another extension; the path ends in its name. A name such as `..txt` is no name
without its extension, and then the path gets no other. -/
def withExtension (p : Path) (extension : String) : Path :=
  match p.extension? with
  | some old =>
    let kept : Path := ⟨String.ofList (p.text.toList.take (p.text.length - old.length))⟩
    if kept.name?.isSome then ⟨kept.text ++ extension⟩ else kept
  | none => ⟨p.text ++ "." ++ extension⟩

end Path

end ImapProbe
