import ImapProbe.Fault
import ImapProbe.Storage.Path
import ImapProbe.Text.Split
import ImapProbe.Text.Utf8

/-!
# File trees

A file tree is a value: what lies in the working directory and below it. A place is the list of
names that leads to an entry. Of the directories above, and of the root, nothing is known but that
they exist; they are the places `..`, `../..` and `/`.

A path is walked name by name. A link is followed wherever it stands, at its end too, and at most
`greatestLinks` of them on one path. A path that ends in a slash is that of a directory.
-/

namespace ImapProbe

/-- The names that lead from the working directory to an entry. -/
abbrev Place := List String

inductive Entry where
  | file (content : Bytes)
  | directory
  | link (target : String)
  deriving DecidableEq, Repr

structure FileTree where
  entries : List (Place × Entry) := []
  deriving DecidableEq, Repr

namespace FileTree

/-- The working directory, a directory above it, or the root. -/
def isGiven (place : Place) : Bool := place.all (· == "..") || place == ["/"]

def get? (t : FileTree) (place : Place) : Option Entry :=
  if isGiven place then some .directory else t.entries.lookup place

def set (t : FileTree) (place : Place) (entry : Entry) : FileTree :=
  if (t.entries.lookup place).isSome then
    ⟨t.entries.map fun e => if e.1 == place then (place, entry) else e⟩
  else ⟨t.entries ++ [(place, entry)]⟩

def up (place : Place) : Place :=
  if place.all (· == "..") then ".." :: place
  else if place == ["/"] then place
  else place.dropLast

/-- How many links are followed on one path. -/
def greatestLinks : Nat := 40

/-- The longest name, in octets. -/
def greatestName : Nat := 255

/-- The longest path, in octets. -/
def greatestPath : Nat := 4095

def names (path : String) : List String := (cut '/' path.toList).map String.ofList

/-- Where a path starts, below a directory. -/
def start (here : Place) (path : String) : Place :=
  if Path.isAbsolute path.toList then ["/"] else here

/-- What a path is walked for: to look at what is there, or to write a file. No file is written
through the path of a directory, whether the directory exists or not. -/
inductive Purpose where
  | look
  | write
  deriving DecidableEq, Repr

/-- Walks down from a directory. The last name may be missing; the place is then free. -/
def walk (t : FileTree) (purpose : Purpose) (links : Nat) (here : Place) :
    List String → Except IoFault (Place × Option Entry)
  | [] => .ok (here, some .directory)
  | name :: rest =>
    if name = "" ∨ name = "." then walk t purpose links here rest
    else if name = ".." then walk t purpose links (up here) rest
    else if purpose = .write ∧ rest ≠ [] ∧ rest.all (· == "") then .error .isDirectory
    else if greatestName < (utf8 name).length then .error .nameTooLong
    else
      let place := here ++ [name]
      match t.get? place with
      | none => if rest.isEmpty then .ok (place, none) else .error .noSuchFile
      | some (.file content) =>
        if rest.isEmpty then .ok (place, some (.file content)) else .error .notDirectory
      | some .directory => walk t purpose links place rest
      | some (.link target) =>
        match links with
        | 0 => .error .tooManyLinks
        | links + 1 => walk t purpose links (start here target) (names target ++ rest)
termination_by names => (links, names.length)

def find (t : FileTree) (purpose : Purpose) (path : String) :
    Except IoFault (Place × Option Entry) :=
  if path.toList.contains (Char.ofNat 0) then .error .nulInName
  else if path = "" then .error .noSuchFile
  else if greatestPath < (utf8 path).length then .error .nameTooLong
  else walk t purpose greatestLinks (start [] path) (names path)

def read (t : FileTree) (path : Path) : Except IoFault Bytes :=
  match t.find .look path.text with
  | .error e => .error e
  | .ok (_, none) => .error .noSuchFile
  | .ok (_, some (.file content)) => .ok content
  | .ok (_, some _) => .error .isDirectory

/-- Writes a file: anew, or over what it held. -/
def write (t : FileTree) (path : Path) (content : Bytes) : Except IoFault FileTree :=
  match t.find .write path.text with
  | .error e => .error e
  | .ok (place, none) => .ok (t.set place (.file content))
  | .ok (place, some (.file _)) => .ok (t.set place (.file content))
  | .ok (_, some _) => .error .isDirectory

def isFile (t : FileTree) (path : Path) : Bool :=
  match t.find .look path.text with
  | .ok (_, some (.file _)) => true
  | _ => false

def namesIn (t : FileTree) (place : Place) : List String :=
  t.entries.filterMap fun e =>
    if e.1.dropLast == place then e.1.getLast? else none

def list (t : FileTree) (path : Path) : Except IoFault (List String) :=
  match t.find .look path.text with
  | .error e => .error e
  | .ok (_, none) => .error .noSuchFile
  | .ok (place, some .directory) => .ok (t.namesIn place)
  | .ok (_, some _) => .error .notDirectory

/-- Adds the directories that lead to a place, and the one at it. -/
def makeDirectory (t : FileTree) (place : Place) : FileTree :=
  (List.range place.length).foldl (fun t n =>
    let above := place.take (n + 1)
    if (t.get? above).isSome then t else t.set above .directory) t

/-- The place of a path, if no links are on the way. -/
def placeOf (path : String) : Place := (names path).filter fun name => name != "" && name != "."

def add (t : FileTree) (path : String) (entry : Entry) : FileTree :=
  (t.makeDirectory (placeOf path).dropLast).set (placeOf path) entry

/-- A tree of directories, files and links, added in this order. -/
def build (directories : List String) (files : List (String × Bytes))
    (links : List (String × String)) : FileTree :=
  let t := directories.foldl (fun t path => t.makeDirectory (placeOf path)) ({} : FileTree)
  let t := files.foldl (fun t f => t.add f.1 (.file f.2)) t
  links.foldl (fun t l => t.add l.1 (.link l.2)) t

/-- All files below the working directory, in the order of their paths. -/
def files (t : FileTree) : List (String × Bytes) :=
  let found := t.entries.filterMap fun e =>
    match e.2 with
    | .file content =>
      if e.1.contains ".." || e.1.contains "/" then none
      else some ("/".intercalate e.1, content)
    | _ => none
  found.mergeSort fun a b => decide (a.1 ≤ b.1)

end FileTree

end ImapProbe
