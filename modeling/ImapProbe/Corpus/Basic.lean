import ImapProbe.Storage.FileTree

/-!
# Corpora

A corpus is the files of one directory with one extension, in the order of their names.
-/

namespace ImapProbe

def hasExtension (extension name : String) : Bool :=
  (Path.splitName name.toList).2 == some extension.toList

/-- The messages of a directory; an entry of another kind is passed over. -/
def corpus (t : FileTree) (directory : Path) (extension : String) :
    Except IoFault (List Path) :=
  match t.list directory with
  | .error e => .error e
  | .ok names =>
    let messages := names.filter fun name =>
      hasExtension extension name && t.isFile (directory.child name)
    .ok ((messages.mergeSort fun a b => decide (a ≤ b)).map directory.child)

end ImapProbe
