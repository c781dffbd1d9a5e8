import ImapProbe.CommandLine.Program

/-!
# The command line

The program works on the value of the working directory: what lies in it and below is read before,
and the files that came out changed are written after. It is not given a switchboard with servers,
so each call is refused.
-/

namespace ImapProbe

/-- The entries of a directory and of those below it. A link counts as the file it leads to. -/
partial def entriesBelow (here : Place) (found : Array IO.FS.DirEntry) :
    IO (List (Place × Entry)) := do
  let entries ← found.toList.mapM fun e => do
    let place := here ++ [e.fileName]
    match (← e.path.symlinkMetadata).type with
    | .dir => return (place, .directory) :: (← entriesBelow place (← e.path.readDir))
    | _ =>
      try return [(place, .file (← IO.FS.readBinFile e.path).toList)]
      catch _ => return []
  return entries.flatten

def environment : IO Environment :=
  [Request.profileFileVariable, Request.passwordVariable].filterMapM fun name =>
    return (← IO.getEnv name).map fun value => (name, value)

end ImapProbe

open ImapProbe

def main (args : List String) : IO UInt32 := do
  let before : FileTree := ⟨← entriesBelow [] (← (← IO.currentDir).readDir)⟩
  let (ending, site) := program (← environment) args ⟨{ waiting := [] }, before⟩
  for (path, content) in site.files.files do
    if !before.files.contains (path, content) then
      IO.FS.writeBinFile path ⟨content.toArray⟩
  match ending with
  | .success output => IO.print output
  | .failure message => IO.eprintln message
  | .usage => IO.eprintln "The arguments are not well-formed."
  return ending.code.toUInt32
