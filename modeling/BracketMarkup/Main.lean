import BracketMarkup.CommandLine.Convert
import BracketMarkup.Programs.Launch

namespace BracketMarkup.CommandLine

open Host

def isScript (content : Bytes) : Bool := ['#', '!'].isPrefixOf (content.map fun byte => Char.ofNat byte.toNat)

partial def inputLines (input : IO.FS.Stream) : IO (List String) := do
  let line ← input.getLine
  if line.isEmpty then return []
  return line.trimAscii.toString :: (← inputLines input)

/-- Adds what a path leads to. What cannot be read as a file is taken for a directory. -/
def addPath (tree : FileTree) (path : String) : IO FileTree := do
  let location := (FileTree.components path.toList).filter (· != ['.'])
  if location.isEmpty then return tree
  let entry ← try
      let content := (← IO.FS.readBinFile path).toList
      pure (Entry.file content (isScript content))
    catch _ => pure Entry.directory
  return tree.plant (['/'].intercalate location) entry

def store (before after : FileTree) : IO Unit := do
  for (location, entry) in after do
    if before.get? location != some entry then
      let path := String.ofList (['/'].intercalate location)
      match entry with
      | .directory => IO.FS.createDirAll path
      | .file content _ => IO.FS.writeBinFile path (ByteArray.mk content.toArray)

end BracketMarkup.CommandLine

open BracketMarkup CommandLine in
def main (arguments : List String) : IO UInt32 := do
  let tree ← (← inputLines (← IO.getStdin)).foldlM addPath []
  let (outcome, desk) := CommandLine.run ⟨Programs.start, .boundless⟩ tree (arguments.map String.toList)
  store tree desk.tree
  IO.print desk.output
  IO.eprint desk.errors
  match outcome with
  | .ok status => return status.toUInt32
  | .error _ =>
    IO.eprintln "error: stopped"
    return 1
