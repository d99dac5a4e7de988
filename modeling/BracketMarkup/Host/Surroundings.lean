import BracketMarkup.Host.Files
import BracketMarkup.Template.Engine

namespace BracketMarkup.Host

open Template

/-- What starting a program with the words of a command line answers, in a directory of a tree. -/
abbrev Starter := FileTree → List Char → List (List Char) → Except String (Bytes × Int) × FileTree

/-- What a run meets besides files: the programs that it can start, and what its files are kept on. -/
structure Machine where
  start : Starter
  device : Device

def listFault : Refusal → ListFault
  | .nul => .nul
  | refusal => .refused refusal.message

def surroundings (start : Starter) : Environment FileTree where
  list tree path := (tree.list path).mapError listFault
  fileBindings tree path := (tree.fileBindings path).mapError Refusal.message
  start := start

def loadEngine (tree : FileTree) (path : List Char) (bindings : Bindings) (verbose : Bool) :
    Except ReadFailure Engine := do
  let template ← tree.readText path
  return Engine.make template (Path.directory path) bindings verbose

end BracketMarkup.Host
