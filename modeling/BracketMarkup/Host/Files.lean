import BracketMarkup.Document.Reader
import BracketMarkup.Host.FileTree

namespace BracketMarkup.Host

/-- How much a device takes of what is to be written to a file of a tree, and why no more, unless it
    takes all. -/
abbrev Device := FileTree → List Char → Bytes → Option (Nat × Fault)

namespace Device

def boundless : Device := fun _ _ _ => none

def fill (device : Device) (tree : FileTree) (path : List Char) (content : Bytes) :
    Except Refusal Unit × Bytes :=
  match device tree path content with
  | none => (.ok (), content)
  | some (count, cause) => (.error (.fault cause path), content.take count)

end Device

namespace FileTree

def checked {α : Type} (path : List Char) (outcome : Except Fault α) : Except Refusal α :=
  if '\x00' ∈ path then .error .nul else outcome.mapError (.fault · path)

def readBytes (tree : FileTree) (path : List Char) : Except Refusal Bytes :=
  checked path (tree.bytesFrom (.inside []) path)

def readText (tree : FileTree) (path : List Char) : Except ReadFailure (List Char) :=
  match tree.readBytes path with
  | .error refusal => .error (.refused refusal)
  | .ok bytes =>
    match Utf8.decode bytes with
    | .error bad => .error (.undecodable bad)
    | .ok text => .ok (unifyLineEnds text)

def list (tree : FileTree) (path : List Char) : Except Refusal (List (List Char)) :=
  checked path (tree.namesAt path)

def openAnew (tree : FileTree) (path : List Char) : Except Refusal FileTree :=
  checked path (tree.writeFrom (.inside []) path [])

/-- Opens a file anew and fills it. It keeps what its device has taken, also if that is not all. -/
def write (device : Device) (tree : FileTree) (path text : List Char) : Except Refusal Unit × FileTree :=
  match tree.openAnew path with
  | .error refusal => (.error refusal, tree)
  | .ok opened =>
    let (outcome, taken) := device.fill opened path (Utf8.encode text)
    match checked path (opened.writeFrom (.inside []) path taken) with
    | .ok filled => (outcome, filled)
    | .error refusal => (.error refusal, opened)

/-- The metadata of a file as variables. What is no file, no UTF-8 or no document gives none; a file
    that cannot be read is refused. -/
def fileBindings (tree : FileTree) (path : List Char) : Except Refusal Bindings :=
  if '\x00' ∈ path ∨ !tree.isFile path then .ok []
  else match tree.readText path with
    | .error (.refused refusal) => .error refusal
    | .error (.undecodable _) => .ok []
    | .ok text =>
      match Document.metadataOf text with
      | .ok metadata => .ok (metadataBindings metadata)
      | .error _ => .ok []

def splitTail (path : List Char) : List Char × List Char :=
  let front := Path.directory path
  if Path.base path = [] then (Path.directory front, Path.base front) else (front, Path.base path)

def present (tree : FileTree) (path : List Char) : Bool :=
  !path.contains '\x00' && (tree.find (.inside []) path).isOk

def ensureDirectory (tree : FileTree) (path : List Char) : Except Refusal Unit × FileTree :=
  match checked path (tree.makeDirectory path) with
  | .ok made => (.ok (), made)
  | .error .nul => (.error .nul, tree)
  | .error refusal => (if tree.isDirectory path then .ok () else .error refusal, tree)

/-- Makes a directory and, to a depth, those above it. What was made stays when a later one fails. -/
def ensureWithin : Nat → FileTree → List Char → Except Refusal Unit × FileTree
  | 0, tree, path => tree.ensureDirectory path
  | depth + 1, tree, path =>
    let (above, name) := splitTail path
    if above ≠ [] ∧ name ≠ [] ∧ !tree.present above then
      match ensureWithin depth tree above with
      | (.ok (), made) => if name = ['.'] then (.ok (), made) else made.ensureDirectory path
      | (.error (.fault .occupied _), made) =>
        if name = ['.'] then (.ok (), made) else made.ensureDirectory path
      | (.error refusal, made) => (.error refusal, made)
    else tree.ensureDirectory path

def ensureDirectories (tree : FileTree) (path : List Char) : Except Refusal Unit × FileTree :=
  ensureWithin path.length tree path

end FileTree

end BracketMarkup.Host
