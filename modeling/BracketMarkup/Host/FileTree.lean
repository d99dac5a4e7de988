import BracketMarkup.Host.Fault
import BracketMarkup.Path

namespace BracketMarkup.Host

inductive Entry where
  | file (content : Bytes) (executable : Bool)
  | directory
  deriving DecidableEq, Repr

abbrev Location := List (List Char)

/-- The files and directories under a root. The root itself is always there. -/
abbrev FileTree := List (Location × Entry)

/-- Where a path leads. Of what lies above the root nothing is known but that it is a directory. -/
inductive Place where
  | inside (location : Location)
  | above
  | nowhere
  deriving DecidableEq, Repr

namespace FileTree

def get? : FileTree → Location → Option Entry
  | [], _ => none
  | (other, entry) :: rest, location => if other = location then some entry else get? rest location

def entry? (tree : FileTree) (location : Location) : Option Entry :=
  if location = [] then some .directory else tree.get? location

def put (location : Location) (entry : Entry) : FileTree → FileTree
  | [] => [(location, entry)]
  | (other, old) :: rest =>
    if other = location then (other, entry) :: rest else (other, old) :: put location entry rest

def entryAt? (tree : FileTree) : Place → Option Entry
  | .inside location => tree.entry? location
  | .above => some .directory
  | .nowhere => none

def step (tree : FileTree) (place : Place) (name : List Char) : Except Fault Place :=
  match tree.entryAt? place with
  | none => .error .missing
  | some (.file _ _) => .error .notDirectory
  | some .directory =>
    if name = ['.'] then .ok place
    else if name = ['.', '.'] then
      match place with
      | .inside (name :: names) => .ok (.inside (name :: names).dropLast)
      | _ => .ok .above
    else if 255 < (Utf8.encode name).length then .error .nameTooLong
    else match place with
      | .inside location => .ok (.inside (location ++ [name]))
      | _ => .ok .nowhere

def components (path : List Char) : List (List Char) := (path.splitOn '/').filter (· != [])

def follow (tree : FileTree) (origin : Place) (path : List Char) : Except Fault Place :=
  if path = [] then .error .missing
  else if 4096 ≤ (Utf8.encode path).length then .error .nameTooLong
  else
    let start := if path.head? = some '/' then .above else origin
    (components path).foldlM tree.step start

/-- The entry that a path leads to, and its place. With a slash at its end a path leads to a directory
    only. -/
def find (tree : FileTree) (origin : Place) (path : List Char) : Except Fault (Place × Entry) := do
  let place ← tree.follow origin path
  match tree.entryAt? place with
  | none => .error .missing
  | some .directory => return (place, .directory)
  | some (.file content executable) =>
    if path.getLast? = some '/' then .error .notDirectory
    else return (place, .file content executable)

def isFile (tree : FileTree) (path : List Char) : Bool :=
  match tree.find (.inside []) path with
  | .ok (_, .file _ _) => true
  | _ => false

def isDirectory (tree : FileTree) (path : List Char) : Bool :=
  match tree.find (.inside []) path with
  | .ok (_, .directory) => true
  | _ => false

def bytesFrom (tree : FileTree) (origin : Place) (path : List Char) : Except Fault Bytes := do
  match ← tree.find origin path with
  | (_, .file content _) => return content
  | (_, .directory) => .error .isDirectory

def namesIn (tree : FileTree) (location : Location) : List (List Char) :=
  tree.filterMap fun (other, _) =>
    match other.getLast? with
    | some name => if other.dropLast = location then some name else none
    | none => none

def namesAt (tree : FileTree) (path : List Char) : Except Fault (List (List Char)) := do
  match ← tree.find (.inside []) path with
  | (.inside location, .directory) => return tree.namesIn location
  | (_, .directory) => return []
  | (_, .file _ _) => .error .notDirectory

def writeFrom (tree : FileTree) (origin : Place) (path : List Char) (content : Bytes) :
    Except Fault FileTree := do
  let place ← tree.follow origin path
  match place, tree.entryAt? place with
  | .inside location, some (.file _ executable) =>
    if path.getLast? = some '/' then .error .notDirectory
    else return tree.put location (.file content executable)
  | .inside location, none =>
    if path.getLast? = some '/' then .error .isDirectory
    else return tree.put location (.file content false)
  | _, some .directory => .error .isDirectory
  | _, _ => .error .missing

def plant (tree : FileTree) (path : List Char) (entry : Entry) : FileTree :=
  let location := components path
  let above := (List.range location.length).map location.take
  (above.foldl (fun tree above =>
    if (tree.entry? above).isSome then tree else tree.put above .directory) tree).put location entry

def makeDirectory (tree : FileTree) (path : List Char) : Except Fault FileTree := do
  let place ← tree.follow (.inside []) path
  match place, tree.entryAt? place with
  | _, some _ => .error .occupied
  | .inside location, none => return tree.put location .directory
  | _, none => .error .missing

end FileTree

end BracketMarkup.Host
