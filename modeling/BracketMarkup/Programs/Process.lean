import BracketMarkup.Host.Surroundings
import BracketMarkup.Programs.Octets

namespace BracketMarkup.Programs

open Host

/-- What a program has open: a file at some offset, a pipe with what is still to be read from it, or the
    device that takes everything. -/
inductive Channel where
  | file (location : Location) (offset : Nat) (append : Bool)
  | pipe (pending : Octets)
  | null
  deriving Inhabited

/-- A running program. Several descriptors may share a channel. -/
structure Process where
  tree : FileTree
  channels : Array Channel
  descriptors : List (Nat × Nat)
  place : Place
  environment : List (Octets × Octets)

inductive Opening where
  | read
  | write
  | append
  deriving DecidableEq, Repr

namespace Process

def fresh (tree : FileTree) (place : Place) : Process :=
  ⟨tree, #[.null, .pipe [], .null], [(0, 0), (1, 1), (2, 2)], place, []⟩

def addChannel (process : Process) (channel : Channel) : Nat × Process :=
  (process.channels.size, { process with channels := process.channels.push channel })

def connect (process : Process) (number : Nat) (channel : Option Nat) : Process :=
  let others := process.descriptors.filter (·.1 != number)
  { process with descriptors := (channel.map (number, ·)).toList ++ others }

def find (process : Process) (path : Octets) : Except Fault (Place × Entry) :=
  process.tree.find process.place (Octets.toText path)

def openFile (process : Process) (location : Location) (append : Bool) : Nat × Process :=
  process.addChannel (.file location 0 append)

def openAnew (process : Process) (path : Octets) : Except Fault (Nat × Process) := do
  let tree ← process.tree.writeFrom process.place (Octets.toText path) []
  match ← tree.find process.place (Octets.toText path) with
  | (.inside location, _) => return { process with tree }.openFile location false
  | _ => .error .missing

def openPath (process : Process) (path : Octets) (opening : Opening) : Except Fault (Nat × Process) :=
  if path = "/dev/null".toList then .ok (process.addChannel .null)
  else match process.find path with
    | .ok (.inside location, .file _ _) =>
      if opening = .write then process.openAnew path else .ok (process.openFile location (opening == .append))
    | .ok _ => .error .isDirectory
    | .error cause => if cause = .missing ∧ opening ≠ .read then process.openAnew path else .error cause

def channel? (process : Process) (number : Nat) : Option (Nat × Channel) := do
  let index ← process.descriptors.lookup number
  return (index, ← process.channels[index]?)

def content (process : Process) (location : Location) : Bytes :=
  match process.tree.get? location with
  | some (.file content _) => content
  | _ => []

def pending? (process : Process) (number : Nat) : Option Octets :=
  (process.channel? number).map fun (_, channel) => match channel with
    | .file location offset _ => .ofBytes ((process.content location).drop offset)
    | .pipe pending => pending
    | .null => []

def setChannel (process : Process) (index : Nat) (channel : Channel) : Process :=
  { process with channels := process.channels.set! index channel }

def advance (process : Process) (number count : Nat) : Process :=
  match process.channel? number with
  | some (index, .file location offset append) =>
    process.setChannel index (.file location (offset + count) append)
  | some (index, .pipe pending) => process.setChannel index (.pipe (pending.drop count))
  | _ => process

def write? (process : Process) (number : Nat) (octets : Octets) : Option Process :=
  (process.channel? number).map fun (index, channel) => match channel with
    | .null => process
    | .pipe pending => process.setChannel index (.pipe (pending ++ octets))
    | .file location offset append =>
      let old := process.content location
      let start := if append then old.length else offset
      let front := old.take start ++ List.replicate (start - old.length) 0
      let written := front ++ octets.toBytes ++ old.drop (start + octets.length)
      let executable := match process.tree.get? location with
        | some (.file _ executable) => executable
        | _ => false
      { process with tree := process.tree.put location (.file written executable) }.setChannel index
        (.file location (start + octets.length) append)

end Process

end BracketMarkup.Programs
