import BracketMarkup.Programs.Process
import BracketMarkup.Programs.Shell.Syntax

namespace BracketMarkup.Programs

open Host

structure Shell extends Process where
  name : Octets
  parameters : List Octets
  assigned : List (Octets × Octets)
  exported : List Octets
  readOnly : List Octets
  functions : List (Octets × Shell.Command)
  locals : List (Octets × Option Octets)
  status : Int
  options : List Char
  farewell : Octets
  isCondition : Bool
  line : Nat

namespace Shell

/-- What leaves commands before their end: loops, a function or the whole shell. -/
inductive Leave where
  | toBreak (loops : Nat)
  | toContinue (loops : Nat)
  | toReturn
  | toExit

abbrev Run := ExceptT Leave (StateM Shell)

def ofProcess (process : Process) (name : Octets) : Shell where
  toProcess := process
  name
  parameters := []
  assigned := process.environment
  exported := process.environment.map Prod.fst
  readOnly := []
  functions := []
  locals := []
  status := 0
  options := []
  farewell := []
  isCondition := false
  line := 1

def valueFor? (name : Octets) : Run (Option Octets) := return (← get).assigned.lookup name

def forget (name : Octets) : Run Unit := modify fun shell =>
  { shell with assigned := shell.assigned.filter (·.1 != name) }

def assign (name value : Octets) : Run Unit := do
  if !(← get).readOnly.contains name then
    forget name
    modify fun shell => { shell with assigned := (name, value) :: shell.assigned }

def setStatus (status : Int) : Run Unit := modify fun shell => { shell with status }

def sayTo (number : Nat) (octets : Octets) : Run Int := do
  let shell ← get
  match shell.toProcess.write? number octets with
  | some process =>
    set { shell with toProcess := process }
    return 0
  | none => return 1

def complain (text : Octets) : Run Unit := do
  let shell ← get
  discard <| sayTo 2 (shell.name ++ ": ".toList ++ decimal shell.line ++ ": ".toList ++ text ++ ['\n'])

def fail {α : Type} (text : String) : Run α := do
  complain text.toList
  setStatus 2
  throw .toExit

def separators : Run Octets := return (← valueFor? "IFS".toList).getD " \t\n".toList

def repeatRun (step : Run Bool) : Nat → Run Unit
  | 0 => throw .toExit
  | count + 1 => do if ← step then repeatRun step count

def runningLimit : Nat := 100000000

/-- Does something of which only files and what was written stay, and the status. -/
def apart (run : Run Unit) : Run Unit := do
  let before ← get
  let (outcome, after) := run.run before
  set { before with tree := after.tree, channels := after.channels, status := after.status }
  match outcome with
  | .ok _ | .error _ => return

def captured (run : Run Unit) : Run Octets := do
  let before ← get
  let (channel, process) := before.toProcess.addChannel (.pipe [])
  apart do
    modify fun shell => { shell with toProcess := process.connect 1 channel }
    run
  let after ← get
  return match after.channels[channel]? with
    | some (.pipe written) => written
    | _ => []

end Shell

end BracketMarkup.Programs
