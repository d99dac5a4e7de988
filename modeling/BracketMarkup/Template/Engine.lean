import BracketMarkup.Template.Loop
import BracketMarkup.Template.Values
import BracketMarkup.Template.Words

namespace BracketMarkup.Template

structure Engine where
  template : List Char
  base : List Char
  verbose : Bool
  bindings : Bindings

def Engine.make (template base : List Char) (bindings : Bindings) (verbose : Bool) : Engine :=
  ⟨template, if base = [] then ['.'] else base, verbose, bindings⟩

def forfilesTrigger : Trigger := ⟨'%', "forfiles".toList⟩
def runTrigger : Trigger := ⟨'%', "run".toList⟩
def setextTrigger : Trigger := ⟨'%', "setext".toList⟩
def altTrigger : Trigger := ⟨'%', "alt".toList⟩
def percTrigger : Trigger := ⟨'%', "perc".toList⟩

def showPass (name : String) (before after : List Char) : String :=
  let rule := fun c => String.ofList (List.replicate 48 c)
  let note := if before = after then " (no change)" else ""
  rule '<' ++ " BEFORE " ++ name ++ "\n" ++ String.ofList before ++ "\n" ++ rule '=' ++ note ++ "\n" ++
    String.ofList after ++ "\n" ++ rule '>' ++ " AFTER " ++ name ++ "\n\n\n\n\n\n"

variable {σ : Type}

def Engine.pass (engine : Engine) (name : String) (replace : List Char → Expansion σ (List Char))
    (text : List Char) : Expansion σ (List Char) := do
  let after ← replace text
  if engine.verbose then print (showPass name text after)
  return after

def startProgram (environment : Environment σ) (base : List Char) (command : List (List Char)) :
    Expansion σ (Except String (Bytes × Int)) := do
  let (outcome, host) := environment.start (← get).host base command
  modify fun trace => { trace with host }
  return outcome

def evaluateRun (environment : Environment σ) (base : List Char)
    (expandWord : List Char → Expansion σ (List Char)) (arguments : List Char) :
    Expansion σ (Except Failure (List Char)) := do
  match splitWords arguments with
  | [] => return .error .emptyCommand
  | word :: more =>
    let program ← expandWord word
    let command := program :: (← more.mapM expandWord)
    match ← startProgram environment base command with
    | .error reason => return .error (.unstartable program reason)
    | .ok (output, status) =>
      if status ≠ 0 then report (.badExit arguments status)
      return .ok (Utf8.decodeLossy output)

/-- Expands a text by the passes of the template language, one after the other. The words of programs
    to run are expanded in turn, to a depth. -/
def Engine.expandWithin (environment : Environment σ) (engine : Engine) :
    Nat → List Char → Expansion σ (List Char)
  | 0, _ => throw .tooDeep
  | depth + 1, text => do
    let text ← engine.pass "%forfiles" (replaceBlocks forfilesTrigger
      (evaluateLoop environment engine.base engine.bindings)) text
    let text ← engine.pass "%\x7b...\x7d" (replaceVariables engine.bindings) text
    let text ← engine.pass "%run" (replaceCalls runTrigger
      (evaluateRun environment engine.base (engine.expandWithin environment depth))) text
    let text ← engine.pass "%setext" (replaceCalls setextTrigger
      fun arguments => return replaceExtension arguments) text
    let text ← engine.pass "%alt" (replaceCalls altTrigger
      fun arguments => return .ok (firstAlternative arguments)) text
    engine.pass "%perc" ((plainWord percTrigger).replace fun _ => return ['%']) text

def depthLimit : Nat := 1000

def Engine.expand (environment : Environment σ) (engine : Engine) (text : List Char) :
    Expansion σ (List Char) := engine.expandWithin environment depthLimit text

def Engine.run (environment : Environment σ) (engine : Engine) : Expansion σ (List Char) :=
  engine.expand environment engine.template

end BracketMarkup.Template
