import BracketMarkup.Diagnostic
import BracketMarkup.Text.Bindings
import BracketMarkup.Text.Utf8

namespace BracketMarkup.Template

inductive ListFault where
  | nul
  | refused (reason : String)
  deriving DecidableEq, Repr

/-- The surroundings of a template: what directories hold, which variables a file gives, and what a
    program answers that is started in a directory. Programs may change the surroundings. -/
structure Environment (σ : Type) where
  list : σ → List Char → Except ListFault (List (List Char))
  fileBindings : σ → List Char → Except String Bindings
  start : σ → List Char → List (List Char) → Except String (Bytes × Int) × σ

inductive Stop where
  | nulInPath
  | tooDeep
  deriving DecidableEq, Repr

structure Trace (σ : Type) where
  host : σ
  diagnostics : List Diagnostic
  printed : String

/-- A computation that leaves a trace, also when it stops. -/
abbrev Expansion (σ : Type) := ExceptT Stop (StateM (Trace σ))

variable {σ : Type}

def report (diagnostic : Diagnostic) : Expansion σ Unit :=
  modify fun trace => { trace with diagnostics := trace.diagnostics ++ [diagnostic] }

def reportAll (diagnostics : List Diagnostic) : Expansion σ Unit :=
  modify fun trace => { trace with diagnostics := trace.diagnostics ++ diagnostics }

def print (text : String) : Expansion σ Unit :=
  modify fun trace => { trace with printed := trace.printed ++ text }

end BracketMarkup.Template
