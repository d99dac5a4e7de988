import BracketMarkup.Template.Delimiter
import BracketMarkup.Template.Expansion
import BracketMarkup.Text.Blank

namespace BracketMarkup.Template

structure Trigger where
  first : Char
  more : List Char

def Trigger.text (trigger : Trigger) : List Char := trigger.first :: trigger.more

/-- A kind of call: its trigger, and how the text after a trigger is read. Reading gives the call and
    how many characters it takes, or says what is missing. -/
structure Construct (κ : Type) where
  trigger : Trigger
  read : List Char → Except Diagnostic (κ × Nat)

/-- A piece of a text as a pass sees it. Of a malformed call only the trigger is a piece. -/
inductive Piece (κ : Type) where
  | literal (c : Char)
  | malformed (problem : Diagnostic)
  | call (construct : κ)

variable {σ κ : Type}

/-- The pieces of a text, of which `skip` characters belong to the piece before. -/
def Construct.pieces (construct : Construct κ) (skip : Nat) : List Char → List (Piece κ)
  | [] => []
  | c :: rest =>
    match skip with
    | skip + 1 => construct.pieces skip rest
    | 0 =>
      match construct.trigger.text.isPrefixOf? (c :: rest) with
      | none => .literal c :: construct.pieces 0 rest
      | some after =>
        match construct.read after with
        | .error problem => .malformed problem :: construct.pieces construct.trigger.more.length rest
        | .ok (call, size) => .call call :: construct.pieces (construct.trigger.more.length + size) rest

def Construct.value (construct : Construct κ) (evaluate : κ → Expansion σ (List Char)) :
    Piece κ → Expansion σ (List Char)
  | .literal c => return [c]
  | .malformed problem => do
    report problem
    return construct.trigger.text
  | .call call => evaluate call

/-- Replaces the calls of a text by their values, from left to right. Values are not looked at again. -/
def Construct.replace (construct : Construct κ) (evaluate : κ → Expansion σ (List Char))
    (text : List Char) : Expansion σ (List Char) := do
  let values ← (construct.pieces 0 text).mapM (construct.value evaluate)
  return values.flatten

def variableReference : Construct (List Char) where
  trigger := ⟨'%', ['\x7b']⟩
  read after :=
    match enclosed? '\x7b' '\x7d' ('\x7b' :: after) with
    | some (inside, _) => .ok (unescape inside, inside.length + 1)
    | none => .error .openVariable

def inlineCall (trigger : Trigger) : Construct (List Char) where
  trigger
  read after :=
    match enclosed? '(' ')' after with
    | some (arguments, _) => .ok (arguments, arguments.length + 2)
    | none => .error (.openCall trigger.text)

structure Block where
  arguments : List Char
  body : List Char

def blockCall (trigger : Trigger) : Construct Block where
  trigger
  read after :=
    match enclosed? '(' ')' after with
    | none => .error (.openBlock trigger.text)
    | some (arguments, rest) =>
      match blockOpener.isPrefixOf? (trimStart rest) with
      | none => .error (.noBody trigger.text arguments)
      | some body =>
        match bodyLength? 0 body with
        | none => .error (.openBody trigger.text arguments)
        | some length =>
          .ok (⟨arguments, body.take length⟩,
            after.length - body.length + length + blockCloser.length)

def plainWord (trigger : Trigger) : Construct Unit where
  trigger
  read _ := .ok ((), 0)

def replaceVariables (bindings : Bindings) (text : List Char) : Expansion σ (List Char) :=
  variableReference.replace (fun name => do
    match bindings.value? name with
    | some value => return value
    | none =>
      report (.unknownVariable name)
      return []) text

def replaceCalls (trigger : Trigger)
    (evaluate : List Char → Expansion σ (Except Failure (List Char))) (text : List Char) :
    Expansion σ (List Char) :=
  (inlineCall trigger).replace (fun arguments => do
    match ← evaluate arguments with
    | .ok value => return value
    | .error failure =>
      report (.failedCall trigger.text arguments failure)
      return []) text

def replaceBlocks (trigger : Trigger) (evaluate : Block → Expansion σ (Except Failure (List Char)))
    (text : List Char) : Expansion σ (List Char) :=
  (blockCall trigger).replace (fun block => do
    match ← evaluate block with
    | .ok value => return value
    | .error failure =>
      report (.failedBlock trigger.text block.arguments failure)
      return []) text

end BracketMarkup.Template
