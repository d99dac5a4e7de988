import BracketMarkup.Text.Bindings

namespace BracketMarkup

/-- What a command call says before its arguments. Without a backend it is meant for all of them.
    Keys of attributes may repeat. -/
structure Head where
  backend : Option (List Char)
  name : List Char
  attributes : List (List Char × List Char)
  deriving DecidableEq, Repr

inductive Node where
  | text (content : List Char)
  | call (head : Head) (arguments : List Node)
  deriving BEq, Repr

structure Document where
  metadata : Bindings
  nodes : List Node
  deriving BEq, Repr

def metadataMark : Char := '!'

def metadataBindings (metadata : Bindings) : Bindings :=
  metadata.map fun (key, value) => (metadataMark :: key, value)

inductive ParseError where
  | badMetadata (number : Nat) (line : List Char)
  | unopened
  | unclosed (count : Nat)
  | emptyCall
  | nestedHead
  | nameless (header : List Char)
  deriving DecidableEq, Repr

def ParseError.message : ParseError → String
  | badMetadata number line =>
    let shown := String.ofList line
    s!"error: line {number}: metadata line `{shown}` has no value"
  | unopened => "error: closing delimiter without an opening delimiter"
  | unclosed count => s!"error: {count} opening delimiter(s) without a closing delimiter"
  | emptyCall => "error: empty command call"
  | nestedHead => "error: command call begins with a nested command call"
  | nameless header =>
    let shown := String.ofList header
    s!"error: command call `{shown}` has no command name"

end BracketMarkup
