namespace BracketMarkup

/-- Why a well-formed template call has no value. -/
inductive Failure where
  | noExtension
  | emptyPath
  | noDirectory
  | unreadable (directory : List Char) (reason : String)
  | emptyCommand
  | unstartable (program : List Char) (reason : String)
  | told (reason : String)
  deriving DecidableEq, Repr

def Failure.message : Failure → String
  | noExtension => "incomplete arguments (expected `«extension»:«path»`)"
  | emptyPath => "empty path"
  | noDirectory => "no path given (expected `in «path»`)"
  | unreadable directory reason =>
    let shown := String.ofList directory
    s!"cannot read directory `{shown}` ({reason})"
  | emptyCommand => "empty command"
  | unstartable program reason =>
    let shown := String.ofList program
    s!"cannot run `{shown}` ({reason})"
  | told reason => reason

inductive Diagnostic where
  | openVariable
  | unknownVariable (name : List Char)
  | openCall (trigger : List Char)
  | failedCall (trigger arguments : List Char) (failure : Failure)
  | openBlock (trigger : List Char)
  | noBody (trigger arguments : List Char)
  | openBody (trigger arguments : List Char)
  | failedBlock (trigger arguments : List Char) (failure : Failure)
  | noObject (verb : List Char)
  | unknownOrder (order : List Char)
  | unknownVerb (verb : List Char)
  | skippedEntry (path : List Char) (reason : String)
  | badExit (arguments : List Char) (status : Int)
  | badAttribute (key tag : List Char)
  | note (message : List Char)
  deriving DecidableEq, Repr

def Diagnostic.message : Diagnostic → String
  | openVariable => "incomplete variable insertion `%\x7b` ignored (expected `\x7d`)"
  | unknownVariable name =>
    let shown := String.ofList name
    s!"`%\x7b{shown}\x7d` failed to evaluate: unknown variable"
  | openCall trigger =>
    let word := String.ofList trigger
    s!"incomplete macro `{word}` ignored (expected `{word}(...)`)"
  | failedCall trigger arguments failure =>
    let word := String.ofList trigger
    let shown := String.ofList arguments
    let reason := failure.message
    s!"`{word}({shown})` failed to evaluate: {reason}"
  | openBlock trigger =>
    let word := String.ofList trigger
    s!"incomplete block macro `{word}` ignored (expected `{word}(...)`)"
  | noBody trigger arguments =>
    let word := String.ofList trigger
    let shown := String.ofList arguments
    s!"invalid block macro `{word}({shown})` ignored (expected `%(`)"
  | openBody trigger arguments =>
    let word := String.ofList trigger
    let shown := String.ofList arguments
    s!"incomplete block macro `{word}({shown})` ignored (expected `%)`, found end of text)"
  | failedBlock trigger arguments failure =>
    let word := String.ofList trigger
    let shown := String.ofList arguments
    let reason := failure.message
    s!"`{word}({shown})%( ... %)` failed to evaluate: {reason}"
  | noObject verb =>
    let shown := String.ofList verb
    s!"ignoring verb `{shown}` without an object"
  | unknownOrder order =>
    let shown := String.ofList order
    s!"unknown sort_order `{shown}` (try `+` or `-`)"
  | unknownVerb verb =>
    let shown := String.ofList verb
    s!"ignoring unrecognised verb `{shown}`"
  | skippedEntry path reason =>
    let shown := String.ofList path
    s!"skipping `{shown}` in `%forfiles` ({reason})"
  | badExit arguments status =>
    let shown := String.ofList arguments
    s!"`%run({shown})` exited with status {status}"
  | badAttribute key tag =>
    let shown := String.ofList key
    let name := String.ofList tag
    s!"invalid attribute name `{shown}` dropped from `{name}`"
  | note message => String.ofList message

def Diagnostic.line (diagnostic : Diagnostic) : String := "warning: " ++ diagnostic.message

end BracketMarkup
