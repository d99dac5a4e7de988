import BracketMarkup.Source.Line
import BracketMarkup.Text.Bindings

namespace BracketMarkup

structure Separated where
  metadata : Bindings
  body : List (List Char)

structure BadMetadata where
  number : Nat
  line : List Char
  deriving DecidableEq, Repr

/-- The line of the body that a line leaves: comments go, and with them a line they leave empty. -/
def bodyLine? (line : List Char) : Option (List Char) :=
  if '#' ∈ line then
    let kept := stripComment line
    if kept = [] then none else some kept
  else some line

def separateLines (metadata : Bindings) (number : Nat) :
    List (List Char) → Except BadMetadata Separated
  | [] => .ok ⟨metadata, []⟩
  | line :: rest =>
    if line.head? = some '!' then
      match metadataPair? line with
      | some (key, value) => separateLines (Bindings.assign key value metadata) (number + 1) rest
      | none => .error ⟨number, line⟩
    else do
      let separated ← separateLines metadata (number + 1) rest
      match bodyLine? line with
      | some kept => return { separated with body := kept :: separated.body }
      | none => return separated

def separate (text : List Char) : Except BadMetadata (Bindings × List Char) := do
  let separated ← separateLines [] 1 (linesOf (joinContinued text))
  return (separated.metadata, unlines separated.body)

end BracketMarkup
