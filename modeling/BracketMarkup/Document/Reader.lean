import BracketMarkup.Document.Nesting
import BracketMarkup.Source.Preamble

namespace BracketMarkup

open Bracketed

def Unbalanced.toParseError : Unbalanced → ParseError
  | closer => .unopened
  | openers count => .unclosed count

def groupText (s : List Char) : Except ParseError (List Tree) :=
  match group (· == ⟨false, '['⟩) (· == ⟨false, ']'⟩) (scan s) with
  | .ok trees => .ok (mapAll restore trees)
  | .error fault => .error fault.toParseError

/-- Turns free runs into text and brackets into calls. A call's header is read before its arguments
    and these before what follows the call. -/
def Node.ofTrees : List Tree → Except ParseError (List Node)
  | [] => .ok []
  | free run :: rest => do
    let nodes ← ofTrees rest
    let content := unescape run
    return if content = [] then nodes else text content :: nodes
  | nested children :: rest =>
    match _ : Call.read children with
    | .error fault => .error fault
    | .ok pending => do
      let arguments ← ofTrees pending.segments.flatten
      let nodes ← ofTrees rest
      return call pending.head arguments :: nodes
termination_by trees => (pairCountAll trees, trees.length)
decreasing_by
  · simp only [pairCountAll, pairCount, Nat.zero_add, List.length_cons]
    exact Prod.Lex.right _ (Nat.lt_succ_self _)
  · have bound := Call.pairCount_segments ‹_›
    apply Prod.Lex.left
    simp only [pairCountAll, pairCount]
    omega
  · apply Prod.Lex.left
    simp only [pairCountAll, pairCount]
    omega

def BadMetadata.toParseError (fault : BadMetadata) : ParseError := .badMetadata fault.number fault.line

namespace Document

def parse (text : List Char) : Except ParseError Document := do
  let (metadata, body) ← (separate text).mapError BadMetadata.toParseError
  let nodes ← Node.ofTrees (← groupText (desugar body))
  return ⟨metadata, nodes⟩

def metadataOf (text : List Char) : Except ParseError Bindings :=
  ((separate text).map Prod.fst).mapError BadMetadata.toParseError

end Document

def Call.Pending.build (pending : Call.Pending) : Except ParseError (List Node) :=
  Node.ofTrees pending.segments.flatten

end BracketMarkup
