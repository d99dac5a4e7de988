import BracketMarkup.Document.Basic
import BracketMarkup.Html.Basic
import BracketMarkup.Template.Expansion

namespace BracketMarkup

open Template

def htmlBackend : List Char := "html".toList

def literalMark : List Char := "tag.".toList

namespace Html

variable {σ : Type}

def ofText (content : List Char) : Html :=
  text (content.flatMap fun c => if c = '\n' then "<br />\n".toList else [c])

def tagName? (head : Head) : Option (List Char) :=
  match head.backend with
  | none => some head.name
  | some _ => if literalMark.isPrefixOf head.name then some (head.name.drop literalMark.length) else none

def isForeign (head : Head) : Bool := head.backend.any (· != htmlBackend)

def badAttributes (name : List Char) (attributes : List (List Char × List Char)) : List Diagnostic :=
  (attributes.filter (!isName ·.1)).map fun pair => .badAttribute pair.1 name

/-- The element that a command makes, if it makes one. Its arguments are built, one level below it, before
    its attributes are looked at. -/
def buildElement (depth : Nat) (head : Head) (arguments : Nat → Expansion σ (List Html)) :
    Expansion σ (Option Html) :=
  match tagName? head, depth with
  | none, _ => return none
  | some _, 0 => throw .tooDeep
  | some name, depth + 1 => do
    let children ← arguments depth
    reportAll (badAttributes name head.attributes)
    return some (tag name (head.attributes.filter (isName ·.1)) children)

mutual

def buildNode (depth : Nat) : Node → Expansion σ (Option Html)
  | .text content => return some (ofText content)
  | .call head arguments =>
    if isForeign head then return none
    else buildElement depth head fun depth => buildNodes depth arguments

def buildNodes (depth : Nat) : List Node → Expansion σ (List Html)
  | [] => return []
  | node :: rest => do
    let html ← buildNode depth node
    let following ← buildNodes depth rest
    return html.toList ++ following

end

def buildCommand (depth : Nat) (head : Head) (arguments : List Node) : Expansion σ (Option Html) :=
  buildElement depth head fun depth => buildNodes depth arguments

/-- How deep elements may stand in each other. -/
def nestingLimit : Nat := 195

end Html

end BracketMarkup
