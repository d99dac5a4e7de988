import BracketMarkup.Document.Reader
import BracketMarkup.Html.Compose
import BracketMarkup.Template.Engine

namespace BracketMarkup.Page

open Template

variable {σ : Type}

def contentName : List Char := "content".toList

/-- The variables for a page. Its metadata win over the variables that there are anyway, and its
    content wins over both. -/
def bindings (base metadata : Bindings) (content : List Char) : Bindings :=
  Bindings.assign contentName content (base.override (metadataBindings metadata))

def contentWithin (depth : Nat) (nodes : List Node) : Expansion σ (List Char) := do
  return Html.renderAll (← Html.buildNodes depth nodes)

def content (nodes : List Node) : Expansion σ (List Char) := contentWithin Html.nestingLimit nodes

def fill (environment : Environment σ) (engine : Engine) (base metadata : Bindings)
    (content : List Char) : Expansion σ (List Char) :=
  { engine with bindings := bindings base metadata content }.run environment

/-- The page for a document. Its content is finished before the template is expanded. -/
def compile (environment : Environment σ) (engine : Engine) (base : Bindings)
    (document : Document) : Expansion σ (List Char) := do
  let content ← content document.nodes
  fill environment engine base document.metadata content

end BracketMarkup.Page
