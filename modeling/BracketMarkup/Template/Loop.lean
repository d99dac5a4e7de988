import BracketMarkup.Path
import BracketMarkup.Template.NamePattern
import BracketMarkup.Template.Pass
import BracketMarkup.Text.Order
import BracketMarkup.Text.Split

namespace BracketMarkup.Template

structure Loop where
  binds : Option (List Char)
  directory : Option (List Char)
  sortKey : Option (List Char)
  descending : Bool
  excluded : List (List Char)
  included : List (List Char)

def descendingOrders : List (List Char) :=
  ["-", "desc", "descending", "decreasing", "dec"].map String.toList

def ascendingOrders : List (List Char) :=
  ["+", "asc", "ascending", "increasing", "inc"].map String.toList

def verbAndObject (argument : List Char) : List Char × List Char :=
  let phrase := trim argument
  match cutFirst? isBlank phrase with
  | some cut => (cut.before, trimStart cut.after)
  | none => (phrase, [])

def namePatterns (object : List Char) : List (List Char) :=
  ((splitUnescaped (· == ' ') none false object).filter (· != [])).map unescape

def Loop.add (loop : Loop) (argument : List Char) : Loop × List Diagnostic :=
  let (verb, object) := verbAndObject argument
  if object = [] then (loop, [.noObject verb])
  else if verb = "with".toList then ({ loop with binds := some (unescape object) }, [])
  else if verb = "in".toList then ({ loop with directory := some (unescape object) }, [])
  else if verb = "sort_key".toList then ({ loop with sortKey := some object }, [])
  else if verb = "sort_order".toList then
    if object ∈ descendingOrders then ({ loop with descending := true }, [])
    else if object ∈ ascendingOrders then (loop, [])
    else (loop, [.unknownOrder object])
  else if verb = "exclude_name".toList then
    ({ loop with excluded := loop.excluded ++ namePatterns object }, [])
  else if verb = "include_name".toList then
    ({ loop with included := loop.included ++ namePatterns object }, [])
  else (loop, [.unknownVerb verb])

def Loop.read (arguments : List Char) : Loop × List Diagnostic :=
  (splitUnescaped (· == ':') none false arguments).foldl
    (fun (loop, problems) argument =>
      let (loop, further) := loop.add argument
      (loop, problems ++ further))
    (⟨none, none, none, false, [], []⟩, [])

/-- Whether a loop runs over a file name: no pattern excludes it, and one includes it if there are
    any that include. -/
def Loop.selects (loop : Loop) (name : List Char) : Bool :=
  !loop.excluded.any (matchesName · name) &&
    (loop.included.isEmpty || loop.included.any (matchesName · name))

/-- The variables for one file. Those of the file win over the template's, the loop's own wins over
    both. -/
def Loop.bind (loop : Loop) (bindings fileBindings : Bindings) (name : List Char) : Bindings :=
  let bound := bindings.override fileBindings
  match loop.binds with
  | some own => Bindings.assign own name bound
  | none => bound

/-- Sorts by a key, so that items of equal key keep their order in either direction. -/
def sortByKey {α : Type} (descending : Bool) (keyed : List (List Char × α)) : List (List Char × α) :=
  keyed.mergeSort fun a b => if descending then textLe b.1 a.1 else textLe a.1 b.1

variable {σ : Type}

def Loop.expandEntry (loop : Loop) (environment : Environment σ) (bindings : Bindings)
    (directory body name : List Char) : Expansion σ (Option (Bindings × List Char)) := do
  let path := Path.join directory name
  match environment.fileBindings (← get).host path with
  | .error reason =>
    report (.skippedEntry path reason)
    return none
  | .ok fileBindings =>
    let bound := loop.bind bindings fileBindings name
    return some (bound, ← replaceVariables bound body)

def Loop.sort (loop : Loop) (entries : List (Bindings × List Char)) :
    Expansion σ (List (Bindings × List Char)) :=
  match loop.sortKey with
  | none => return entries
  | some sortKey => do
    let keyed ← entries.mapM fun entry => do
      let key ← replaceVariables entry.1 sortKey
      return (key, entry)
    return (sortByKey loop.descending keyed).map Prod.snd

/-- The body once for each file of a directory, in the order of the names unless a key is given. -/
def evaluateLoop (environment : Environment σ) (base : List Char) (bindings : Bindings)
    (block : Block) : Expansion σ (Except Failure (List Char)) := do
  let (loop, problems) := Loop.read block.arguments
  reportAll problems
  match loop.directory with
  | none => return .error .noDirectory
  | some directory =>
    let path := Path.join base directory
    match environment.list (← get).host path with
    | .error .nul => throw .nulInPath
    | .error (.refused reason) => return .error (.unreadable path reason)
    | .ok names =>
      let ordered := names.mergeSort textLe
      let entries ← (ordered.filter loop.selects).mapM
        (loop.expandEntry environment bindings path block.body)
      let sorted ← loop.sort (entries.filterMap id)
      return .ok (sorted.flatMap Prod.snd)

end BracketMarkup.Template
