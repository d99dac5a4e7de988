import BracketMarkup.Programs.Shell.State
import BracketMarkup.Text.Order

namespace BracketMarkup.Programs.Shell

inductive Origin where
  | quoted
  | plain
  | expanded
  deriving DecidableEq, Repr

/-- Expanded words: characters, ends of fields, and marks of quotes, which make fields that may be empty. -/
inductive Glyph where
  | char (c : Char) (origin : Origin)
  | quotes
  | fieldEnd
  deriving DecidableEq, Repr

abbrev Expanded := List Glyph

def ofValue (quoted : Bool) (value : Octets) : Expanded :=
  if quoted then .quotes :: value.map (.char · .quoted) else value.map (.char · .expanded)

def textOf (expanded : Expanded) : Octets :=
  expanded.filterMap fun
    | .char c _ => some c
    | _ => none

def patternOf (expanded : Expanded) : List (Char × Bool) :=
  expanded.filterMap fun
    | .char c origin => some (c, origin ≠ .quoted)
    | _ => none

structure Splitting where
  done : List Expanded
  field : Expanded
  isBlank : Bool

def splitGlyph (separators : Octets) (splitting : Splitting) (glyph : Glyph) : Splitting :=
  let closed := if splitting.field = [] then splitting.done else splitting.done ++ [splitting.field]
  match glyph with
  | .fieldEnd => ⟨closed, [], false⟩
  | .char c .expanded =>
    if !separators.contains c then ⟨splitting.done, splitting.field ++ [glyph], false⟩
    else if c.isWhitespace then ⟨closed, [], splitting.isBlank || splitting.field ≠ []⟩
    else if splitting.field = [] ∧ splitting.isBlank then ⟨splitting.done, [], false⟩
    else ⟨splitting.done ++ [splitting.field], [], false⟩
  | _ => ⟨splitting.done, splitting.field ++ [glyph], false⟩

def fieldsOf (separators : Octets) (expanded : Expanded) : List Expanded :=
  let splitting := expanded.foldl (splitGlyph separators) ⟨[], [], false⟩
  if splitting.field = [] then splitting.done else splitting.done ++ [splitting.field]

def inRanges (c : Char) : Octets → Bool
  | a :: '-' :: b :: rest => (a ≤ c && c ≤ b) || inRanges c rest
  | a :: rest => a == c || inRanges c rest
  | [] => false

def matchesPattern : Nat → List (Char × Bool) → Octets → Bool
  | 0, _, _ => false
  | _, [], s => s = []
  | fuel + 1, ('*', true) :: pattern, s =>
    matchesPattern fuel pattern s ||
      (s ≠ [] && matchesPattern fuel (('*', true) :: pattern) (s.drop 1))
  | fuel + 1, ('?', true) :: pattern, _ :: s => matchesPattern fuel pattern s
  | fuel + 1, ('[', true) :: pattern, c :: s =>
    let isNegated := pattern.head?.any fun (mark, _) => mark = '!' ∨ mark = '^'
    let body := if isNegated then pattern.drop 1 else pattern
    let inside := body.take 1 ++ (body.drop 1).takeWhile (·.1 != ']')
    if inside.length = body.length then c == '[' && matchesPattern fuel pattern s
    else inRanges c (inside.map Prod.fst) != isNegated &&
      matchesPattern fuel (body.drop (inside.length + 1)) s
  | fuel + 1, (a, _) :: pattern, c :: s => a == c && matchesPattern fuel pattern s
  | _, _ :: _, [] => false

def fits (pattern : List (Char × Bool)) (s : Octets) : Bool :=
  matchesPattern (pattern.length + s.length + 1) pattern s

def pathsFor (process : Process) (pattern : List (Char × Bool)) : List Octets :=
  let parts := pattern.splitOnP fun (c, _) => c == '/'
  (parts.zipIdx.foldl (fun paths (part, index) => paths.flatMap fun path =>
    let names := match process.find (if index = 0 then ['.'] else path) with
      | .ok (.inside location, .directory) => (process.tree.namesIn location).map Octets.ofText
      | _ => []
    let found := if part.all (!·.2) then [part.map Prod.fst]
      else names.filter fun name =>
        fits part name && (name.head? ≠ some '.' || part.head?.any fun (c, _) => c == '.')
    found.map fun name => if index = 0 then name else path ++ '/' :: name) [[]]).filter
      fun path => (process.find path).isOk

def wordsOf (field : Expanded) : Run (List Octets) := do
  let shell ← get
  let pattern := patternOf field
  let isPattern := pattern.any fun (c, isMark) => isMark && "*?[".toList.contains c
  let found := if isPattern ∧ !shell.options.contains 'f' then pathsFor shell.toProcess pattern else []
  return if found = [] then [textOf field] else found.mergeSort textLe

def cutValue (operation : String) (pattern : List (Char × Bool)) (value : Octets) : Octets :=
  let lengths := List.range (value.length + 1)
  let lengths := if operation.length = 2 then lengths.reverse else lengths
  if operation.startsWith "#" then
    match lengths.find? fun n => fits pattern (value.take n) with
    | some n => value.drop n
    | none => value
  else
    match lengths.find? fun n => fits pattern (value.drop (value.length - n)) with
    | some n => value.take (value.length - n)
    | none => value

end BracketMarkup.Programs.Shell
