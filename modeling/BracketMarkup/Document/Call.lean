import BracketMarkup.Bracketed
import BracketMarkup.Document.Basic
import BracketMarkup.Text.Blank
import BracketMarkup.Text.Split

namespace BracketMarkup

open Bracketed

abbrev Tree := Bracketed (List Char)

namespace Call

def attribute? (entry : List Char) : Option (List Char × List Char) :=
  (cutFirst? (· == '=') entry).map fun cut => (unescape (trim cut.before), unescape (trim cut.after))

def attributes (block : List Char) : List (List Char × List Char) :=
  (splitUnescaped (· == ';') none false block).filterMap attribute?

/-- Looks for the brace that ends an attribute block in a run that starts at some depth: either what
    stands before and after it, or the depth at the end of the run. -/
def closeBlock (depth : Int) : List Scanned → (List Scanned × List Scanned) ⊕ Int
  | [] => .inr depth
  | p :: rest =>
    if p = ⟨false, '}'⟩ ∧ depth = 1 then .inl ([], rest)
    else
      let next :=
        if p = ⟨false, '{'⟩ then depth + 1 else if p = ⟨false, '}'⟩ then depth - 1 else depth
      match closeBlock next rest with
      | .inl (before, after) => .inl (p :: before, after)
      | .inr reached => .inr reached

def readBlock (depth : Int) : List Tree → List Char × List Tree
  | [] => ([], [])
  | nested children :: rest =>
    let (text, following) := readBlock depth rest
    ((flatten ['['] [']'] (nested children)).flatten ++ text, following)
  | free run :: rest =>
    match closeBlock depth (scan run) with
    | .inl (before, []) => (restore before, rest)
    | .inl (before, after) => (restore before, free (restore after) :: rest)
    | .inr reached =>
      let (text, following) := readBlock reached rest
      (run ++ text, following)

/-- Takes the attribute block that stands in front: its text without the braces, and what follows. -/
def takeBlock (items : List Tree) : List Char × List Tree :=
  let (text, following) := readBlock 0 items
  (text.drop 1, following)

/-- An item of an argument list, or `none` for a semicolon between arguments. -/
abbrev Slot := Option Tree

def slotsOfRun (run : List Char) : List Slot :=
  ((splitUnescaped (· == ';') none true run).filter (· != [])).map fun part =>
    if part = [';'] then none else some (free part)

def slots (items : List Tree) : List Slot :=
  items.flatMap fun
    | free run => slotsOfRun run
    | nested children => [some (nested children)]

/-- Trims the front of an argument. A guarded space stays in place of the blanks after it. -/
def trimFront : List Tree → List Tree
  | free run :: rest => free (dropGuards (trimStart run)) :: rest
  | items => items

def splitArguments (items : List Tree) : List (List Tree) :=
  (splitItems Option.isNone none false (slots items)).map fun argument =>
    trimFront (mergeFree (argument.filterMap id))

def isBlankItem : Tree → Bool
  | free run => run.all isBlank
  | nested _ => false

structure Pending where
  head : Head
  segments : List (List Tree)

def backendAndName (head : List Char) : Option (List Char) × List Char :=
  match cutLast? (· == '@') head with
  | some cut => (some (unescape cut.before), cut.after)
  | none => (none, head)

def ofHeader (header : List Char) (rest : List Tree) : Except ParseError Pending :=
  let brace := cutFirst? (· == '{') header
  let unbraced := (brace.map (·.before)).getD header
  let block : List Tree := match brace with
    | some cut => free ['{'] :: (if cut.after = [] then [] else [free cut.after])
    | none => []
  let gap := cutFirst? isBlank unbraced
  let head := (gap.map (·.before)).getD unbraced
  let (backend, name) := backendAndName head
  if name = [] then .error (.nameless header)
  else match gap, brace with
    | none, some _ =>
      let (text, following) := takeBlock (block ++ rest)
      .ok ⟨⟨backend, unescape name, attributes text⟩, splitArguments following⟩
    | none, none => .ok ⟨⟨backend, unescape name, []⟩, splitArguments rest⟩
    | some cut, _ =>
      .ok ⟨⟨backend, unescape name, []⟩, splitArguments (free cut.after :: (block ++ rest))⟩

def read (items : List Tree) : Except ParseError Pending :=
  if items.all isBlankItem then .error .emptyCall
  else match items with
    | free run :: rest => ofHeader (trimStart run) rest
    | _ => .error .nestedHead

end Call

end BracketMarkup
