import BracketMarkup.Text.Escape

namespace BracketMarkup.Template

/-- What stands before and after the closer of an opener already passed, with `depth` more openers
    still to be closed before it. -/
def closeScan (opener closer : Char) (depth : Nat) :
    List Scanned → Option (List Scanned × List Scanned)
  | [] => none
  | p :: rest =>
    let keep := fun (inside, after) => (p :: inside, after)
    if p = ⟨false, opener⟩ then (closeScan opener closer (depth + 1) rest).map keep
    else if p = ⟨false, closer⟩ then
      match depth with
      | 0 => some ([], rest)
      | depth + 1 => (closeScan opener closer depth rest).map keep
    else (closeScan opener closer depth rest).map keep

def enclosed? (opener closer : Char) (s : List Char) : Option (List Char × List Char) :=
  match scan s with
  | [] => none
  | p :: rest =>
    if p = ⟨false, opener⟩ then
      (closeScan opener closer 0 rest).map fun (inside, after) => (restore inside, restore after)
    else none

def findClosing? (text : List Char) (index : Nat) : List Char → List Char → Option Nat
  | [opener], [closer] =>
    (enclosed? opener closer (text.drop index)).map fun (inside, _) => index + 1 + inside.length
  | _, _ => none

def argumentsAt? (text : List Char) (index : Nat) : Option (List Char × Nat) :=
  (enclosed? '(' ')' (text.drop index)).map fun (inside, _) => (inside, index + inside.length + 2)

def blockOpener : List Char := "%(".toList

def blockCloser : List Char := "%)".toList

/-- How long the body of a block is, up to the closer that belongs to it; `depth` blocks inside it are
    open. -/
def bodyLength? (depth : Nat) : List Char → Option Nat
  | [] => none
  | '%' :: '(' :: rest => (bodyLength? (depth + 1) rest).map (· + 2)
  | '%' :: ')' :: rest =>
    match depth with
    | 0 => some 0
    | depth + 1 => (bodyLength? depth rest).map (· + 2)
  | _ :: rest => (bodyLength? depth rest).map (· + 1)

def findBlockEnd? (text : List Char) (start : Nat) : Option Nat :=
  (bodyLength? 0 (text.drop start)).map (start + ·)

end BracketMarkup.Template
