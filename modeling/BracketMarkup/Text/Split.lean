import BracketMarkup.Text.Escape

namespace BracketMarkup

variable {α : Type}

/-- Cuts at every separator while the budget of cuts lasts; no budget is no limit. There is one part
    more than there are cuts, and the last part may be empty. -/
def cuts (isSeparator : α → Bool) (keep : Bool) : Option Nat → List α → List (List α)
  | _, [] => [[]]
  | budget, x :: rest =>
    if isSeparator x && budget != some 0 then
      let parts := cuts isSeparator keep (budget.map (· - 1)) rest
      [] :: (if keep then [x] :: parts else parts)
    else (cuts isSeparator keep budget rest).modifyHead (x :: ·)

def budgetOf (limit : Option Int) : Option Nat := limit.map Int.toNat

/-- Splits at separators. What follows the last cut is a part only if it is not empty; kept
    separators are parts of their own. -/
def splitItems (isSeparator : α → Bool) (limit : Option Int) (keep : Bool) (items : List α) :
    List (List α) :=
  let parts := cuts isSeparator keep (budgetOf limit) items
  if parts.getLast?.any List.isEmpty then parts.dropLast else parts

def isUnescaped (isSeparator : Char → Bool) (p : Scanned) : Bool := !p.escaped && isSeparator p.char

def splitUnescaped (isSeparator : Char → Bool) (limit : Option Int) (keep : Bool) (s : List Char) :
    List (List Char) :=
  (splitItems (isUnescaped isSeparator) limit keep (scan s)).map restore

structure Cut where
  before : List Char
  found : Char
  after : List Char
  deriving DecidableEq, Repr

def cutFirst? (wanted : Char → Bool) (s : List Char) : Option Cut :=
  match (scan s).dropWhile (!isUnescaped wanted ·) with
  | [] => none
  | p :: after =>
    some ⟨restore ((scan s).takeWhile (!isUnescaped wanted ·)), p.char, restore after⟩

def cutLast? (wanted : Char → Bool) (s : List Char) : Option Cut :=
  match (scan s).reverse.dropWhile (!isUnescaped wanted ·) with
  | [] => none
  | p :: before =>
    some ⟨restore before.reverse, p.char,
      restore ((scan s).reverse.takeWhile (!isUnescaped wanted ·)).reverse⟩

end BracketMarkup
