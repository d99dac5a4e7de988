import BracketMarkup.Text.Blank
import BracketMarkup.Text.Escape

namespace BracketMarkup

def isGap (c : Char) : Bool := isBlank c && c != '\n'

/-- Key and value of a metadata line `!key value`. The value starts at the first character that is
    not blank and runs to the end of the line. -/
def metadataPair? : List Char → Option (List Char × List Char)
  | '!' :: rest =>
    let text := rest.dropWhile isGap
    let key := text.takeWhile (!isBlank ·)
    let gapped := text.dropWhile (!isBlank ·)
    let value := gapped.dropWhile isGap
    match gapped, value with
    | gap :: _, first :: _ =>
      if key ≠ [] ∧ isGap gap ∧ !isBlank first ∧ '\n' ∉ value then some (key, value) else none
    | _, _ => none
  | _ => none

/-- Puts the parts of a line that was split at comment marks back together as long as the mark after
    a part is escaped by it. -/
def uncommented : List (List Char) → List Char
  | [] => []
  | [part] => part
  | part :: next :: rest =>
    if endsEscaped part then part ++ '#' :: uncommented (next :: rest) else part

def stripComment (line : List Char) : List Char := uncommented (line.splitOn '#')

def joinContinued : List Char → List Char
  | [] => []
  | [c] => [c]
  | c :: d :: rest =>
    if c = escapeMark ∧ d = '\n' then joinContinued rest else c :: joinContinued (d :: rest)

def desugarLine : List Char → List Char
  | '.' :: call => '[' :: (call ++ [']'])
  | line => line

def desugar (body : List Char) : List Char := unlines ((linesOf body).map desugarLine)

end BracketMarkup
