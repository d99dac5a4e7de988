import BracketMarkup.Text.Blank
import BracketMarkup.Text.Escape

namespace BracketMarkup.Template

/-- Words read from some position to the end: what continues the word before that position, if that
    word goes on, and the words after it. -/
structure Words where
  current : Option (List Char)
  later : List (List Char)

def Words.extend (written : List Char) (words : Words) : Words :=
  { words with current := some (written ++ words.current.getD []) }

def Words.all (words : Words) : List (List Char) := words.current.toList ++ words.later

/-- Outside of quotes a mark is taken away from the character that it escapes, inside it is kept. A
    quote always makes a word, if an empty one. -/
def readWords (quoted : Bool) : List Scanned → Words
  | [] => ⟨if quoted then some [] else none, []⟩
  | p :: rest =>
    if p = ⟨false, '"'⟩ then (readWords (!quoted) rest).extend []
    else if quoted then (readWords true rest).extend p.write
    else if !p.escaped && isBlank p.char then ⟨none, (readWords false rest).all⟩
    else (readWords false rest).extend [p.char]

def splitWords (s : List Char) : List (List Char) := (readWords false (scan s)).all

def readAlternatives (quoted : Bool) : List Scanned → List (List Scanned)
  | [] => [[]]
  | p :: rest =>
    if p = ⟨false, '"'⟩ then (readAlternatives (!quoted) rest).modifyHead (p :: ·)
    else if p = ⟨false, ':'⟩ ∧ !quoted then [] :: readAlternatives quoted rest
    else (readAlternatives quoted rest).modifyHead (p :: ·)

def unquote (alternative : List Scanned) : List Scanned :=
  let quote : Scanned := ⟨false, '"'⟩
  if 2 ≤ alternative.length ∧ alternative.head? = some quote ∧ alternative.getLast? = some quote then
    alternative.tail.dropLast
  else alternative

def splitAlternatives (s : List Char) : List (List Char) :=
  (readAlternatives false (scan s)).map fun alternative => (unquote alternative).map (·.char)

def firstAlternative (arguments : List Char) : List Char :=
  ((splitAlternatives arguments).find? (· != [])).getD []

end BracketMarkup.Template
