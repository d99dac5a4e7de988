import BracketMarkup.Text.Blank

namespace BracketMarkup.Html

def isLetter (c : Char) : Bool := ('a' ≤ c && c ≤ 'z') || ('A' ≤ c && c ≤ 'Z')

def isDigit (c : Char) : Bool := '0' ≤ c && c ≤ '9'

def isHexDigit (c : Char) : Bool := isDigit c || ('a' ≤ c && c ≤ 'f') || ('A' ≤ c && c ≤ 'F')

def startsWithRun (inClass : Char → Bool) (most : Nat) (s : List Char) : Bool :=
  let run := s.takeWhile inClass
  1 ≤ run.length && run.length ≤ most && (s.dropWhile inClass).head? == some ';'

/-- Whether a text, together with an ampersand in front of it, starts with a character reference. The
    name of a reference is not looked up, its length is bounded by the longest one there is. -/
def completesReference : List Char → Bool
  | '#' :: 'x' :: rest | '#' :: 'X' :: rest => startsWithRun isHexDigit 6 rest
  | '#' :: rest => startsWithRun isDigit 7 rest
  | rest => startsWithRun isLetter 31 rest

/-- Escapes an attribute value that will stand between double quotes. Character references keep their
    ampersand. -/
def escapeValue : List Char → List Char
  | [] => []
  | '&' :: rest =>
    if completesReference rest then '&' :: escapeValue rest
    else "&amp;".toList ++ escapeValue rest
  | '<' :: rest => "&lt;".toList ++ escapeValue rest
  | '>' :: rest => "&gt;".toList ++ escapeValue rest
  | '"' :: rest => "&quot;".toList ++ escapeValue rest
  | c :: rest => c :: escapeValue rest

def isNameChar (c : Char) : Bool :=
  !isBlank c && 0x20 ≤ c.toNat && c.toNat != 0x7F && !(['"', '\'', '<', '>', '/', '='].contains c)

def isName (name : List Char) : Bool := !name.isEmpty && name.all isNameChar

end BracketMarkup.Html
