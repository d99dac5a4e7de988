import BracketMarkup.Programs.Octets

namespace BracketMarkup.Programs.Shell

/-- A part of a word. What stands in quotes is not split and stands for itself only. -/
inductive Part where
  | literal (quoted : Bool) (text : Octets)
  | parameter (quoted : Bool) (name : Octets) (operation : String) (word : List Part)
  | substitution (quoted : Bool) (script : Octets)
  | arithmetic (quoted : Bool) (word : List Part)
  deriving Inhabited

abbrev Word := List Part

structure Redirection where
  number : Nat
  operator : String
  target : Word

inductive Command where
  | simple (line : Nat) (assignments : List (Octets × Word)) (words : List Word)
      (redirections : List Redirection)
  | redirected (body : Command) (redirections : List Redirection)
  | pipeline (first second : Command)
  | negation (body : Command)
  | chain (outcome : Bool) (first second : Command)
  | sequence (commands : List Command)
  | subshell (body : Command)
  | conditional (condition accepted rejected : Command)
  | loop (outcome : Bool) (condition body : Command)
  | each (name : Octets) (words : Option (List Word)) (body : Command)
  | choice (word : Word) (cases : List (List Word × Command))
  | function (name : Octets) (body : Command)
  deriving Inhabited

def plainText (word : Word) : Octets :=
  word.flatMap fun
    | .literal _ text => text
    | _ => []

def isNameChar (c : Char) : Bool := c.isAlphanum || c == '_'

def isName (s : Octets) : Bool := s.all isNameChar && s.head?.any (!·.isDigit)

end BracketMarkup.Programs.Shell
