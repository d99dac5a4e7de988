import BracketMarkup.Html.Attribute

namespace BracketMarkup

inductive Html where
  | text (content : List Char)
  | tag (name : List Char) (attributes : List (List Char × List Char)) (children : List Html)
  deriving BEq, Repr

namespace Html

def renderAttribute (pair : List Char × List Char) : List Char :=
  ' ' :: pair.1 ++ '=' :: '"' :: escapeValue pair.2 ++ ['"']

def renderAttributes (attributes : List (List Char × List Char)) : List Char :=
  (attributes.filter (isName ·.1)).flatMap renderAttribute

mutual

def render : Html → List Char
  | text content => content
  | tag name attributes children =>
    '<' :: name ++ renderAttributes attributes ++ '>' :: renderAll children ++
      '<' :: '/' :: name ++ ['>']

def renderAll : List Html → List Char
  | [] => []
  | node :: rest => render node ++ renderAll rest

end

end Html

end BracketMarkup
