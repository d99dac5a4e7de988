namespace BracketMarkup.Template

def anyEnd (accept : List Char → Bool) : List Char → Bool
  | [] => accept []
  | c :: rest => accept (c :: rest) || anyEnd accept rest

/-- Whether a file name matches a pattern from end to end. A star stands for any run of characters,
    all else for itself. -/
def matchesName : (pattern name : List Char) → Bool
  | [], name => name.isEmpty
  | '*' :: pattern, name => anyEnd (matchesName pattern) name
  | c :: pattern, name =>
    match name with
    | d :: rest => c == d && matchesName pattern rest
    | [] => false

end BracketMarkup.Template
