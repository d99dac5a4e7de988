namespace BracketMarkup

/-- The characters that separate words: the Unicode white space characters and the four information
    separators. -/
def isBlank (c : Char) : Bool :=
  let n := c.toNat
  (0x09 ≤ n && n ≤ 0x0D) || (0x1C ≤ n && n ≤ 0x20) || n == 0x85 || n == 0xA0 || n == 0x1680 ||
    (0x2000 ≤ n && n ≤ 0x200A) || n == 0x2028 || n == 0x2029 || n == 0x202F || n == 0x205F ||
    n == 0x3000

def trimStart (s : List Char) : List Char := s.dropWhile isBlank

def trimEnd (s : List Char) : List Char := (s.reverse.dropWhile isBlank).reverse

def trim (s : List Char) : List Char := trimEnd (trimStart s)

def linesOf (s : List Char) : List (List Char) := s.splitOn '\n'

def unlines (lines : List (List Char)) : List Char := ['\n'].intercalate lines

theorem unlines_linesOf (s : List Char) : unlines (linesOf s) = s := List.intercalate_splitOn '\n'

end BracketMarkup
