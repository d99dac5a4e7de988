namespace BracketMarkup

structure Scanned where
  escaped : Bool
  char : Char
  deriving DecidableEq, Repr

def escapeMark : Char := '\\'

/-- Pairs each character with whether it was escaped. A mark at the very end escapes nothing and
    stands for itself. -/
def scanWith (isMark : Char → Bool) : List Char → List Scanned
  | [] => []
  | [c] => [⟨false, c⟩]
  | c :: d :: rest =>
    if isMark c then ⟨true, d⟩ :: scanWith isMark rest else ⟨false, c⟩ :: scanWith isMark (d :: rest)

def scan (s : List Char) : List Scanned := scanWith (· == escapeMark) s

def scanFrom (start : Nat) : List Char → List (Nat × Scanned)
  | [] => []
  | [c] => [(start, ⟨false, c⟩)]
  | c :: d :: rest =>
    if c = escapeMark then (start, ⟨true, d⟩) :: scanFrom (start + 2) rest
    else (start, ⟨false, c⟩) :: scanFrom (start + 1) (d :: rest)

def writeRun (escaped : Bool) (run : List Char) : List Char :=
  if escaped then escapeMark :: run else run

def Scanned.write (p : Scanned) : List Char := writeRun p.escaped [p.char]

def restore (pairs : List Scanned) : List Char := pairs.flatMap Scanned.write

def unescape (s : List Char) : List Char := (scan s).map (·.char)

/-- An escaped space, which only keeps the blanks after it from being trimmed. -/
def Scanned.isGuard (p : Scanned) : Bool := p.escaped && p.char == ' '

def dropGuards (s : List Char) : List Char := restore ((scan s).filter (!·.isGuard))

def endsEscaped (s : List Char) : Bool := (s.reverse.takeWhile (· == escapeMark)).length % 2 == 1

end BracketMarkup
