import BracketMarkup.Programs.Numbers
import BracketMarkup.Programs.Shell.State

namespace BracketMarkup.Programs.Shell

/-- What is still to be read of an expression. -/
abbrev Calculation := StateT Octets Run

/-- Operators, those that bind least first. -/
def operatorLevels : List (List String) :=
  [["||"], ["&&"], ["|"], ["^"], ["&"], ["==", "!="], ["<=", ">=", "<", ">"], ["<<", ">>"], ["+", "-"],
    ["*", "/", "%"]]

def operatorIn? (s : Octets) : Option String :=
  let operators := operatorLevels.flatten
  (operators.filter (·.length == 2) ++ operators.filter (·.length == 1)).find? (·.toList.isPrefixOf s)

def truth (holds : Bool) : Int := if holds then 1 else 0

def onBits (operation : BitVec 64 → BitVec 64 → BitVec 64) (a b : Int) : Int :=
  (operation (BitVec.ofInt 64 a) (BitVec.ofInt 64 b)).toInt

def operate (operator : String) (a b : Int) : Int :=
  match operator with
  | "||" => truth (a ≠ 0 ∨ b ≠ 0)
  | "&&" => truth (a ≠ 0 ∧ b ≠ 0)
  | "|" => onBits (· ||| ·) a b
  | "^" => onBits (· ^^^ ·) a b
  | "&" => onBits (· &&& ·) a b
  | "==" => truth (a = b)
  | "!=" => truth (a ≠ b)
  | "<=" => truth (a ≤ b)
  | ">=" => truth (b ≤ a)
  | "<" => truth (a < b)
  | ">" => truth (b < a)
  | "<<" => onBits (· <<< ·) a b
  | ">>" => a >>> b.toNat
  | "+" => onBits (· + ·) a b
  | "-" => onBits (· - ·) a b
  | "*" => onBits (· * ·) a b
  | "/" => a.tdiv b
  | _ => a.tmod b

def applyOperator (operator : String) (a b : Int) : Calculation Int := do
  if (operator = "/" ∨ operator = "%") ∧ b = 0 then
    return ← fail "arithmetic expression: division by zero"
  return operate operator a b

def isAssigning (s : Octets) : Option String :=
  if "==".toList.isPrefixOf s then none
  else ["=", "+=", "-=", "*=", "/=", "%=", "<<=", ">>=", "&=", "|=", "^="].find? (·.toList.isPrefixOf s)

def skipSpaces : Calculation Unit := modify (·.dropWhile fun c => c == ' ' || c == '\t' || c == '\n')

mutual

def calculate (fuel level : Nat) : Calculation Int := do
  match fuel with
  | 0 => fail "arithmetic expression: too deep"
  | fuel + 1 =>
    match operatorLevels[level]? with
    | none => calculateFactor fuel
    | some operators => calculateMore fuel level operators (← calculate fuel (level + 1))

def calculateMore (fuel level : Nat) (operators : List String) (value : Int) : Calculation Int := do
  match fuel with
  | 0 => return value
  | fuel + 1 =>
    skipSpaces
    match (operatorIn? (← get)).filter operators.contains with
    | some operator =>
      modify (·.drop operator.length)
      let other ← calculate fuel (level + 1)
      calculateMore fuel level operators (← applyOperator operator value other)
    | none =>
      if level ≠ 0 ∨ (← get).head? ≠ some '?' then return value
      modify (·.drop 1)
      let accepted ← calculate fuel 0
      skipSpaces
      modify (·.drop 1)
      let rejected ← calculate fuel 0
      return if value = 0 then rejected else accepted

def calculateFactor (fuel : Nat) : Calculation Int := do
  match fuel with
  | 0 => fail "arithmetic expression: too deep"
  | fuel + 1 =>
    skipSpaces
    let signed := fun (value : Int → Int) => do
      modify (·.drop 1)
      return value (← calculateFactor fuel)
    match ← get with
    | '(' :: rest =>
      set rest
      let value ← calculate fuel 0
      skipSpaces
      modify (·.drop 1)
      return value
    | '-' :: _ => signed (- ·)
    | '+' :: _ => signed id
    | '!' :: _ => signed fun n => truth (n = 0)
    | '~' :: _ => signed fun n => -n - 1
    | rest =>
      let word := rest.takeWhile isNameChar
      modify (·.drop word.length)
      skipSpaces
      if word = [] then fail "arithmetic expression: expecting primary"
      else if !isName word then return (readInteger word).1
      else
        let (present, isNumber) := readInteger ((← valueFor? word).getD [])
        match isAssigning (← get) with
        | none => if isNumber then return present else fail "Illegal number"
        | some operator =>
          modify (·.drop operator.length)
          let other ← calculate fuel 0
          let value ← if operator = "=" then pure other
            else applyOperator (String.ofList operator.toList.dropLast) present other
          assign word (toString value).toList
          return value

end

def evaluateArithmetic (text : Octets) : Run Int := do
  let (value, rest) ← (do
    let value ← calculate (16 * (text.length + 2)) 0
    skipSpaces
    return value : Calculation Int).run text
  if rest ≠ [] then fail "arithmetic expression: expecting EOF"
  return value

end BracketMarkup.Programs.Shell
