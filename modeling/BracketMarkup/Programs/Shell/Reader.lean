import BracketMarkup.Programs.Shell.Syntax

namespace BracketMarkup.Programs.Shell

/-- What is left of a script, and the number of its first line. -/
structure Source where
  rest : Octets
  line : Nat

/-- Readers fail on what is no script. -/
abbrev Reader := StateT Source Option

def ahead : Reader Octets := return (← get).rest

def skip (count : Nat) : Reader Unit := modify fun source =>
  ⟨source.rest.drop count, source.line + (source.rest.take count).count '\n'⟩

def takeChar : Reader Char := do
  match ← ahead with
  | c :: _ => do
    skip 1
    return c
  | [] => failure

def blankLength (lineFeeds : Bool) : Octets → Nat
  | '\\' :: '\n' :: rest => 2 + blankLength lineFeeds rest
  | c :: rest =>
    if c = ' ' ∨ c = '\t' ∨ (lineFeeds ∧ c = '\n') then 1 + blankLength lineFeeds rest
    else if c = '#' then
      let comment := (rest.takeWhile (· != '\n')).length + 1
      if lineFeeds then comment + blankLength.afterComment rest else comment
    else 0
  | [] => 0
where
  afterComment : Octets → Nat
    | [] => 0
    | c :: rest => if c = '\n' then 1 + blankLength true rest else afterComment rest

def skipBlanks : Reader Unit := do skip (blankLength false (← ahead))

def skipLines : Reader Unit := do skip (blankLength true (← ahead))

def delimits (c : Char) : Bool := " \t\n;&|<>()".toList.contains c

def startsWith (front : String) : Reader Bool := return front.toList.isPrefixOf (← ahead)

def nextToken : Reader String := do
  skipBlanks
  return String.ofList ((← ahead).takeWhile (!delimits ·))

def expect (token : String) : Reader Unit := do
  if (← nextToken) = token then skip token.length else failure

def enclosed (opener closer : Char) : Nat → Nat → Reader Octets
  | 0, _ => failure
  | fuel + 1, depth => do
    let c ← takeChar
    if c = closer ∧ depth = 0 then return []
    if c = '\\' then return c :: (← takeChar) :: (← enclosed opener closer fuel depth)
    if (c = '\'' ∨ c = '"') ∧ c ≠ closer then
      let text := (← ahead).takeWhile (· != c)
      skip (text.length + 1)
      return c :: text ++ c :: (← enclosed opener closer fuel depth)
    return c :: (← enclosed opener closer fuel
      (if c = closer then depth - 1 else if c = opener then depth + 1 else depth))

def operations : List String := [":-", ":=", ":?", ":+", "-", "=", "?", "+", "##", "#", "%%", "%"]

def unquoteScript : Octets → Octets
  | '\\' :: c :: rest =>
    if "\\$\x60".toList.contains c then c :: unquoteScript rest else '\\' :: c :: unquoteScript rest
  | c :: rest => c :: unquoteScript rest
  | [] => []

mutual

def readWord (fuel : Nat) (quoted : Bool) (ends : Char → Bool) : Reader Word := do
  match fuel with
  | 0 => failure
  | fuel + 1 =>
    let more := fun (length : Nat) (parts : Word) => do
      skip length
      return parts ++ (← readWord fuel quoted ends)
    match ← ahead with
    | [] => return []
    | '$' :: _ => more 0 [← readDollar fuel quoted]
    | '\x60' :: _ =>
      skip 1
      more 0 [.substitution quoted (unquoteScript (← enclosed '\x60' '\x60' fuel 0))]
    | '\\' :: '\n' :: _ => more 2 []
    | '\\' :: c :: _ =>
      if quoted ∧ !"$\x60\\".toList.contains c ∧ !(c = '"' ∧ ends c) then more 1 [.literal true ['\\']]
      else more 2 [.literal true [c]]
    | c :: rest =>
      if ends c then return []
      else if quoted then more 1 [.literal true [c]]
      else if c = '\'' then
        let text := rest.takeWhile (· != c)
        if text.length = rest.length then failure
        more (text.length + 2) [.literal true text]
      else if c = '"' then
        skip 1
        let parts ← readWord fuel true (· = '"')
        if (← ahead).isEmpty then failure
        more 1 (if parts.isEmpty then [.literal true []] else parts)
      else more 1 [.literal false [c]]

def readDollar (fuel : Nat) (quoted : Bool) : Reader Part := do
  match fuel with
  | 0 => failure
  | fuel + 1 =>
    match (← ahead).drop 1 with
    | '(' :: '(' :: _ =>
      skip 3
      let source := (← enclosed '(' ')' fuel 0)
      skip 1
      match (readWord fuel true fun _ => false).run ⟨source, 0⟩ with
      | some (word, _) => return .arithmetic quoted word
      | none => failure
    | '(' :: _ =>
      skip 2
      return .substitution quoted (← enclosed '(' ')' fuel 0)
    | '\x7b' :: rest =>
      let isLength := rest.head? = some '#' ∧ rest[1]? ≠ some '\x7d'
      let rest := if isLength then rest.drop 1 else rest
      let name := match rest with
        | c :: _ =>
          if c.isDigit then rest.takeWhile Char.isDigit
          else if isNameChar c then rest.takeWhile isNameChar else [c]
        | [] => []
      let operation := (operations.find? (·.toList.isPrefixOf (rest.drop name.length))).getD ""
      skip ((if isLength then 3 else 2) + name.length + operation.length)
      let isCut := operation.startsWith "#" || operation.startsWith "%"
      let word ← readWord fuel (quoted && !isCut) (· = '\x7d')
      if (← ahead).isEmpty then failure
      skip 1
      return .parameter quoted name (if isLength then "length" else operation) word
    | c :: rest =>
      let name := if c.isDigit ∨ "@*#?-$!".toList.contains c then [c] else (c :: rest).takeWhile isNameChar
      skip (1 + name.length)
      return if name = [] then .literal quoted ['$'] else .parameter quoted name "" []
    | [] =>
      skip 1
      return .literal quoted ['$']

end

/-- Takes the lines up to one that is the given mark out of what follows this line. -/
def takeDocument (strip : Bool) (mark : Octets) : Reader Octets := do
  let source ← get
  let line := source.rest.takeWhile (· != '\n')
  let lines := ((source.rest.drop (line.length + 1)).splitOn '\n').map fun line =>
    if strip then line.dropWhile (· == '\t') else line
  let body := lines.takeWhile (· != mark)
  set { source with rest := line ++ '\n' :: ['\n'].intercalate (lines.drop (body.length + 1)) }
  return body.flatMap (· ++ ['\n'])

def operators : List String := ["<<-", "<<", ">>", ">&", "<&", "<>", ">|", ">", "<"]

def readRedirection? (fuel : Nat) : Reader (Option Redirection) := do
  skipBlanks
  let digits := (← ahead).takeWhile Char.isDigit
  let behind := (← ahead).drop digits.length
  match operators.find? (·.toList.isPrefixOf behind) with
  | none => return none
  | some operator =>
    skip (digits.length + operator.length)
    skipBlanks
    let isQuoted := ((← ahead).takeWhile (!delimits ·)).any ("'\"\\".toList.contains ·)
    let target ← readWord fuel false delimits
    let number := (digitsIn 10 9 digits).1.getD (if operator.startsWith "<" then 0 else 1)
    if !operator.startsWith "<<" then return some ⟨number, operator, target⟩
    let document ← takeDocument (operator == "<<-") (plainText target)
    let word := if isQuoted then some [.literal true document]
      else ((readWord (document.length + 1) true fun _ => false).run ⟨document, 0⟩).map Prod.fst
    return word.map (⟨number, "<<", ·⟩)

def readRedirections : Nat → Reader (List Redirection)
  | 0 => failure
  | fuel + 1 => do
    match ← readRedirection? fuel with
    | some redirection => return redirection :: (← readRedirections fuel)
    | none => return []

def readWords : Nat → Reader (List Word)
  | 0 => failure
  | fuel + 1 => do
    skipBlanks
    if (← ahead).head?.all delimits then return []
    let word ← readWord fuel false delimits
    return word :: (← readWords fuel)

def readPatterns : Nat → Reader (List Word)
  | 0 => failure
  | fuel + 1 => do
    skipBlanks
    let word ← readWord fuel false delimits
    skipBlanks
    if (← takeChar) = '|' then return word :: (← readPatterns fuel) else return [word]

def endings : List String := ["then", "elif", "else", "fi", "do", "done", "esac", "\x7d"]

mutual

def readCommands (fuel : Nat) (ends : List String) : Reader (List Command) := do
  match fuel with
  | 0 => failure
  | fuel + 1 =>
    skipLines
    let rest ← ahead
    if ends.contains (← nextToken) || rest.head?.all (· == ')') || (← startsWith ";;") then return []
    let command ← readChain fuel
    skipBlanks
    if (← startsWith ";;") || !(← ahead).head?.any (";\n&".toList.contains ·) then return [command]
    skip 1
    return command :: (← readCommands fuel ends)

def readChain (fuel : Nat) : Reader Command := do
  match fuel with
  | 0 => failure
  | fuel + 1 => readLinks fuel (← readPipeline fuel)

def readLinks (fuel : Nat) (first : Command) : Reader Command := do
  match fuel with
  | 0 => failure
  | fuel + 1 =>
    skipBlanks
    let isBoth ← startsWith "&&"
    if !isBoth && !(← startsWith "||") then return first
    skip 2
    skipLines
    readLinks fuel (.chain isBoth first (← readPipeline fuel))

def readPipeline (fuel : Nat) : Reader Command := do
  match fuel with
  | 0 => failure
  | fuel + 1 =>
    if (← nextToken) = "!" then
      skip 1
      return .negation (← readPipeline fuel)
    let first ← readCommand fuel
    skipBlanks
    if (← startsWith "||") || !(← startsWith "|") then return first
    skip 1
    skipLines
    return .pipeline first (← readPipeline fuel)

def readBlock (fuel : Nat) (ending : String) : Reader Command := do
  match fuel with
  | 0 => failure
  | fuel + 1 =>
    let commands ← readCommands fuel [ending]
    expect ending
    return .sequence commands

def readConditional (fuel : Nat) : Reader Command := do
  match fuel with
  | 0 => failure
  | fuel + 1 =>
    let condition ← readBlock fuel "then"
    let accepted ← readCommands fuel ["elif", "else", "fi"]
    let ending ← nextToken
    expect ending
    let rejected ← match ending with
      | "elif" => readConditional fuel
      | "else" => readBlock fuel "fi"
      | "fi" => pure (.sequence [])
      | _ => failure
    return .conditional condition (.sequence accepted) rejected

def readCases (fuel : Nat) : Reader (List (List Word × Command)) := do
  match fuel with
  | 0 => failure
  | fuel + 1 =>
    skipLines
    if (← nextToken) = "esac" then
      skip 4
      return []
    if ← startsWith "(" then skip 1
    let patterns ← readPatterns fuel
    let commands ← readCommands fuel ["esac"]
    if ← startsWith ";;" then skip 2
    return (patterns, .sequence commands) :: (← readCases fuel)

def readCommand (fuel : Nat) : Reader Command := do
  match fuel with
  | 0 => failure
  | fuel + 1 =>
    let redirect := fun (body : Command) => do
      let redirections ← readRedirections fuel
      return if redirections.isEmpty then body else .redirected body redirections
    let token ← nextToken
    if ← startsWith "(" then
      skip 1
      let commands ← readCommands fuel []
      if !(← startsWith ")") then failure
      skip 1
      return ← redirect (.subshell (.sequence commands))
    match token with
    | "\x7b" =>
      skip 1
      redirect (← readBlock fuel "\x7d")
    | "if" =>
      skip 2
      redirect (← readConditional fuel)
    | "while" | "until" =>
      skip 5
      let condition ← readBlock fuel "do"
      redirect (.loop (token == "while") condition (← readBlock fuel "done"))
    | "for" =>
      skip 3
      let name ← nextToken
      skip name.length
      skipLines
      let hasWords := (← nextToken) == "in"
      if hasWords then skip 2
      let words ← if hasWords then readWords fuel else pure []
      if ← startsWith ";" then skip 1
      skipLines
      expect "do"
      redirect (.each name.toList (if hasWords then some words else none) (← readBlock fuel "done"))
    | "case" =>
      skip 4
      skipBlanks
      let word ← readWord fuel false delimits
      skipLines
      expect "in"
      redirect (.choice word (← readCases fuel))
    | _ => if endings.contains token then failure else readSimple fuel [] [] []

def readSimple (fuel : Nat) (assignments : List (Octets × Word)) (words : List Word)
    (redirections : List Redirection) : Reader Command := do
  match fuel with
  | 0 => failure
  | fuel + 1 =>
    if let some redirection ← readRedirection? fuel then
      return ← readSimple fuel assignments words (redirections ++ [redirection])
    let source ← get
    let name := source.rest.takeWhile isNameChar
    if source.rest.head?.all delimits then
      if words.isEmpty && assignments.isEmpty && redirections.isEmpty then failure
      return .simple source.line assignments words redirections
    if words.isEmpty && isName name && source.rest[name.length]? == some '=' then
      skip (name.length + 1)
      let value ← readWord fuel false delimits
      return ← readSimple fuel (assignments ++ [(name, value)]) words redirections
    let word ← readWord fuel false delimits
    if words.isEmpty && (← startsWith "()") then
      skip 2
      skipLines
      return .function (plainText word) (← readCommand fuel)
    readSimple fuel assignments (words ++ [word]) redirections

end

def readNext (fuel : Nat) : Reader (Option Command) := do
  skipLines
  if (← ahead).isEmpty then return none
  let command ← readChain fuel
  skipBlanks
  match ← ahead with
  | [] => return some command
  | c :: _ =>
    if !";\n&".toList.contains c || (← startsWith ";;") then failure
    skip 1
    return some command

end BracketMarkup.Programs.Shell
