import BracketMarkup.Programs.Echo
import BracketMarkup.Programs.Printf
import BracketMarkup.Programs.Shell.Test

namespace BracketMarkup.Programs.Shell

open Host

def shellEcho (words : List Octets) : Octets :=
  let bare := words.head? = some ['-', 'n']
  let text := joinWords (if bare then words.drop 1 else words)
  let (shown, ending) := interpretEscapes .shell (text.length + 1) text
  shown ++ if bare || ending.isSome then [] else ['\n']

def numberOr (default : Int) (words : List Octets) : Int :=
  (words.head?.map fun word => (readInteger word).1).getD default

def setOptions : List Octets → Run Unit
  | [] => return
  | word :: words =>
    match word with
    | ['-', '-'] => modify fun shell => { shell with parameters := words }
    | '-' :: c :: more => do
      modify fun shell => { shell with options := c :: more ++ shell.options }
      setOptions words
    | '+' :: c :: more => do
      modify fun shell => { shell with options := shell.options.filter (!(c :: more).contains ·) }
      setOptions words
    | _ => modify fun shell => { shell with parameters := word :: words }

def declare (mark : Octets → Shell → Shell) (words : List Octets) : Run Unit :=
  words.forM fun word => do
    let name := word.takeWhile (· != '=')
    modify (mark name)
    if name.length < word.length then assign name (word.drop (name.length + 1))

def markLocal (name : Octets) (shell : Shell) : Shell :=
  { shell with locals := (name, shell.assigned.lookup name) :: shell.locals }

def unset (words : List Octets) : Run Unit :=
  match words with
  | ['-', 'f'] :: names => modify fun shell =>
    { shell with functions := shell.functions.filter (!names.contains ·.1) }
  | _ => words.forM fun name => do
    forget name
    modify fun shell => { shell with exported := shell.exported.filter (· != name) }

def lineIn (raw : Bool) : Octets → Octets × Nat × Bool
  | [] => ([], 0, false)
  | '\n' :: _ => ([], 1, true)
  | c :: rest =>
    if c = '\\' ∧ !raw then
      match rest with
      | [] => ([], 1, false)
      | next :: rest =>
        let (line, length, ended) := lineIn raw rest
        (if next = '\n' then line else next :: line, length + 2, ended)
    else
      let (line, length, ended) := lineIn raw rest
      (c :: line, length + 1, ended)

def assignFields (separators : Octets) (line : Octets) : List Octets → Run Unit
  | [] => return
  | [name] => assign name (line.reverse.dropWhile isGap).reverse
  | name :: names => do
    assign name (line.takeWhile (!separators.contains ·))
    let rest := (line.dropWhile (!separators.contains ·)).dropWhile isGap
    let rest := if rest.head?.any separators.contains then (rest.drop 1).dropWhile isGap else rest
    assignFields separators rest names
where
  isGap (c : Char) : Bool := c.isWhitespace && separators.contains c

def readLine (raw : Bool) (names : List Octets) : Run Int := do
  let shell ← get
  let (line, length, ended) := lineIn raw ((shell.toProcess.pending? 0).getD [])
  set { shell with toProcess := shell.toProcess.advance 0 length }
  let separators ← separators
  assignFields separators (line.dropWhile (assignFields.isGap separators)) names
  return if ended then 0 else 1

def changeDirectory (path : Octets) : Run Int := do
  let shell ← get
  match shell.toProcess.find path with
  | .ok (place, .directory) =>
    set { shell with place }
    return 0
  | _ =>
    complain ("cd: can't cd to ".toList ++ path)
    return 2

def signalNumber (name : Octets) : Int :=
  match String.ofList name with
  | "HUP" => 1
  | "INT" => 2
  | "KILL" => 9
  | "TERM" => 15
  | _ => (readInteger name).1

def processNumber : Octets := "1000".toList

def kill (words : List Octets) : Run Int := do
  let signal := match words with
    | ('-' :: name) :: _ => signalNumber name
    | _ => 15
  if !words.contains processNumber then return 1
  setStatus (-signal)
  throw .toExit

def builtin? (name : Octets) (words : List Octets) : Option (Run Int) :=
  let quietly := fun (run : Run Unit) => some do
    run
    return 0
  match String.ofList name with
  | ":" | "true" | "wait" => some (return 0)
  | "false" => some (return 1)
  | "echo" => some (sayTo 1 (shellEcho words))
  | "printf" => some do
    if words = [] then return 2
    let (text, status) := printf words
    return max (← sayTo 1 text) status
  | "test" => some do return test (← get).toProcess words
  | "[" => some do
    if words.getLast? ≠ some [']'] then return 2
    return test (← get).toProcess words.dropLast
  | "break" => some (throw (.toBreak (numberOr 1 words).toNat))
  | "continue" => some (throw (.toContinue (numberOr 1 words).toNat))
  | "return" => some do
    setStatus (numberOr (← get).status words)
    throw .toReturn
  | "exit" => some do
    setStatus (numberOr (← get).status words % 256)
    throw .toExit
  | "set" => quietly (setOptions words)
  | "shift" => some do
    let shell ← get
    let count := (numberOr 1 words).toNat
    if shell.parameters.length < count then fail "shift: can't shift that many"
    set { shell with parameters := shell.parameters.drop count }
    return 0
  | "export" => quietly (declare (fun name shell => { shell with exported := name :: shell.exported }) words)
  | "readonly" => quietly do
    declare (fun _ shell => shell) words
    declare (fun name shell => { shell with readOnly := name :: shell.readOnly })
      (words.map (·.takeWhile (· != '=')))
  | "local" => quietly (declare markLocal words)
  | "unset" => quietly (unset words)
  | "trap" =>
    quietly (modify fun shell => match words with
      | action :: signals =>
        if signals.contains "EXIT".toList || signals.contains ['0'] then
          { shell with farewell := if action = ['-'] then [] else action }
        else shell
      | [] => shell)
  | "read" =>
    some (if words.head? = some ['-', 'r'] then readLine true (words.drop 1) else readLine false words)
  | "cd" => some (changeDirectory (words.headD ['.']))
  | "kill" => some (kill words)
  | _ => none

end BracketMarkup.Programs.Shell
