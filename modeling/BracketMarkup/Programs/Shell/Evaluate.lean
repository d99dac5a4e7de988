import BracketMarkup.Programs.Cat
import BracketMarkup.Programs.Shell.Arithmetic
import BracketMarkup.Programs.Shell.Builtin
import BracketMarkup.Programs.Shell.Fields
import BracketMarkup.Programs.Shell.Reader

namespace BracketMarkup.Programs

open Host

def plainProgram? (name : Octets) : Option ((Octets → Option Octets) → List Octets → Octets × Nat) :=
  match String.ofList name with
  | "echo" => some fun _ words => (echo words, 0)
  | "printf" => some fun _ words => printf words
  | "cat" => some cat
  | "true" => some fun _ _ => ([], 0)
  | "false" => some fun _ _ => ([], 1)
  | _ => none

def Process.contentAt (process : Process) (word : Octets) : Option Octets :=
  if word = ['-'] then process.pending? 0
  else match process.find word with
    | .ok (_, .file content _) => some (.ofBytes content)
    | _ => if word = "/dev/null".toList then some [] else none

def Process.runPlain (process : Process) (words : List Octets)
    (program : (Octets → Option Octets) → List Octets → Octets × Nat) : Int × Process :=
  let (output, status) := program process.contentAt (words.drop 1)
  let missing := (words.drop 1).filter fun word => status = 1 ∧ process.contentAt word = none
  let process := missing.foldl (fun process word => (process.write? 2 (words.headD [] ++ ": ".toList ++
    word ++ ": No such file or directory\n".toList)).getD process) process
  match process.write? 1 output with
  | some process => (status, process)
  | none => (1, process)

namespace Shell

def parameter? (shell : Shell) (name : Octets) : Option Octets :=
  match name with
  | ['#'] => some (decimal shell.parameters.length)
  | ['?'] => some (toString shell.status).toList
  | ['-'] => some shell.options
  | ['$'] => some processNumber
  | ['0'] => some shell.name
  | ['@'] | ['*'] => if shell.parameters = [] then none else some (joinWords shell.parameters)
  | c :: _ =>
    if c.isDigit then shell.parameters[((digitsIn 10 9 name).1.getD 0) - 1]? else shell.assigned.lookup name
  | [] => none

def allParameters (quoted isJoined : Bool) : Run Expanded := do
  let shell ← get
  let separators ← separators
  if quoted ∧ isJoined then return ofValue true ((separators.take 1).intercalate shell.parameters)
  return ((shell.parameters.map (ofValue quoted)).intersperse [.fieldEnd]).flatten

def isAll (name : Octets) : Bool := name = ['@'] || name = ['*']

def valueOf (quoted : Bool) (name : Octets) : Run Expanded := do
  if isAll name then return ← allParameters quoted (name = ['*'])
  let shell ← get
  match parameter? shell name with
  | some value => return ofValue quoted value
  | none =>
    if shell.options.contains 'u' then fail (String.ofList name ++ ": parameter not set")
    return ofValue quoted []

def homeFirst (word : Word) : Word :=
  match word with
  | [.literal false ['~']] => [.parameter true "HOME".toList "" []]
  | .literal false ['~'] :: .literal false ['/'] :: rest =>
    .parameter true "HOME".toList "" [] :: .literal false ['/'] :: rest
  | _ => word

def turn (body : Run Unit) : Run Bool := fun shell =>
  match body.run shell with
  | (.ok _, shell) => (.ok true, shell)
  | (.error (.toBreak loops), shell) =>
    (if loops ≤ 1 then .ok false else .error (.toBreak (loops - 1)), shell)
  | (.error (.toContinue loops), shell) =>
    (if loops ≤ 1 then .ok true else .error (.toContinue (loops - 1)), shell)
  | (.error leave, shell) => (.error leave, shell)

def untilReturn (run : Run Unit) : Run Unit := do
  let (outcome, shell) := run.run (← get)
  set shell
  match outcome with
  | .ok _ | .error .toReturn => return
  | .error leave => throw leave

def checkStatus : Run Unit := do
  let shell ← get
  if shell.status ≠ 0 ∧ !shell.isCondition ∧ shell.options.contains 'e' then throw .toExit

def redirect (redirection : Redirection) (target : Octets) : Run Bool := do
  let shell ← get
  let connect := fun (process : Process) (channel : Option Nat) => do
    set { shell with toProcess := process.connect redirection.number channel }
    return true
  let refuse := fun (text : String) => do
    complain text.toList
    return false
  let name := String.ofList target
  match redirection.operator with
  | "<<" =>
    let (channel, process) := shell.toProcess.addChannel (.pipe target)
    connect process (some channel)
  | ">&" | "<&" =>
    if target = ['-'] then connect shell.toProcess none
    else match (digitsIn 10 9 target).1.bind (List.lookup · shell.descriptors) with
      | some channel => connect shell.toProcess (some channel)
      | none => refuse (name ++ ": Bad file descriptor")
  | operator =>
    let opening : Opening := match operator with
      | "<" => .read
      | ">" | ">|" => .write
      | _ => .append
    match shell.toProcess.openPath target opening with
    | .ok (channel, process) => connect process (some channel)
    | .error cause =>
      if opening = .read then
        refuse ("cannot open " ++ name ++ ": " ++ if cause = .missing then "No such file" else cause.text)
      else
        refuse ("cannot create " ++ name ++ ": " ++
          if cause = .missing then "Directory nonexistent" else cause.text)

def nextCommand (source : Source) : Option (Option Command × Source) :=
  (readNext (4 * source.rest.length + 16)).run source

/-- The words of a script after its first line, if that names an interpreter. -/
def interpreter? (script : Octets) : Option (List Octets) :=
  match script with
  | '#' :: '!' :: rest =>
    let line := (rest.takeWhile (· != '\n')).dropWhile (· == ' ')
    let path := line.takeWhile (· != ' ')
    let argument := (line.drop path.length).dropWhile (· == ' ')
    some (path :: if argument = [] then [] else [argument])
  | _ => none

def lastComponent (path : Octets) : Octets := (path.reverse.takeWhile (· != '/')).reverse

def installedName (path : Octets) : Octets :=
  let name := lastComponent path
  let front := String.ofList (path.take (path.length - name.length))
  if front = "" ∨ front = "/bin/" ∨ front = "/usr/bin/" then name else []

def readShellOptions : List Octets → List Char × List Octets
  | [] => ([], [])
  | word :: words =>
    match word with
    | ['-', '-'] => ([], words)
    | '-' :: c :: more =>
      let (options, rest) := readShellOptions words
      (c :: more ++ options, rest)
    | _ => ([], word :: words)

mutual

def expand (fuel : Nat) (word : Word) : Run Expanded := do
  match fuel with
  | 0 => throw .toExit
  | fuel + 1 => return (← word.mapM (expandPart fuel)).flatten

def expandPart (fuel : Nat) (part : Part) : Run Expanded := do
  match fuel with
  | 0 => throw .toExit
  | fuel + 1 =>
    match part with
    | .literal quoted text =>
      return if quoted then .quotes :: text.map (.char · .quoted) else text.map (.char · .plain)
    | .substitution quoted script =>
      let output ← captured (runScript fuel ⟨script, 1⟩)
      return ofValue quoted (output.reverse.dropWhile (· == '\n')).reverse
    | .arithmetic quoted word =>
      return ofValue quoted (toString (← evaluateArithmetic (textOf (← expand fuel word)))).toList
    | .parameter quoted name operation word =>
      let shell ← get
      let value := parameter? shell name
      let isEmpty := value.isNone || (operation.startsWith ":" && value == some [])
      match operation with
      | "" => valueOf quoted name
      | "length" =>
        return ofValue quoted (decimal (value.getD []).length)
      | "-" | ":-" => if isEmpty then expandInstead fuel quoted word else valueOf quoted name
      | "+" | ":+" => if isEmpty then return [] else expandInstead fuel quoted word
      | "=" | ":=" =>
        if isEmpty then assign name (textOf (← expand fuel word))
        valueOf quoted name
      | "?" | ":?" =>
        if isEmpty then
          let text := String.ofList (textOf (← expand fuel word))
          fail (String.ofList name ++ ": " ++ if text = "" then "parameter not set" else text)
        valueOf quoted name
      | _ => return ofValue quoted (cutValue operation (patternOf (← expand fuel word)) (value.getD []))

def expandInstead (fuel : Nat) (quoted : Bool) (word : Word) : Run Expanded := do
  match fuel with
  | 0 => throw .toExit
  | fuel + 1 =>
    return (← expand fuel word).map fun
      | .char c .plain => .char c (if quoted then .quoted else .expanded)
      | glyph => glyph

def expandWords (fuel : Nat) (words : List Word) : Run (List Octets) := do
  match fuel with
  | 0 => throw .toExit
  | fuel + 1 =>
    return (← words.mapM fun word => do
      let fields := fieldsOf (← separators) (← expand fuel (homeFirst word))
      return (← fields.mapM wordsOf).flatten).flatten

def withRedirections (fuel : Nat) (stays : Bool) (redirections : List Redirection) (run : Run Unit) :
    Run Unit := do
  match fuel with
  | 0 => throw .toExit
  | fuel + 1 =>
    let before := (← get).descriptors
    let isDone ← redirections.foldlM (fun isDone redirection => do
      if isDone then redirect redirection (textOf (← expand fuel redirection.target)) else return false) true
    let (outcome, shell) := (if isDone then run else setStatus 2).run (← get)
    set (if stays then shell else { shell with descriptors := before })
    match outcome with
    | .ok _ => return
    | .error leave => throw leave

def holds (fuel : Nat) (command : Command) : Run Bool := do
  match fuel with
  | 0 => throw .toExit
  | fuel + 1 =>
    let before := (← get).isCondition
    modify fun shell => { shell with isCondition := true }
    evaluate fuel command
    modify fun shell => { shell with isCondition := before }
    return (← get).status = 0

def evaluate (fuel : Nat) (command : Command) : Run Unit := do
  match fuel with
  | 0 => throw .toExit
  | fuel + 1 =>
    match command with
    | .sequence commands => commands.forM (evaluate fuel)
    | .redirected body redirections =>
      withRedirections fuel false redirections (evaluate fuel body)
      checkStatus
    | .subshell body =>
      apart (sayFarewell fuel (evaluate fuel body))
      checkStatus
    | .negation body => setStatus (truth (← holds fuel body))
    | .chain outcome first second => if (← holds fuel first) = outcome then evaluate fuel second
    | .conditional condition accepted rejected =>
      if ← holds fuel condition then evaluate fuel accepted
      else
        setStatus 0
        evaluate fuel rejected
    | .pipeline first second =>
      let written ← captured (evaluate fuel first)
      apart do
        let shell ← get
        let (channel, process) := shell.toProcess.addChannel (.pipe written)
        set { shell with toProcess := process.connect 0 (some channel) }
        evaluate fuel second
      checkStatus
    | .loop outcome condition body =>
      setStatus 0
      repeatRun (do
        let status := (← get).status
        if (← holds fuel condition) = outcome then turn (evaluate fuel body)
        else
          setStatus status
          return false) runningLimit
    | .each name words body =>
      let items ← match words with
        | some words => expandWords fuel words
        | none => pure (← get).parameters
      setStatus 0
      discard <| items.foldlM (fun goesOn item => do
        if !goesOn then return false
        assign name item
        turn (evaluate fuel body)) true
    | .choice word cases =>
      let text := textOf (← expand fuel word)
      let found ← cases.findM? fun (patterns, _) => patterns.anyM fun pattern => do
        return fits (patternOf (← expand fuel pattern)) text
      setStatus 0
      if let some (_, body) := found then evaluate fuel body
    | .function name body =>
      modify fun shell => { shell with functions := (name, body) :: shell.functions, status := 0 }
    | .simple line assignments words redirections =>
      modify fun shell => { shell with line }
      evaluateSimple fuel assignments (← expandWords fuel words) redirections
      checkStatus

def evaluateSimple (fuel : Nat) (assignments : List (Octets × Word)) (words : List Octets)
    (redirections : List Redirection) : Run Unit := do
  match fuel with
  | 0 => throw .toExit
  | fuel + 1 =>
    let assignAll := assignments.forM fun (name, word) => do assign name (textOf (← expand fuel word))
    match words with
    | [] => withRedirections fuel false redirections do
      setStatus 0
      assignAll
    | name :: words =>
      if String.ofList name = "exec" then
        withRedirections fuel true redirections (if words = [] then setStatus 0 else do
          launchWords fuel words
          throw .toExit)
      else withRedirections fuel false redirections do
        let before ← get
        assignAll
        let names := assignments.map Prod.fst
        modify fun shell => { shell with exported := names ++ shell.exported }
        perform fuel name words
        -- What was assigned for this command alone has its value from before again.
        if names ≠ [] then modify fun shell => { shell with
          exported := before.exported
          assigned := before.assigned.filter (names.contains ·.1) ++
            shell.assigned.filter (!names.contains ·.1) }

def perform (fuel : Nat) (name : Octets) (words : List Octets) : Run Unit := do
  match fuel with
  | 0 => throw .toExit
  | fuel + 1 =>
    let shell ← get
    match shell.functions.lookup name, builtin? name words, String.ofList name with
    | some body, _, _ =>
      set { shell with parameters := words, locals := [] }
      untilReturn (evaluate fuel body)
      modify fun after => { after with
        parameters := shell.parameters
        locals := shell.locals
        assigned := after.locals.foldl (fun assigned (name, value) =>
          (value.map (name, ·)).toList ++ assigned.filter (·.1 != name)) after.assigned }
    | none, some run, _ => setStatus (← run)
    | none, none, "eval" =>
      setStatus 0
      runScript fuel ⟨joinWords words, shell.line⟩
    | none, none, "." =>
      match (shell.toProcess.find (words.headD [])) with
      | .ok (_, .file content _) =>
        setStatus 0
        untilReturn (runScript fuel ⟨.ofBytes content, 1⟩)
      | _ => fail (".: " ++ String.ofList (words.headD []) ++ ": not found")
    | none, none, "command" => perform fuel (words.headD []) (words.drop 1)
    | none, none, _ => launchWords fuel (name :: words)

def runScript (fuel : Nat) (source : Source) : Run Unit := do
  match fuel with
  | 0 => throw .toExit
  | fuel + 1 =>
    match nextCommand source with
    | some (none, _) => return
    | some (some command, rest) =>
      evaluate fuel command
      runScript fuel rest
    | none =>
      modify fun shell => { shell with line := source.line }
      fail "Syntax error"

def sayFarewell (fuel : Nat) (run : Run Unit) : Run Unit := do
  match fuel with
  | 0 => throw .toExit
  | fuel + 1 =>
    let (_, shell) := run.run { (← get) with farewell := [] }
    let (outcome, after) :=
      (runScript fuel ⟨shell.farewell, shell.line⟩).run { shell with farewell := [] }
    set { after with status := if outcome matches .ok _ then shell.status else after.status }

def launchWords (fuel : Nat) (words : List Octets) : Run Unit := do
  match fuel with
  | 0 => throw .toExit
  | fuel + 1 =>
    let shell ← get
    let environment := shell.assigned.filter fun (name, _) => shell.exported.contains name
    match launch fuel { shell.toProcess with environment } (words.headD []) words with
    | .ok (status, process) =>
      set { shell with tree := process.tree, channels := process.channels }
      setStatus (if status < 0 then 128 - status else status)
    | .error cause =>
      complain (words.headD [] ++ ": ".toList ++
        (if cause = .missing then "not found" else cause.text).toList)
      setStatus (if cause = .missing then 127 else 126)

/-- Starts the program that a path or a name leads to; a status below zero tells of a signal. -/
def launch (fuel : Nat) (process : Process) (path : Octets) (words : List Octets) :
    Except Fault (Int × Process) :=
  match fuel with
  | 0 => .error .tooManyLinks
  | fuel + 1 =>
    match plainProgram? (installedName path) with
    | some program => .ok (process.runPlain words program)
    | none =>
      if installedName path = "sh".toList then .ok (runShell fuel process words)
      else if !path.contains '/' then
        if path = [] ∨ path = ['.'] ∨ path = ['.', '.'] then .error .denied
        else .error (if 255 < path.length then .nameTooLong else .missing)
      else match process.find path with
        | .ok (_, .file content true) =>
          match interpreter? (.ofBytes content) with
          | some (interpreter :: argument) =>
            if interpreter.contains '/' then
              launch fuel process interpreter (interpreter :: argument ++ path :: words.drop 1)
            else .error .missing
          | _ => .error .badFormat
        | .ok _ => .error .denied
        | .error cause => .error cause

def runShell (fuel : Nat) (process : Process) (words : List Octets) : Int × Process :=
  match fuel with
  | 0 => (1, process)
  | fuel + 1 =>
    let (options, rest) := readShellOptions (words.drop 1)
    let script := fun (name : Octets) (parameters : List Octets) (text : Octets) =>
      let shell := { ofProcess process name with parameters, options := options.filter (· != 'c') }
      let (_, after) := (sayFarewell fuel (runScript fuel ⟨text, 1⟩)).run shell
      (after.status, { process with tree := after.tree, channels := after.channels })
    let own := words.headD []
    match options.contains 'c', rest with
    | true, text :: names => script (names.headD own) (names.drop 1) text
    | true, [] => (2, process)
    | false, [] => script own [] ((process.pending? 0).getD [])
    | false, path :: parameters =>
      match process.contentAt path with
      | some text => script path parameters text
      | none => (2, process)

end

end Shell

end BracketMarkup.Programs
