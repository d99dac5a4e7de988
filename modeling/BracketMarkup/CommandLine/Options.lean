import BracketMarkup.Text.Digit
import BracketMarkup.Text.Quoted

namespace BracketMarkup.CommandLine

/-- The value of a switch. It is missing where two dashes are attached to the switch: they are never a
    value. -/
abbrev Setting := Option (List Char)

def Setting.ofAttached (text : List Char) : Setting := if text = ['-', '-'] then none else some text

structure Options where
  all : Bool
  verbose : Bool
  template : Setting
  outputDirectory : Setting
  dryRun : Option Setting
  files : List (List Char)
  deriving DecidableEq, Repr

def Options.default : Options where
  all := false
  verbose := false
  template := some "template.html".toList
  outputDirectory := some "out".toList
  dryRun := none
  files := []

inductive Switch where
  | help
  | version
  | all
  | verbose
  | template
  | outputDirectory
  | dryRun
  deriving DecidableEq, Repr

namespace Switch

def every : List Switch := [help, version, all, verbose, template, outputDirectory, dryRun]

def letter? : Switch → Option Char
  | help => some 'h'
  | version => some 'v'
  | all => some 'a'
  | verbose => some 'x'
  | template => some 't'
  | outputDirectory => some 'o'
  | dryRun => none

def long : Switch → List Char
  | help => "--help".toList
  | version => "--version".toList
  | all => "--all".toList
  | verbose => "--verbose".toList
  | template => "--template".toList
  | outputDirectory => "--output-dir".toList
  | dryRun => "--dry-run".toList

def takesValue : Switch → Bool
  | template | outputDirectory | dryRun => true
  | _ => false

def shown (switch : Switch) : String :=
  match switch.letter? with
  | some letter => String.ofList ['-', letter, '/'] ++ String.ofList switch.long
  | none => String.ofList switch.long

def ofLetter? (letter : Char) : Option Switch := every.find? (·.letter? == some letter)

def ofText? : List Char → Option Switch
  | ['-', letter] => ofLetter? letter
  | text => every.find? (·.long == text)

end Switch

inductive Complaint where
  | ambiguous (text : List Char) (candidates : List Switch)
  | noValue (switch : Switch)
  | needlessValue (switch : Switch) (value : List Char)
  | unrecognized (texts : List (List Char))
  deriving DecidableEq, Repr

def Complaint.message : Complaint → String
  | ambiguous text candidates =>
    let shown := String.ofList text
    let names := ", ".intercalate (candidates.map fun switch => String.ofList switch.long)
    s!"ambiguous option: {shown} could match {names}"
  | noValue switch =>
    let shown := switch.shown
    s!"argument {shown}: expected one argument"
  | needlessValue switch value =>
    let shown := switch.shown
    let quoted := String.ofList (Quoted.encode value)
    s!"argument {shown}: ignored explicit argument {quoted}"
  | unrecognized texts =>
    let shown := String.ofList ([' '].intercalate texts)
    s!"unrecognized arguments: {shown}"

inductive Item where
  | value (text : List Char)
  | separator
  | switch (switch : Switch) (byLetter : Bool) (attached : Option (List Char))
  | unknown (text : List Char)
  deriving DecidableEq, Repr

def isNegativeNumber : List Char → Bool
  | '-' :: digits =>
    let digits := if digits.getLast? = some '\n' then digits.dropLast else digits
    match digits.dropWhile isDecimalDigit with
    | [] => !digits.isEmpty
    | '.' :: fraction => !fraction.isEmpty && fraction.all isDecimalDigit
    | _ => false
  | _ => false

def splitEquals (text : List Char) : List Char × Option (List Char) :=
  match text.dropWhile (· != '=') with
  | [] => (text, none)
  | _ :: value => (text.takeWhile (· != '='), some value)

/-- The switches that a text may stand for that does not spell one in full: by the beginning of a long
    name, or by a letter with a value attached. -/
def candidates (text : List Char) : List (Switch × Bool × Option (List Char)) :=
  match text with
  | '-' :: '-' :: _ =>
    let (name, attached) := splitEquals text
    (Switch.every.filter fun switch => name.isPrefixOf switch.long).map (·, false, attached)
  | '-' :: letter :: attached =>
    (Switch.ofLetter? letter).toList.map (·, true, some attached)
  | _ => []

/-- Tells switches from values. What looks like a number or has a space in it is a value. -/
def classify (text : List Char) : Except Complaint Item :=
  if text.head? ≠ some '-' ∨ text.length = 1 then .ok (.value text)
  else match Switch.ofText? text with
    | some switch => .ok (.switch switch (text.length = 2) none)
    | none =>
      let (name, attached) := splitEquals text
      match attached, Switch.ofText? name with
      | some value, some switch => .ok (.switch switch (name.length = 2) (some value))
      | _, _ =>
        match candidates text with
        | [(switch, byLetter, attached)] => .ok (.switch switch byLetter attached)
        | [] =>
          .ok (if isNegativeNumber text ∨ ' ' ∈ text then .value text else .unknown text)
        | several => .error (.ambiguous text (several.map Prod.fst))

def classifyAll : List (List Char) → Except Complaint (List Item)
  | [] => .ok []
  | text :: rest =>
    if text = ['-', '-'] then .ok (.separator :: rest.map .value)
    else do
      let item ← classify text
      return item :: (← classifyAll rest)

inductive Group where
  | ahead
  | reading
  | over
  deriving DecidableEq, Repr

structure Progress where
  options : Options
  group : Group
  extras : List (List Char)

inductive Ending where
  | complaint (complaint : Complaint)
  | help
  | version
  deriving DecidableEq, Repr

def unfold (switch : Switch) (byLetter : Bool) : List Char → Except Complaint (List Switch × Option (List Char))
  | [] => if switch.takesValue then .ok ([switch], some []) else .error (.needlessValue switch [])
  | letter :: attached =>
    if switch.takesValue then .ok ([switch], some (letter :: attached))
    else if byLetter then
      match Switch.ofLetter? letter with
      | none => .error (.needlessValue switch (letter :: attached))
      | some next =>
        match attached with
        | [] => .ok ([switch, next], none)
        | _ => do
          let (more, value) ← unfold next true attached
          return (switch :: more, value)
    else .error (.needlessValue switch (letter :: attached))

def Progress.act (progress : Progress) (value : Setting) : Switch → Except Ending Progress
  | .help => .error .help
  | .version => .error .version
  | .all => .ok { progress with options.all := true }
  | .verbose => .ok { progress with options.verbose := true }
  | .template => .ok { progress with options.template := value }
  | .outputDirectory => .ok { progress with options.outputDirectory := value }
  | .dryRun => .ok { progress with options.dryRun := some value }

def Progress.actAll (progress : Progress) (value : Setting) : List Switch → Except Ending Progress
  | [] => .ok progress
  | switch :: rest => do (← progress.act value switch).actAll value rest

def Progress.close (progress : Progress) : Progress :=
  if progress.group = .reading then { progress with group := .over } else progress

def Progress.addValue (progress : Progress) (text : List Char) : Progress :=
  if progress.group = .over then { progress with extras := progress.extras ++ [text] }
  else { progress with
    options.files := progress.options.files ++ [text]
    group := .reading }

def Progress.addSeparator (progress : Progress) : Progress :=
  if progress.group = .over then { progress with extras := progress.extras ++ [['-', '-']] }
  else { progress with group := .reading }

def collect (progress : Progress) : List Item → Except Ending Progress
  | [] => .ok progress
  | .value text :: rest => collect (progress.addValue text) rest
  | .separator :: rest => collect progress.addSeparator rest
  | .unknown text :: rest =>
    collect { progress.close with extras := progress.extras ++ [text] } rest
  | .switch switch byLetter attached :: rest =>
    let unfolded : Except Complaint (List Switch × Option (List Char)) := match attached with
      | none => .ok ([switch], none)
      | some text => unfold switch byLetter text
    match unfolded with
    | .error complaint => .error (.complaint complaint)
    | .ok (switches, some text) => do
      collect (← progress.close.actAll (Setting.ofAttached text) switches) rest
    | .ok (switches, none) =>
      let last := switches.getLastD switch
      if last.takesValue then
        match rest with
        | .value text :: rest => do collect (← progress.close.actAll (some text) switches) rest
        | _ => .error (.complaint (.noValue last))
      else do collect (← progress.close.actAll none switches) rest

def Options.read (texts : List (List Char)) : Except Ending Options := do
  let items ← (classifyAll texts).mapError .complaint
  let progress ← collect ⟨Options.default, .ahead, []⟩ items
  if progress.extras = [] then return progress.options
  else throw (.complaint (.unrecognized progress.extras))

end BracketMarkup.CommandLine
