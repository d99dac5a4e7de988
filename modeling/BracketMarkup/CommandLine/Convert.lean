import BracketMarkup.CommandLine.Options
import BracketMarkup.Host.Surroundings
import BracketMarkup.Page
import BracketMarkup.Text.Order

namespace BracketMarkup.CommandLine

open Host Template

def programName : String := "baml"

def versionLine : String := programName ++ " version 0.1.0\n"

def helpText : String :=
  "usage: baml [-h] [-v] [-a] [-x] [-t FILE] [-o DIRECTORY] [--dry-run NAME] [file.baml ...]\n"

def sourceExtension : List Char := ".baml".toList

def plainTemplate : List Char := "%\x7bcontent\x7d".toList

def isSource (name : List Char) : Bool := sourceExtension.isSuffixOf name

/-- The name of the page for a source: the last component of its path with another extension, in the
    output directory. -/
def pageName (source directory : List Char) : List Char :=
  let name := (Path.splitExtension (Path.base (Path.normalize source))).1
  Path.join directory (name ++ ".html".toList)

structure Desk where
  tree : FileTree
  output : String
  errors : String

def Desk.say (desk : Desk) (line : String) : Desk := { desk with output := desk.output ++ line ++ "\n" }

def Desk.complain (desk : Desk) (line : String) : Desk :=
  { desk with errors := desk.errors ++ line ++ "\n" }

inductive Crash where
  | stopped (stop : Stop)
  | noValue
  deriving DecidableEq, Repr

/-- A template file that cannot be read is replaced by a template that is nothing but its content. -/
def loadTemplate (desk : Desk) (file : List Char) (verbose : Bool) :
    Except Crash Engine × Desk :=
  match loadEngine desk.tree file [] verbose with
  | .ok engine => (.ok engine, desk)
  | .error (.refused .nul) => (.error (.stopped .nulInPath), desk)
  | .error _ =>
    let shown := String.ofList file
    let plain := String.ofList plainTemplate
    (.ok (Engine.make plainTemplate (Path.directory file) [] verbose),
      desk.complain s!"warning: cannot read template `{shown}`, using `{plain}`")

def writePage (machine : Machine) (desk : Desk) (name page : List Char) : Except Crash Bool × Desk :=
  let shown := String.ofList name
  match desk.tree.write machine.device name page with
  | (.ok (), tree) => (.ok true, { desk with tree }.say s!"success: wrote to `{shown}`")
  | (.error .nul, tree) => (.error (.stopped .nulInPath), { desk with tree })
  | (.error _, tree) => (.ok false, { desk with tree }.complain s!"error: cannot write to `{shown}`")

def compileDocument (machine : Machine) (engine : Engine) (desk : Desk) (document : Document) :
    Except Crash (List Char) × Desk :=
  let (outcome, trace) :=
    (Page.compile (surroundings machine.start) engine engine.bindings document).run ⟨desk.tree, [], ""⟩
  let shown := trace.diagnostics.foldl (fun desk diagnostic => desk.complain diagnostic.line)
    { desk with tree := trace.host, output := desk.output ++ trace.printed }
  (outcome.mapError .stopped, shown)

def writeDocument (machine : Machine) (engine : Engine) (desk : Desk) (document : Document)
    (source : Setting) (directory : List Char) : Except Crash Bool × Desk :=
  match compileDocument machine engine desk document with
  | (.error crash, desk) => (.error crash, desk)
  | (.ok page, desk) =>
    match source with
    | none => (.error .noValue, desk)
    | some source => writePage machine desk (pageName source directory) page

def convertFile (machine : Machine) (engine : Engine) (directory : List Char) (desk : Desk)
    (source : List Char) : Except Crash Bool × Desk :=
  let shown := String.ofList source
  match desk.tree.readText source with
  | .error (.refused .nul) => (.error (.stopped .nulInPath), desk)
  | .error failure =>
    let reason := failure.message
    (.ok false, desk.complain s!"error: skipping `{shown}` (cannot read: {reason})")
  | .ok text =>
    match Document.parse text with
    | .error fault =>
      let reason := fault.message
      (.ok false, desk.complain s!"error: skipping `{shown}` (cannot parse: {reason})")
    | .ok document => writeDocument machine engine desk document (some source) directory

def convertFiles (machine : Machine) (engine : Engine) (directory : List Char) (desk : Desk) :
    List (List Char) → Except Crash Bool × Desk
  | [] => (.ok true, desk)
  | source :: rest =>
    match convertFile machine engine directory desk source with
    | (.error crash, desk) => (.error crash, desk)
    | (.ok succeeded, desk) =>
      let (others, desk) := convertFiles machine engine directory desk rest
      (others.map (succeeded && ·), desk)

def allSources (tree : FileTree) : List (List Char) :=
  let sources := tree.filterMap fun (location, entry) => match entry with
    | .file _ _ => if (location.getLast?).any isSource then some location else none
    | .directory => none
  (sources.map fun location => ['/'].intercalate (['.'] :: location)).mergeSort textLe

def conflict? (options : Options) : Option String :=
  if options.all ∧ options.files ≠ [] then
    some "error: option -a (or --all) cannot be used with positional argument"
  else if options.dryRun.isSome ∧ (options.all ∨ options.files ≠ []) then
    some "error: option --dry-run cannot be used with -a (or --all) or positional argument"
  else if options.dryRun = none ∧ !options.all ∧ options.files = [] then
    some "error: no BAML files given (use -a (or --all) to convert all BAML files)"
  else none

def exitStatus (succeeded : Bool) : Nat := if succeeded then 0 else 1

def convertInto (machine : Machine) (options : Options) (template directory : List Char)
    (desk : Desk) : Except Crash Bool × Desk :=
  match loadTemplate desk template options.verbose with
  | (.error crash, desk) => (.error crash, desk)
  | (.ok engine, desk) =>
    match options.dryRun with
    | some name => writeDocument machine engine desk ⟨[], []⟩ name directory
    | none =>
      let sources := if options.all then allSources desk.tree else options.files
      convertFiles machine engine directory desk sources

def convert (machine : Machine) (options : Options) (desk : Desk) : Except Crash Bool × Desk :=
  match options.outputDirectory with
  | none => (.error .noValue, desk)
  | some directory =>
    match desk.tree.ensureDirectories directory with
    | (.error .nul, tree) => (.error (.stopped .nulInPath), { desk with tree })
    | (.error _, tree) =>
      let shown := String.ofList directory
      (.ok false, { desk with tree }.complain s!"error: cannot create output directory `{shown}`")
    | (.ok (), tree) =>
      match options.template with
      | none => (.error .noValue, { desk with tree })
      | some template => convertInto machine options template directory { desk with tree }

def run (machine : Machine) (tree : FileTree) (texts : List (List Char)) :
    Except Crash Nat × Desk :=
  let desk : Desk := ⟨tree, "", ""⟩
  match Options.read texts with
  | .ok options =>
    match conflict? options with
    | some complaint => (.ok 2, desk.complain complaint)
    | none =>
      let (outcome, desk) := convert machine options desk
      (outcome.map exitStatus, desk)
  | .error .version => (.ok 0, { desk with output := versionLine })
  | .error .help => (.ok 0, { desk with output := helpText })
  | .error (.complaint complaint) => (.ok 2, desk.complain (programName ++ ": error: " ++ complaint.message))

end BracketMarkup.CommandLine
