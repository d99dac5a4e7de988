import BracketMarkup.Proofs.Compilation
import BracketMarkup.Proofs.Placement

namespace BracketMarkup.CommandLine

open Host FileTree Template

/-- What becomes of a file that is converted: it fails before its page is opened, its page is opened
    and not filled, or its page is written. -/
inductive Outcome where
  | failed
  | unfilled (name : List Char)
  | written (name page : List Char)
  deriving DecidableEq, Repr

def Outcome.isWritten : Outcome → Bool
  | written _ _ => true
  | _ => false

section Conversion

variable (machine : Machine) (engine : Engine) (directory : List Char)

/-- What becomes of a file that is converted, and of the tree. A path with a NUL character is not among
    what is recovered from. -/
inductive Conversion (tree : FileTree) (source : List Char) : Outcome → FileTree → Prop where
  | unreadable {failure : ReadFailure} : tree.readText source = .error failure →
      failure ≠ .refused .nul → Conversion tree source .failed tree
  | unparsable {text : List Char} {fault : ParseError} : tree.readText source = .ok text →
      Document.parse text = .error fault → Conversion tree source .failed tree
  | unopened {text page : List Char} {document : Document} {after : FileTree} {refusal : Refusal} :
      tree.readText source = .ok text → Document.parse text = .ok document →
      Compiles machine.start engine tree document page after →
      after.openAnew (pageName source directory) = .error refusal → refusal ≠ .nul →
      Conversion tree source .failed after
  | unfilled {text name page : List Char} {document : Document} {compiled opened after : FileTree}
      {refusal : Refusal} :
      tree.readText source = .ok text → Document.parse text = .ok document →
      Compiles machine.start engine tree document page compiled → name = pageName source directory →
      compiled.openAnew name = .ok opened →
      compiled.write machine.device name page = (.error refusal, after) →
      Conversion tree source (.unfilled name) after
  | written {text name page : List Char} {document : Document} {compiled after : FileTree} :
      tree.readText source = .ok text → Document.parse text = .ok document →
      Compiles machine.start engine tree document page compiled → name = pageName source directory →
      compiled.write machine.device name page = (.ok (), after) →
      Conversion tree source (.written name page) after

/-- Files that are converted one after the other. -/
inductive Conversions : FileTree → List (List Char) → List Outcome → FileTree → Prop where
  | nil (tree : FileTree) : Conversions tree [] [] tree
  | cons {tree middle last : FileTree} {source : List Char} {rest : List (List Char)}
      {outcome : Outcome} {outcomes : List Outcome} :
      Conversion machine engine directory tree source outcome middle →
      Conversions middle rest outcomes last →
      Conversions tree (source :: rest) (outcome :: outcomes) last

end Conversion

variable {machine : Machine} {engine : Engine} {directory : List Char}

theorem writePage_cases {desk desk' : Desk} {name page : List Char} {succeeded : Bool}
    (h : writePage machine desk name page = (.ok succeeded, desk')) :
    (succeeded = true ∧ desk.tree.write machine.device name page = (.ok (), desk'.tree)) ∨
      ∃ refusal, succeeded = false ∧ refusal ≠ .nul ∧
        desk.tree.write machine.device name page = (.error refusal, desk'.tree) := by
  unfold writePage at h
  split at h
  · rename_i tree wrote
    cases h
    exact .inl ⟨rfl, wrote⟩
  · cases h
  · rename_i refusal tree other wrote
    cases h
    exact .inr ⟨refusal, rfl, other, wrote⟩

theorem conversion_of_convertFile {desk desk' : Desk} {source : List Char} {succeeded : Bool}
    (h : convertFile machine engine directory desk source = (.ok succeeded, desk')) :
    ∃ outcome, Conversion machine engine directory desk.tree source outcome desk'.tree ∧
      succeeded = outcome.isWritten := by
  unfold convertFile at h
  dsimp only at h
  split at h
  · cases h
  · rename_i failure other read
    cases h
    exact ⟨.failed, .unreadable read other, rfl⟩
  · rename_i text read
    split at h
    · rename_i fault parsed
      cases h
      exact ⟨.failed, .unparsable read parsed, rfl⟩
    · rename_i document parsed
      unfold writeDocument at h
      split at h
      · cases h
      · rename_i page middle compiled
        have compiles := compileDocument_ok_iff.mp ⟨middle, compiled, rfl⟩
        rcases writePage_cases h with ⟨rfl, wrote⟩ | ⟨refusal, rfl, other, wrote⟩
        · exact ⟨_, .written read parsed compiles rfl wrote, rfl⟩
        · cases opening : middle.tree.openAnew (pageName source directory) with
          | ok opened => exact ⟨_, .unfilled read parsed compiles rfl opening wrote, rfl⟩
          | error refused =>
            rw [write_of_refused _ _ opening, Prod.mk.injEq, Except.error.injEq] at wrote
            obtain ⟨rfl, left⟩ := wrote
            rw [← left]
            exact ⟨.failed, .unopened read parsed compiles opening other, rfl⟩

theorem exists_writePage {desk : Desk} {name page : List Char} {after : FileTree} :
    (desk.tree.write machine.device name page = (.ok (), after) →
      ∃ desk', writePage machine desk name page = (.ok true, desk') ∧ desk'.tree = after) ∧
    ∀ refusal, desk.tree.write machine.device name page = (.error refusal, after) → refusal ≠ .nul →
      ∃ desk', writePage machine desk name page = (.ok false, desk') ∧ desk'.tree = after := by
  constructor
  · intro wrote
    rw [writePage, wrote]
    exact ⟨_, rfl, rfl⟩
  · intro refusal failed other
    rw [writePage, failed]
    cases refusal with
    | nul => exact absurd rfl other
    | fault cause path => exact ⟨_, rfl, rfl⟩

theorem convertFile_parsed (directory : List Char) {desk : Desk} {source text page : List Char}
    {document : Document} {middle : FileTree} (read : desk.tree.readText source = .ok text)
    (parsed : Document.parse text = .ok document)
    (compiles : Compiles machine.start engine desk.tree document page middle) :
    ∃ desk', desk'.tree = middle ∧ convertFile machine engine directory desk source =
      writePage machine desk' (pageName source directory) page := by
  obtain ⟨desk', compiled, same⟩ := compileDocument_ok_iff.mpr compiles
  refine ⟨desk', same, ?_⟩
  simp only [convertFile, read, parsed, writeDocument, compiled]

theorem Conversion.convertFile {desk : Desk} {source : List Char} {outcome : Outcome}
    {after : FileTree} (h : Conversion machine engine directory desk.tree source outcome after) :
    ∃ desk', convertFile machine engine directory desk source = (.ok outcome.isWritten, desk') ∧
      desk'.tree = after := by
  cases h with
  | @unreadable failure read other =>
    rw [CommandLine.convertFile, read]
    match failure, other with
    | .refused .nul, other => exact absurd rfl other
    | .refused (.fault cause path), _ => exact ⟨_, rfl, rfl⟩
    | .undecodable bad, _ => exact ⟨_, rfl, rfl⟩
  | unparsable read parsed =>
    simp only [CommandLine.convertFile, read, parsed]
    exact ⟨_, rfl, rfl⟩
  | unopened read parsed compiles refused other =>
    obtain ⟨middle, rfl, converted⟩ := convertFile_parsed directory read parsed compiles
    rw [converted]
    exact exists_writePage.2 _ (write_of_refused _ _ refused) other
  | unfilled read parsed compiles named opening wrote =>
    obtain ⟨middle, rfl, converted⟩ := convertFile_parsed directory read parsed compiles
    rw [converted, ← named]
    refine exists_writePage.2 _ wrote ?_
    obtain ⟨-, -, -, -, -, -, ⟨full, -⟩ | ⟨cause, failed⟩⟩ :=
      write_of_openAnew machine.device _ opening
    · rw [wrote] at full
      cases full
    · rw [wrote] at failed
      cases failed
      simp
  | written read parsed compiles named wrote =>
    obtain ⟨middle, rfl, converted⟩ := convertFile_parsed directory read parsed compiles
    rw [converted, ← named]
    exact exists_writePage.1 wrote

theorem conversions_of_convertFiles {sources : List (List Char)} {desk desk' : Desk} {succeeded : Bool}
    (h : convertFiles machine engine directory desk sources = (.ok succeeded, desk')) :
    ∃ outcomes, Conversions machine engine directory desk.tree sources outcomes desk'.tree ∧
      succeeded = outcomes.all Outcome.isWritten := by
  induction sources generalizing desk succeeded with
  | nil =>
    cases h
    exact ⟨[], .nil _, rfl⟩
  | cons source rest ih =>
    rw [convertFiles] at h
    split at h
    · cases h
    · rename_i first middle converted
      obtain ⟨outcome, step, rfl⟩ := conversion_of_convertFile converted
      rcases others : convertFiles machine engine directory middle rest with ⟨result, last⟩
      rw [others] at h
      cases result with
      | error crash => cases h
      | ok remaining =>
        cases h
        obtain ⟨outcomes, steps, rfl⟩ := ih others
        exact ⟨outcome :: outcomes, .cons step steps, rfl⟩

theorem Conversions.convertFiles {desk : Desk} {sources : List (List Char)} {outcomes : List Outcome}
    {last : FileTree} (h : Conversions machine engine directory desk.tree sources outcomes last) :
    ∃ desk', convertFiles machine engine directory desk sources =
      (.ok (outcomes.all Outcome.isWritten), desk') ∧ desk'.tree = last := by
  induction sources generalizing desk outcomes with
  | nil =>
    cases h
    exact ⟨desk, rfl, rfl⟩
  | cons source rest ih =>
    cases h with
    | cons step steps =>
      obtain ⟨middle, converted, rfl⟩ := step.convertFile
      obtain ⟨desk', others, last⟩ := ih steps
      refine ⟨desk', ?_, last⟩
      rw [CommandLine.convertFiles, converted]
      simp only [others, List.all_cons, Except.map]

theorem Conversion.page_written {tree after : FileTree} {source name page : List Char}
    (h : Conversion machine engine directory tree source (.written name page) after) :
    name = pageName source directory ∧ after.readBytes name = .ok (Utf8.encode page) := by
  cases h with
  | written _ _ _ named wrote => exact ⟨named, readBytes_write wrote⟩

theorem Conversion.of_run {tree after : FileTree} {source text page : List Char} {document : Document}
    (read : tree.readText source = .ok text) (parsed : Document.parse text = .ok document)
    (done : ((Page.compile (surroundings machine.start) engine engine.bindings document).run
      ⟨tree, [], ""⟩).1 = .ok page)
    (wrote : ((Page.compile (surroundings machine.start) engine engine.bindings document).run
      ⟨tree, [], ""⟩).2.host.write machine.device (pageName source directory) page = (.ok (), after)) :
    Conversion machine engine directory tree source (.written (pageName source directory) page) after :=
  .written read parsed (compiles_of_run done rfl) rfl wrote

theorem Conversion.opened {tree after : FileTree} {source : List Char} {outcome : Outcome}
    (h : Conversion machine engine directory tree source outcome after) (went : outcome ≠ .failed) :
    ∃ text document page compiled opened, tree.readText source = .ok text ∧
      Document.parse text = .ok document ∧ Compiles machine.start engine tree document page compiled ∧
      compiled.openAnew (pageName source directory) = .ok opened ∧
      (outcome = .unfilled (pageName source directory) ∨
        outcome = .written (pageName source directory) page) := by
  cases h with
  | unreadable => exact absurd rfl went
  | unparsable => exact absurd rfl went
  | unopened => exact absurd rfl went
  | unfilled read parsed compiles named opening _ =>
    rw [named] at opening
    exact ⟨_, _, _, _, _, read, parsed, compiles, opening, .inl (congrArg _ named)⟩
  | @written _ _ _ _ compiled _ read parsed compiles named wrote =>
    rw [named] at wrote
    cases opening : compiled.openAnew (pageName source directory) with
    | ok opened =>
      exact ⟨_, _, _, _, opened, read, parsed, compiles, opening,
        .inr (congrArg (Outcome.written · _) named)⟩
    | error refusal =>
      rw [write_of_refused _ _ opening] at wrote
      cases wrote

theorem Conversion.not_opened {tree after compiled opened : FileTree} {source text page : List Char}
    {document : Document} (h : Conversion machine engine directory tree source .failed after)
    (read : tree.readText source = .ok text) (parsed : Document.parse text = .ok document)
    (compiles : Compiles machine.start engine tree document page compiled)
    (opening : compiled.openAnew (pageName source directory) = .ok opened) : False := by
  cases h with
  | unreadable unread =>
    rw [read] at unread
    cases unread
  | unparsable read' unparsed =>
    rw [read] at read'
    cases read'
    rw [parsed] at unparsed
    cases unparsed
  | unopened read' parsed' compiles' refused =>
    rw [read] at read'
    cases read'
    rw [parsed] at parsed'
    cases parsed'
    obtain ⟨-, rfl⟩ := compiles.deterministic compiles'
    rw [opening] at refused
    cases refused

theorem Conversion.deterministic {tree after after' : FileTree} {source : List Char}
    {outcome outcome' : Outcome} (h : Conversion machine engine directory tree source outcome after)
    (h' : Conversion machine engine directory tree source outcome' after') :
    outcome = outcome' ∧ after = after' := by
  have here : Conversion machine engine directory (⟨tree, "", ""⟩ : Desk).tree source outcome after := h
  have there :
      Conversion machine engine directory (⟨tree, "", ""⟩ : Desk).tree source outcome' after' := h'
  obtain ⟨desk, converted, left⟩ := here.convertFile
  obtain ⟨desk', converted', left'⟩ := there.convertFile
  -- The run of the program tells whether a page is written and what is left.
  rw [converted] at converted'
  have written : outcome.isWritten = outcome'.isWritten :=
    Except.ok.inj (congrArg Prod.fst converted')
  have same : desk = desk' := congrArg Prod.snd converted'
  refine ⟨?_, by rw [← left, ← left', same]⟩
  by_cases failed : outcome = .failed
  · subst failed
    by_contra other
    obtain ⟨_, _, _, _, _, read, parsed, compiles, opening, -⟩ := h'.opened (Ne.symm other)
    exact h.not_opened read parsed compiles opening
  · obtain ⟨_, _, _, _, _, read, parsed, compiles, opening, shape⟩ := h.opened failed
    by_cases failed' : outcome' = .failed
    · subst failed'
      exact (h'.not_opened read parsed compiles opening).elim
    · obtain ⟨_, _, _, _, _, read', parsed', compiles', -, shape'⟩ := h'.opened failed'
      rw [read] at read'
      cases read'
      rw [parsed] at parsed'
      cases parsed'
      obtain ⟨rfl, -⟩ := compiles.deterministic compiles'
      rcases shape with rfl | rfl
      · rcases shape' with rfl | rfl
        · rfl
        · cases written
      · rcases shape' with rfl | rfl
        · cases written
        · rfl

theorem Conversions.deterministic {tree last last' : FileTree} {sources : List (List Char)}
    {outcomes outcomes' : List Outcome}
    (h : Conversions machine engine directory tree sources outcomes last)
    (h' : Conversions machine engine directory tree sources outcomes' last') :
    outcomes = outcomes' ∧ last = last' := by
  induction h generalizing outcomes' with
  | nil => cases h'; exact ⟨rfl, rfl⟩
  | cons step _ ih =>
    cases h' with
    | cons step' steps' =>
      obtain ⟨rfl, rfl⟩ := step.deterministic step'
      obtain ⟨rfl, rfl⟩ := ih steps'
      exact ⟨rfl, rfl⟩

/-- The files whose pages are opened. -/
def kept (sources : List (List Char)) (outcomes : List Outcome) : List (List Char) :=
  ((sources.zip outcomes).filter (·.2 ≠ .failed)).map Prod.fst

def calm : Machine where
  start tree _ _ := (.ok ([], 0), tree)
  device := .boundless

def plainEngine : Engine := Engine.make plainTemplate [] [] false

section Harmless

variable (harmless : ∀ tree base command, (machine.start tree base command).2 = tree)
include harmless

theorem Compiles.unchanged {tree after : FileTree} {document : Document} {page : List Char}
    (h : Compiles machine.start engine tree document page after) : after = tree :=
  h.invariant (· = tree) rfl fun launch _ same =>
    (harmless launch.tree launch.base launch.command).trans same

theorem Conversion.unchanged {tree after : FileTree} {source : List Char}
    (h : Conversion machine engine directory tree source .failed after) : after = tree := by
  cases h with
  | unreadable => rfl
  | unparsable => rfl
  | unopened _ _ compiles _ _ => exact compiles.unchanged harmless

theorem Conversion.unfilled_only {tree after : FileTree} {source name : List Char}
    (h : Conversion machine engine directory tree source (.unfilled name) after) :
    name = pageName source directory ∧
      ∃ location page taken executable, tree.follow (.inside []) name = .ok (.inside location) ∧
        taken <+: Utf8.encode page ∧ after.entry? location = some (.file taken executable) ∧
        ∀ other ≠ location, after.entry? other = tree.entry? other := by
  cases h with
  | @unfilled text _ page document _ _ _ _ read parsed compiles named opening wrote =>
    cases compiles.unchanged harmless
    obtain ⟨location, executable, taken, opens, start, left, -⟩ :=
      write_of_openAnew machine.device page opening
    rw [wrote] at left
    change after = _ at left
    have below := ne_root_of_free opens.free
    refine ⟨named, location, page, taken, executable, opens.follows, start, ?_, fun other apart => ?_⟩
    · rw [left, entry?_put below, if_pos rfl]
    · rw [left, entry?_put below, if_neg (Ne.symm apart)]

theorem Conversions.without_failures {tree last : FileTree} {sources : List (List Char)}
    {outcomes : List Outcome} (h : Conversions machine engine directory tree sources outcomes last) :
    Conversions machine engine directory tree (kept sources outcomes)
      (outcomes.filter (· ≠ .failed)) last := by
  induction h with
  | nil tree => exact .nil tree
  | @cons tree middle last source rest outcome outcomes step _ ih =>
    by_cases failed : outcome = .failed
    · -- The next file finds the tree that the failing one found.
      subst failed
      rw [step.unchanged harmless] at ih
      exact ih
    · have shape : kept (source :: rest) (outcome :: outcomes) = source :: kept rest outcomes := by
        simp [kept, failed]
      rw [shape, List.filter_cons_of_pos (by simpa using failed)]
      exact .cons step ih

end Harmless

/-- Options that are refused together. -/
def Conflicting (options : Options) : Prop :=
  (options.all = true ∧ options.files ≠ []) ∨
    (options.dryRun ≠ none ∧ (options.all = true ∨ options.files ≠ [])) ∨
    (options.dryRun = none ∧ options.all = false ∧ options.files = [])

theorem conflict?_eq_none_iff (options : Options) : conflict? options = none ↔ ¬ Conflicting options := by
  obtain ⟨all, verbose, template, outputDirectory, dryRun, files⟩ := options
  cases all <;> cases dryRun <;> cases files <;> simp [conflict?, Conflicting]

theorem run_of_conflicting {tree : FileTree} {texts : List (List Char)} {options : Options}
    (read : Options.read texts = .ok options) (conflicting : Conflicting options) :
    ∃ desk, run machine tree texts = (.ok 2, desk) ∧ desk.tree = tree := by
  cases found : conflict? options with
  | none => exact absurd conflicting ((conflict?_eq_none_iff options).mp found)
  | some complaint =>
    simp only [run, read, found]
    exact ⟨_, rfl, rfl⟩

/-- The files that are to be converted, in their order. -/
def inputs (options : Options) (tree : FileTree) : List (List Char) :=
  if options.all then allSources tree else options.files

/-- The output directory has been made and the template been loaded. -/
structure Prepared (tree : FileTree) (options : Options) (directory : List Char) (made : FileTree)
    (engine : Engine) : Prop where
  named : options.outputDirectory = some directory
  ensured : tree.ensureDirectories directory = (.ok (), made)
  loaded : ∃ template desk, options.template = some template ∧
    loadTemplate ⟨made, "", ""⟩ template options.verbose = (.ok engine, desk)

theorem Prepared.unique {tree made made' : FileTree} {options : Options} {directory directory' : List Char}
    {engine engine' : Engine} (h : Prepared tree options directory made engine)
    (h' : Prepared tree options directory' made' engine') :
    directory = directory' ∧ made = made' ∧ engine = engine' := by
  obtain ⟨named, ensured, template, desk, chosen, loaded⟩ := h
  obtain ⟨named', ensured', template', desk', chosen', loaded'⟩ := h'
  rw [named] at named'
  cases named'
  rw [ensured] at ensured'
  cases ensured'
  rw [chosen] at chosen'
  cases chosen'
  rw [loaded] at loaded'
  cases loaded'
  exact ⟨rfl, rfl, rfl⟩

theorem tree_loadTemplate {desk desk' : Desk} {file : List Char} {verbose : Bool}
    {outcome : Except Crash Engine} (h : loadTemplate desk file verbose = (outcome, desk')) :
    desk'.tree = desk.tree := by
  unfold loadTemplate at h
  split at h
  · cases h; rfl
  · cases h; rfl
  · cases h; rfl

theorem conversions_of_convertInto {options : Options} {template : List Char} {desk desk' : Desk}
    {succeeded : Bool} (real : options.dryRun = none)
    (h : convertInto machine options template directory desk = (.ok succeeded, desk')) :
    ∃ engine loaded outcomes, loadTemplate desk template options.verbose = (.ok engine, loaded) ∧
      Conversions machine engine directory desk.tree (inputs options desk.tree) outcomes desk'.tree ∧
      succeeded = outcomes.all Outcome.isWritten := by
  unfold convertInto at h
  split at h
  · cases h
  · rename_i engine loaded template
    have same := tree_loadTemplate template
    rw [real] at h
    obtain ⟨outcomes, steps, exits⟩ := conversions_of_convertFiles h
    rw [same] at steps
    exact ⟨engine, loaded, outcomes, template, steps, exits⟩

theorem conversions_of_convert {options : Options} {tree : FileTree} {desk : Desk} {succeeded : Bool}
    (real : options.dryRun = none)
    (h : convert machine options ⟨tree, "", ""⟩ = (.ok succeeded, desk)) :
    (∃ directory refusal, options.outputDirectory = some directory ∧
      tree.ensureDirectories directory = (.error refusal, desk.tree) ∧ succeeded = false) ∨
    ∃ directory made engine outcomes, Prepared tree options directory made engine ∧
      Conversions machine engine directory made (inputs options made) outcomes desk.tree ∧
      succeeded = outcomes.all Outcome.isWritten := by
  unfold convert at h
  split at h
  · cases h
  · rename_i directory named
    split at h
    · cases h
    · rename_i refusal left _ refused
      cases h
      exact .inl ⟨directory, refusal, named, refused, rfl⟩
    · rename_i made ensured
      split at h
      · cases h
      · rename_i template chosen
        obtain ⟨engine, loaded, outcomes, prepared, steps, succeeds⟩ :=
          conversions_of_convertInto real h
        exact .inr ⟨directory, made, engine, outcomes,
          ⟨named, ensured, template, loaded, chosen, prepared⟩, steps, succeeds⟩

theorem conversions_of_run {tree : FileTree} {texts : List (List Char)} {options : Options}
    {status : Nat} {desk : Desk} (read : Options.read texts = .ok options)
    (agree : ¬ Conflicting options) (real : options.dryRun = none)
    (h : run machine tree texts = (.ok status, desk)) :
    (∃ directory refusal, options.outputDirectory = some directory ∧
      tree.ensureDirectories directory = (.error refusal, desk.tree) ∧ status = 1) ∨
    ∃ directory made engine outcomes, Prepared tree options directory made engine ∧
      Conversions machine engine directory made (inputs options made) outcomes desk.tree ∧
      status = exitStatus (outcomes.all Outcome.isWritten) := by
  rw [← conflict?_eq_none_iff] at agree
  simp only [run, read, agree] at h
  rcases ended : convert machine options ⟨tree, "", ""⟩ with ⟨outcome, last⟩
  rw [ended] at h
  cases outcome with
  | error crash => cases h
  | ok succeeded =>
    cases h
    rcases conversions_of_convert real ended with
      ⟨directory, refusal, named, refused, rfl⟩ |
      ⟨directory, made, engine, outcomes, prepared, steps, rfl⟩
    · exact .inl ⟨directory, refusal, named, refused, rfl⟩
    · exact .inr ⟨directory, made, engine, outcomes, prepared, steps, rfl⟩

theorem Conversions.run {tree made last : FileTree} {texts : List (List Char)} {options : Options}
    {outcomes : List Outcome} (read : Options.read texts = .ok options)
    (agree : ¬ Conflicting options) (real : options.dryRun = none)
    (prepared : Prepared tree options directory made engine)
    (h : Conversions machine engine directory made (inputs options made) outcomes last) :
    ∃ desk, run machine tree texts = (.ok (exitStatus (outcomes.all Outcome.isWritten)), desk) ∧
      desk.tree = last := by
  rw [← conflict?_eq_none_iff] at agree
  obtain ⟨named, ensured, template, desk, chosen, loaded⟩ := prepared
  have same : desk.tree = made := tree_loadTemplate loaded
  rw [← same] at h
  obtain ⟨desk', ended, final⟩ := h.convertFiles
  refine ⟨desk', ?_, final⟩
  have sources : (if options.all = true then allSources desk.tree else options.files) =
      inputs options desk.tree := rfl
  simp only [CommandLine.run, read, agree, convert, named, ensured, chosen, convertInto, loaded, real,
    sources, ended, Except.map]

theorem Conversions.run_kept (harmless : ∀ tree base command, (machine.start tree base command).2 = tree)
    {tree made last : FileTree} {texts sources : List (List Char)} {options : Options}
    {outcomes : List Outcome} (filled : kept sources outcomes ≠ [])
    (read : Options.read texts = .ok { options with all := false, files := kept sources outcomes })
    (real : options.dryRun = none) (prepared : Prepared tree options directory made engine)
    (h : Conversions machine engine directory made sources outcomes last) :
    ∃ desk, CommandLine.run machine tree texts =
        (.ok (exitStatus ((outcomes.filter (· ≠ .failed)).all Outcome.isWritten)), desk) ∧
      desk.tree = last := by
  have agree : ¬ Conflicting { options with all := false, files := kept sources outcomes } := by
    simp [Conflicting, real, filled]
  have prepared' : Prepared tree { options with all := false, files := kept sources outcomes } directory
      made engine := ⟨prepared.named, prepared.ensured, prepared.loaded⟩
  exact Conversions.run read agree real prepared' (h.without_failures harmless)

def runThenRead (machine : Machine) (tree : FileTree) (texts : List (List Char)) (path : List Char) :
    Except Crash Nat × Except ReadFailure (List Char) :=
  let (outcome, desk) := run machine tree texts
  (outcome, desk.tree.readText path)

theorem Conversions.runThenRead {tree made last : FileTree} {texts : List (List Char)}
    {options : Options} {outcomes : List Outcome} (read : Options.read texts = .ok options)
    (agree : ¬ Conflicting options) (real : options.dryRun = none)
    (prepared : Prepared tree options directory made engine)
    (h : Conversions machine engine directory made (inputs options made) outcomes last)
    (path : List Char) : runThenRead machine tree texts path =
      (.ok (exitStatus (outcomes.all Outcome.isWritten)), last.readText path) := by
  obtain ⟨desk, ran, rfl⟩ := Conversions.run read agree real prepared h
  rw [CommandLine.runThenRead, ran]

end BracketMarkup.CommandLine
