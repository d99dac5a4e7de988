import BracketMarkup.CommandLine.Convert
import BracketMarkup.Proofs.Alike

namespace BracketMarkup.CommandLine

open Host Template

/-- A program that is started: what it finds, its directory and the words of its command line. -/
structure Launch where
  tree : FileTree
  base : List Char
  command : List (List Char)

def Launch.result (start : Starter) (launch : Launch) : FileTree :=
  (start launch.tree launch.base launch.command).2

/-- The surroundings with a record of the programs that are started. -/
def watched (start : Starter) : Environment (FileTree × List Launch) where
  list host := (surroundings start).list host.1
  fileBindings host := (surroundings start).fileBindings host.1
  start host base command :=
    ((start host.1 base command).1, (start host.1 base command).2, host.2 ++ [⟨host.1, base, command⟩])

def launches (start : Starter) (engine : Engine) (tree : FileTree) (document : Document) : List Launch :=
  ((Page.compile (watched start) engine engine.bindings document).run ⟨(tree, []), [], ""⟩).2.host.2

def sourceLaunches (start : Starter) (engine : Engine) (tree : FileTree) (source : List Char) :
    List Launch :=
  match tree.readText source with
  | .error _ => []
  | .ok text =>
    match Document.parse text with
    | .error _ => []
    | .ok document => launches start engine tree document

/-- The programs that are started when files are converted one after the other. -/
def allLaunches (machine : Machine) (engine : Engine) (directory : List Char) (tree : FileTree) :
    List (List Char) → List Launch
  | [] => []
  | source :: rest =>
    let after := (convertFile machine engine directory ⟨tree, "", ""⟩ source).2.tree
    sourceLaunches machine.start engine tree source ++ allLaunches machine engine directory after rest

/-- The page for a document, and the tree that the programs started for it leave. -/
def Compiles (start : Starter) (engine : Engine) (tree : FileTree) (document : Document)
    (page : List Char) (after : FileTree) : Prop :=
  ∃ diagnostics printed,
    (Page.compile (surroundings start) engine engine.bindings document).run ⟨tree, [], ""⟩ =
      (.ok page, ⟨after, diagnostics, printed⟩)

theorem watched_alike (start : Starter) (holds : FileTree → Prop) :
    AnswerAlike (surroundings start) (watched start) fun host other => host = other.1 ∧
      ((∀ launch ∈ other.2, holds launch.tree → holds (launch.result start)) → holds host) := by
  constructor
  · intro host other same
    rw [same.1]
    rfl
  · intro host other same
    rw [same.1]
    rfl
  · intro host other same base command
    obtain ⟨rfl, kept⟩ := same
    constructor
    · rfl
    · refine ⟨rfl, ?_⟩
      intro keep
      have before : holds other.1 := by
        apply kept
        intro launch member
        exact keep launch (List.mem_append_left _ member)
      exact keep ⟨other.1, base, command⟩ (by simp [watched]) before

variable {start : Starter} {engine : Engine} {tree after : FileTree} {document : Document}
  {page : List Char}

/-- A property of trees that the programs started for a document keep is kept by its compilation. -/
theorem Compiles.invariant (h : Compiles start engine tree document page after)
    (holds : FileTree → Prop) (before : holds tree)
    (keep : ∀ launch ∈ launches start engine tree document,
      holds launch.tree → holds (launch.result start)) : holds after := by
  obtain ⟨diagnostics, printed, run⟩ := h
  obtain ⟨outcome, host, host', further, more, ⟨-, kept⟩, here, there⟩ :=
    Alike.compile (watched_alike start holds) engine engine.bindings document ⟨tree, [], ""⟩
      ⟨(tree, []), [], ""⟩ ⟨rfl, fun _ => before⟩
  rw [launches, there] at keep
  rw [run] at here
  cases here
  exact kept keep

theorem compiles_of_run
    (done : ((Page.compile (surroundings start) engine engine.bindings document).run ⟨tree, [], ""⟩).1 =
      .ok page)
    (left : ((Page.compile (surroundings start) engine engine.bindings document).run
      ⟨tree, [], ""⟩).2.host = after) : Compiles start engine tree document page after := by
  subst left
  exact ⟨_, _, Prod.ext done rfl⟩

theorem Compiles.deterministic {page' : List Char} {after' : FileTree}
    (h : Compiles start engine tree document page after)
    (h' : Compiles start engine tree document page' after') : page = page' ∧ after = after' := by
  obtain ⟨diagnostics, printed, run⟩ := h
  obtain ⟨diagnostics', printed', run'⟩ := h'
  rw [run] at run'
  cases run'
  exact ⟨rfl, rfl⟩

@[simp] theorem tree_complain (desk : Desk) (line : String) : (desk.complain line).tree = desk.tree := rfl

theorem tree_complainAll (diagnostics : List Diagnostic) (desk : Desk) :
    (diagnostics.foldl (fun desk diagnostic => desk.complain diagnostic.line) desk).tree = desk.tree := by
  induction diagnostics generalizing desk with
  | nil => rfl
  | cons diagnostic rest ih => rw [List.foldl_cons, ih, tree_complain]

theorem compileDocument_ok_iff {machine : Machine} {desk : Desk} :
    (∃ desk', compileDocument machine engine desk document = (.ok page, desk') ∧ desk'.tree = after) ↔
      Compiles machine.start engine desk.tree document page after := by
  rcases run : (Page.compile (surroundings machine.start) engine engine.bindings document).run
    ⟨desk.tree, [], ""⟩ with ⟨outcome, trace⟩
  rw [Compiles, compileDocument, run]
  constructor
  · rintro ⟨desk', compiled, rfl⟩
    cases outcome with
    | error stop => cases compiled
    | ok value =>
      cases compiled
      exact ⟨trace.diagnostics, trace.printed, by rw [tree_complainAll]⟩
  · rintro ⟨diagnostics, printed, same⟩
    cases same
    exact ⟨_, rfl, tree_complainAll _ _⟩

end BracketMarkup.CommandLine
