import BracketMarkup.Proofs.Alike
import BracketMarkup.Session

namespace BracketMarkup

open Template

variable {σ : Type}

/-- An engine, the variables that each backend over it remembers, and the trace of what was done. -/
structure Workbench (σ : Type) where
  engine : Engine
  backends : List Bindings
  trace : Trace σ

/-- What can be done with an engine and the backends over it, which are counted as they were made.
    Templates may be run with any way to look file variables up. -/
inductive Operation (σ : Type) where
  | construct
  | run (lookup : Environment σ)
  | expand (lookup : Environment σ) (text : List Char)
  | set (name value : List Char)
  | unset (name : List Char)
  | render (document : Document)
  | compile (backend : Nat) (document : Document)
  | convert (source : List Char)
  | compileEmpty

namespace Workbench

def start (engine : Engine) (host : σ) : Workbench σ := ⟨engine, [], ⟨host, [], ""⟩⟩

def session (bench : Workbench σ) (remembered : Bindings) : Session σ :=
  ⟨bench.engine, remembered, bench.trace⟩

def resume (bench : Workbench σ) (outcome : Answer × Session σ) : Answer × Workbench σ :=
  (outcome.1, { bench with engine := outcome.2.engine, trace := outcome.2.trace })

/-- Does one operation. With a backend that was never made there is nothing to do. -/
def act (files : Environment σ) (bench : Workbench σ) : Operation σ → Answer × Workbench σ
  | .construct =>
    let (answer, session) := (bench.session []).act files files .renew
    (answer, { bench with backends := bench.backends ++ [session.remembered] })
  | .run lookup => bench.resume ((bench.session []).act lookup files .run)
  | .expand lookup text => bench.resume ((bench.session []).act lookup files (.expand text))
  | .set name value => bench.resume ((bench.session []).act files files (.set name value))
  | .unset name => bench.resume ((bench.session []).act files files (.unset name))
  | .render document => bench.resume ((bench.session []).perform (Page.content document.nodes) .text)
  | .compile backend document =>
    match bench.backends[backend]? with
    | some remembered =>
      bench.resume ((bench.session remembered).act files files (.compile document))
    | none => (.done, bench)
  | .convert source => bench.resume ((bench.session []).act files files (.convert source))
  | .compileEmpty => bench.resume ((bench.session []).act files files .compileEmpty)

def after (files : Environment σ) (bench : Workbench σ) (history : List (Operation σ)) :
    Workbench σ :=
  history.foldl (fun bench operation => (bench.act files operation).2) bench

structure Precedes (bench later : Workbench σ) : Prop where
  engine : ∃ bindings, later.engine = { bench.engine with bindings }
  backends : bench.backends <+: later.backends

theorem Precedes.refl (bench : Workbench σ) : bench.Precedes bench :=
  ⟨⟨bench.engine.bindings, rfl⟩, List.prefix_refl _⟩

theorem Precedes.trans {bench middle later : Workbench σ} (first : bench.Precedes middle)
    (second : middle.Precedes later) : bench.Precedes later := by
  obtain ⟨bindings, changed⟩ := first.engine
  obtain ⟨further, changedAgain⟩ := second.engine
  refine ⟨⟨further, ?_⟩, first.backends.trans second.backends⟩
  rw [changedAgain, changed]

section

variable {files : Environment σ} {related : σ → σ → Prop} (alike : AnswerAlike files files related)
include alike

end

def nested : Nat → List Node
  | 0 => [.text ['x']]
  | n + 1 => [.call ⟨none, ['p'], []⟩ (nested n)]

end Workbench

end BracketMarkup
