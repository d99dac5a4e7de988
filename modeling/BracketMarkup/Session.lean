import BracketMarkup.Page

namespace BracketMarkup

open Template

inductive Action where
  | run
  | expand (text : List Char)
  | set (name value : List Char)
  | unset (name : List Char)
  | warn (message : List Char)
  | clear
  | count
  | renew
  | emitText (content : List Char)
  | runCommand (head : Head) (arguments : List Node)
  | handleNode (node : Node)
  | renderText (source : List Char)
  | compileText (source : List Char)
  | compile (document : Document)
  | convert (source : List Char)
  | compileEmpty

inductive Answer where
  | done
  | text (content : List Char)
  | number (n : Nat)
  | html (html : Option Html)
  | unparsable (fault : ParseError)
  | stopped (stop : Stop)
  | unbound (name : List Char)

/-- An engine, the variables that the backend over it remembers, and the trace of what was done. -/
structure Session (σ : Type) where
  engine : Engine
  remembered : Bindings
  trace : Trace σ

namespace Session

variable {σ : Type}

def start (engine : Engine) (host : σ) : Session σ := ⟨engine, engine.bindings, ⟨host, [], ""⟩⟩

def perform {α : Type} (session : Session σ) (expansion : Expansion σ α) (answer : α → Answer) :
    Answer × Session σ :=
  match expansion.run session.trace with
  | (.ok value, trace) => (answer value, { session with trace })
  | (.error stop, trace) => (.stopped stop, { session with trace })

def parsed (session : Session σ) (source : List Char) (use : Document → Answer × Session σ) :
    Answer × Session σ :=
  match Document.parse source with
  | .ok document => use document
  | .error fault => (.unparsable fault, session)

/-- Compiles a document with a backend that remembers the variables `base`. While the template is
    expanded, the engine has the document's variables; afterwards, also if that stops, those that the
    backend remembers. If the content cannot be finished, the variables are not touched at all. -/
def compileWith (environment : Environment σ) (base : Bindings) (session : Session σ)
    (document : Document) : Answer × Session σ :=
  match (Page.content document.nodes).run session.trace with
  | (.error stop, trace) => (.stopped stop, { session with trace })
  | (.ok content, trace) =>
    let (answer, session) := { session with trace }.perform
      (Page.fill environment session.engine base document.metadata content) .text
    (answer, { session with engine.bindings := base })

/-- Does what is asked. Expansions of the template take file variables from `lookup`, compiled pages
    from `files`. -/
def act (lookup files : Environment σ) (session : Session σ) : Action → Answer × Session σ
  | .run => session.perform (session.engine.run lookup) .text
  | .expand text => session.perform (session.engine.expand lookup text) .text
  | .set name value =>
    (.done, { session with engine.bindings := Bindings.assign name value session.engine.bindings })
  | .unset name =>
    match session.engine.bindings.value? name with
    | some _ => (.done, { session with engine.bindings := session.engine.bindings.forget name })
    | none => (.unbound name, session)
  | .warn message => session.perform (report (.note message)) fun _ => .done
  | .clear => (.done, { session with trace.diagnostics := [] })
  | .count => (.number session.trace.diagnostics.length, session)
  | .renew => (.done, { session with remembered := session.engine.bindings })
  | .emitText content => (.html (some (Html.ofText content)), session)
  | .runCommand head arguments =>
    session.perform (Html.buildCommand Html.nestingLimit head arguments) .html
  | .handleNode node => session.perform (Html.buildNode Html.nestingLimit node) .html
  | .renderText source => session.parsed source fun document =>
    session.perform (Page.content document.nodes) .text
  | .compileText source => session.parsed source (session.compileWith files session.remembered)
  | .compile document => session.compileWith files session.remembered document
  | .convert source => session.parsed source (session.compileWith files session.engine.bindings)
  | .compileEmpty => session.compileWith files session.engine.bindings ⟨[], []⟩

structure Shown where
  warnings : List Diagnostic
  printed : String

/-- Does what is asked as a step of its own. Without a collector the diagnostics of a step are shown
    and forgotten. -/
def step (lookup files : Environment σ) (collecting : Bool) (session : Session σ) (action : Action) :
    Answer × Shown × Session σ :=
  let (answer, after) := { session with trace.printed := "" }.act lookup files action
  if collecting then (answer, ⟨[], after.trace.printed⟩, after)
  else (answer, ⟨after.trace.diagnostics, after.trace.printed⟩,
    { after with trace.diagnostics := [] })

end Session

end BracketMarkup
