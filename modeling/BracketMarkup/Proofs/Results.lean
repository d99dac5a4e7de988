import BracketMarkup.Proofs.Passes
import BracketMarkup.Template.Engine

namespace BracketMarkup.Template

variable {σ α β : Type}

def Trace.extend (trace : Trace σ) (host : σ) (diagnostics : List Diagnostic) (printed : String) :
    Trace σ :=
  ⟨host, trace.diagnostics ++ diagnostics, trace.printed ++ printed⟩

theorem Trace.extend_extend (trace : Trace σ) (host after : σ)
    (diagnostics further : List Diagnostic) (printed more : String) :
    (trace.extend host diagnostics printed).extend after further more =
      trace.extend after (diagnostics ++ further) (printed ++ more) := by
  simp only [Trace.extend, List.append_assoc, String.append_assoc]

theorem Trace.extend_silent (trace : Trace σ) (host : σ) :
    trace.extend host [] "" = { trace with host } := by
  simp only [Trace.extend, List.append_nil, String.append_empty]

theorem run_bind_ok {expansion : Expansion σ α} {next : α → Expansion σ β} {trace after : Trace σ}
    {value : α} (h : expansion.run trace = (.ok value, after)) :
    (expansion >>= next).run trace = (next value).run after := by
  change (expansion.run >>= ExceptT.bindCont next) trace = _
  change ExceptT.bindCont next (expansion.run trace).1 (expansion.run trace).2 = _
  rw [h]
  rfl

theorem run_bind_error {expansion : Expansion σ α} {next : α → Expansion σ β}
    {trace after : Trace σ} {stop : Stop} (h : expansion.run trace = (.error stop, after)) :
    (expansion >>= next).run trace = (.error stop, after) := by
  change ExceptT.bindCont next (expansion.run trace).1 (expansion.run trace).2 = _
  rw [h]
  rfl

/-- An expansion that leaves the host alone and, whatever was done before, gives a value. -/
def Gives (expansion : Expansion σ α) (value : α) (diagnostics : List Diagnostic)
    (printed : String) : Prop :=
  ∀ trace : Trace σ,
    expansion.run trace = (.ok value, trace.extend trace.host diagnostics printed)

namespace Gives

theorem pure (value : α) : Gives (Pure.pure value : Expansion σ α) value [] "" := by
  intro trace
  rw [Trace.extend_silent]
  rfl

theorem reportAll (diagnostics : List Diagnostic) :
    Gives (Template.reportAll diagnostics : Expansion σ Unit) () diagnostics "" := by
  intro trace
  simp only [Trace.extend, String.append_empty]
  rfl

theorem report (diagnostic : Diagnostic) (value : α) :
    Gives (do Template.report diagnostic; return value : Expansion σ α) value [diagnostic] "" := by
  intro trace
  simp only [Trace.extend, String.append_empty]
  rfl

theorem print (text : String) : Gives (Template.print text : Expansion σ Unit) () [] text := by
  intro trace
  simp only [Trace.extend, List.append_nil]
  rfl

theorem bind {expansion : Expansion σ α} {next : α → Expansion σ β} {value : α} {result : β}
    {diagnostics further : List Diagnostic} {printed more : String}
    (first : Gives expansion value diagnostics printed)
    (later : Gives (next value) result further more) :
    Gives (expansion >>= next) result (diagnostics ++ further) (printed ++ more) := by
  intro trace
  rw [run_bind_ok (first trace), later, Trace.extend_extend]
  rfl

theorem bind_silent {expansion : Expansion σ α} {next : α → Expansion σ β} {value : α} {result : β}
    {diagnostics further : List Diagnostic} {printed : String}
    (first : Gives expansion value diagnostics "") (later : Gives (next value) result further printed) :
    Gives (expansion >>= next) result (diagnostics ++ further) printed := by
  have whole := first.bind later
  rwa [String.empty_append] at whole

theorem returning {expansion : Expansion σ α} {value : α} {diagnostics : List Diagnostic}
    {printed : String} (first : Gives expansion value diagnostics printed) (result : α → β) :
    Gives (do return result (← expansion)) (result value) diagnostics printed := by
  have whole : Gives (do return result (← expansion)) (result value) (diagnostics ++ [])
      (printed ++ "") := first.bind (Gives.pure (result value))
  rwa [List.append_nil, String.append_empty] at whole

theorem outcome {expansion : Expansion σ α} {value other : α} {diagnostics : List Diagnostic}
    {printed : String} (h : Gives expansion value diagnostics printed) {trace : Trace σ}
    {more : String} (same : expansion.run trace = (.ok other, trace.extend trace.host [] more)) :
    value = other ∧ diagnostics = [] := by
  rw [h trace] at same
  injection same with values traces
  injection values with values
  injection traces with _ reports _
  exact ⟨values, List.append_cancel_left reports⟩

end Gives

/-- An expansion that leaves the host alone and, whatever was done before, stops. -/
def Stops (expansion : Expansion σ α) (stop : Stop) (diagnostics : List Diagnostic) : Prop :=
  ∀ trace : Trace σ, expansion.run trace = (.error stop, trace.extend trace.host diagnostics "")

theorem Stops.throw (stop : Stop) :
    Stops (MonadExcept.throw stop : Expansion σ α) stop [] := by
  intro trace
  rw [Trace.extend_silent]
  rfl

theorem Stops.bind {expansion : Expansion σ α} {stop : Stop} {diagnostics : List Diagnostic}
    (h : Stops expansion stop diagnostics) (next : α → Expansion σ β) :
    Stops (expansion >>= next) stop diagnostics := by
  intro trace
  rw [run_bind_error (h trace)]

theorem Gives.bind_stops {expansion : Expansion σ α} {next : α → Expansion σ β} {value : α}
    {stop : Stop} {diagnostics further : List Diagnostic} (first : Gives expansion value diagnostics "")
    (later : Stops (next value) stop further) :
    Stops (expansion >>= next) stop (diagnostics ++ further) := by
  intro trace
  rw [run_bind_ok (first trace), later, Trace.extend_extend]
  rfl

theorem Gives.unchanged {trigger : Trigger}
    {evaluate : List Char → Expansion σ (Except Failure (List Char))} {text : List Char}
    (absent : ¬ trigger.text <:+: text) :
    Gives (replaceCalls trigger evaluate text) text [] "" := by
  rw [replaceCalls, replace_plain _ _ absent]
  exact Gives.pure text

def Engine.shown (engine : Engine) (name : String) (before after : List Char) : String :=
  if engine.verbose then showPass name before after else ""

theorem Gives.pass {engine : Engine} {name : String} {replace : List Char → Expansion σ (List Char)}
    {before after : List Char} {diagnostics : List Diagnostic}
    (h : Gives (replace before) after diagnostics "") :
    Gives (engine.pass name replace before) after diagnostics (engine.shown name before after) := by
  intro trace
  rw [Engine.pass, run_bind_ok (h trace), Engine.shown]
  cases engine.verbose with
  | true =>
    have shows : Gives (σ := σ) (do Template.print (showPass name before after); return after)
        after ([] ++ []) (showPass name before after ++ "") :=
      (Gives.print _).bind (Gives.pure after)
    refine (shows _).trans ?_
    simp only [Trace.extend, if_true, List.append_nil, String.append_empty]
  | false => rfl

def Engine.shownPasses (engine : Engine) (text inserted renamed chosen value : List Char) : String :=
  engine.shown "%forfiles" text text ++ (engine.shown "%\x7b...\x7d" text inserted ++
    (engine.shown "%run" inserted inserted ++ (engine.shown "%setext" inserted renamed ++
      (engine.shown "%alt" renamed chosen ++ engine.shown "%perc" chosen value))))

theorem Gives.expand {environment : Environment σ} {engine : Engine}
    {text inserted renamed chosen value : List Char} {first second : List Diagnostic}
    (noLoop : ¬ forfilesTrigger.text <:+: text)
    (references : replaceVariables (σ := σ) engine.bindings text = Pure.pure inserted)
    (noRun : ¬ runTrigger.text <:+: inserted)
    (names : Gives (σ := σ) (replaceCalls setextTrigger
      (fun arguments => return replaceExtension arguments) inserted) renamed first "")
    (choices : Gives (σ := σ) (replaceCalls altTrigger
      (fun arguments => return .ok (firstAlternative arguments)) renamed) chosen second "")
    (signs : (plainWord percTrigger).replace (σ := σ) (fun _ => return ['%']) chosen =
      Pure.pure value) :
    Gives (engine.expand environment text) value (first ++ second)
      (engine.shownPasses text inserted renamed chosen value) := by
  have loops : Gives (replaceBlocks forfilesTrigger
      (evaluateLoop environment engine.base engine.bindings) text) text [] "" := by
    rw [replaceBlocks, replace_plain _ _ noLoop]
    exact Gives.pure text
  have inserts : Gives (replaceVariables (σ := σ) engine.bindings text) inserted [] "" := by
    rw [references]
    exact Gives.pure inserted
  have runs : ∀ expandWord, Gives (replaceCalls runTrigger
      (evaluateRun environment engine.base expandWord) inserted) inserted [] "" :=
    fun _ => Gives.unchanged noRun
  have percents : Gives ((plainWord percTrigger).replace (σ := σ) (fun _ => return ['%']) chosen)
      value [] "" := by
    rw [signs]
    exact Gives.pure value
  have all : Gives (engine.expandWithin environment (999 + 1) text) value
      ([] ++ ([] ++ ([] ++ (first ++ (second ++ [])))))
      (engine.shownPasses text inserted renamed chosen value) := by
    refine (Gives.pass loops).bind ((Gives.pass inserts).bind ?_)
    refine (Gives.pass (runs _)).bind ((Gives.pass names).bind ?_)
    exact (Gives.pass choices).bind (Gives.pass percents)
  simp only [List.append_nil, List.nil_append] at all
  exact all

end BracketMarkup.Template
