import BracketMarkup.Proofs.Nesting

namespace BracketMarkup

namespace Template

variable {σ τ α β : Type}

/-- Related hosts of two environments answer alike, and stay related whatever program is started on
    both. -/
structure AnswerAlike (here : Environment σ) (there : Environment τ) (related : σ → τ → Prop) :
    Prop where
  list : ∀ host other, related host other → here.list host = there.list other
  fileBindings : ∀ host other, related host other →
    here.fileBindings host = there.fileBindings other
  start : ∀ host other, related host other → ∀ base command,
    (here.start host base command).1 = (there.start other base command).1 ∧
      related (here.start host base command).2 (there.start other base command).2

/-- Two expansions that do the same on related hosts, whatever their traces hold so far. -/
def Alike (related : σ → τ → Prop) (here : Expansion σ α) (there : Expansion τ α) : Prop :=
  ∀ (trace : Trace σ) (other : Trace τ), related trace.host other.host →
    ∃ outcome host host' diagnostics printed, related host host' ∧
      here.run trace = (outcome, trace.extend host diagnostics printed) ∧
      there.run other = (outcome, other.extend host' diagnostics printed)

section Alike

variable {related : σ → τ → Prop}

namespace Alike

theorem returns (result : Except Stop α) :
    Alike related (ExceptT.mk (pure result) : Expansion σ α) (ExceptT.mk (pure result)) := by
  intro trace other hosts
  refine ⟨result, trace.host, other.host, [], "", hosts, ?_, ?_⟩
  · rw [Trace.extend_silent]
    rfl
  · rw [Trace.extend_silent]
    rfl

theorem pure (value : α) : Alike related (Pure.pure value : Expansion σ α) (Pure.pure value) :=
  returns (.ok value)

theorem throw (stop : Stop) :
    Alike related (MonadExcept.throw stop : Expansion σ α) (MonadExcept.throw stop) :=
  returns (.error stop)

theorem reportAll (diagnostics : List Diagnostic) :
    Alike related (reportAll diagnostics : Expansion σ Unit) (Template.reportAll diagnostics) := by
  intro trace other hosts
  exact ⟨.ok (), trace.host, other.host, diagnostics, "", hosts, Gives.reportAll diagnostics trace,
    Gives.reportAll diagnostics other⟩

theorem report (diagnostic : Diagnostic) :
    Alike related (report diagnostic : Expansion σ Unit) (Template.report diagnostic) :=
  reportAll [diagnostic]

theorem print (text : String) :
    Alike related (print text : Expansion σ Unit) (Template.print text) := by
  intro trace other hosts
  exact ⟨.ok (), trace.host, other.host, [], text, hosts, Gives.print text trace,
    Gives.print text other⟩

theorem bind {here : Expansion σ α} {there : Expansion τ α} {next : α → Expansion σ β}
    {next' : α → Expansion τ β} (first : Alike related here there)
    (later : ∀ value, Alike related (next value) (next' value)) :
    Alike related (here >>= next) (there >>= next') := by
  intro trace other hosts
  obtain ⟨outcome, host, host', diagnostics, printed, middle, ran, ran'⟩ := first trace other hosts
  cases outcome with
  | error stop =>
    exact ⟨.error stop, host, host', diagnostics, printed, middle, run_bind_error ran,
      run_bind_error ran'⟩
  | ok value =>
    obtain ⟨outcome, after, after', further, more, last, goesOn, goesOn'⟩ :=
      later value (trace.extend host diagnostics printed)
        (other.extend host' diagnostics printed) middle
    rw [Trace.extend_extend] at goesOn goesOn'
    refine ⟨outcome, after, after', diagnostics ++ further, printed ++ more, last, ?_, ?_⟩
    · rw [run_bind_ok ran, goesOn]
    · rw [run_bind_ok ran', goesOn']

theorem mapM {next : α → Expansion σ β} {next' : α → Expansion τ β}
    (each : ∀ item, Alike related (next item) (next' item)) (items : List α) :
    Alike related (items.mapM next) (items.mapM next') := by
  induction items with
  | nil => exact pure []
  | cons item rest ih =>
    rw [List.mapM_cons, List.mapM_cons]
    exact (each item).bind fun value => ih.bind fun values => pure (value :: values)

theorem ask {next : Trace σ → Expansion σ α} {next' : Trace τ → Expansion τ α}
    (later : ∀ trace other, related trace.host other.host → Alike related (next trace) (next' other)) :
    Alike related (get >>= next) (get >>= next') := by
  intro trace other hosts
  exact later trace other hosts trace other hosts

theorem replace {κ : Type} (construct : Construct κ) {evaluate : κ → Expansion σ (List Char)}
    {evaluate' : κ → Expansion τ (List Char)}
    (values : ∀ call, Alike related (evaluate call) (evaluate' call)) (text : List Char) :
    Alike related (construct.replace evaluate text) (construct.replace evaluate' text) := by
  have pieces : ∀ piece,
      Alike related (construct.value evaluate piece) (construct.value evaluate' piece) := by
    intro piece
    cases piece with
    | literal c => exact pure [c]
    | malformed problem => exact (report problem).bind fun _ => pure _
    | call call => exact values call
  exact (mapM pieces _).bind fun values => pure values.flatten

theorem replaceVariables (bindings : Bindings) (text : List Char) :
    Alike related (replaceVariables bindings text : Expansion σ (List Char))
      (Template.replaceVariables bindings text) := by
  refine replace _ (fun name => ?_) text
  cases bindings.value? name with
  | some value => exact pure value
  | none => exact (report _).bind fun _ => pure []

theorem valueOf (problem : Failure → Diagnostic)
    {here : Expansion σ (Except Failure (List Char))} {there : Expansion τ (Except Failure (List Char))}
    (same : Alike related here there) :
    Alike related (valueOf problem here) (Template.valueOf problem there) := by
  refine same.bind fun value => ?_
  cases value with
  | ok value => exact pure value
  | error failure => exact (report _).bind fun _ => pure []

theorem replaceCalls (trigger : Trigger)
    {evaluate : List Char → Expansion σ (Except Failure (List Char))}
    {evaluate' : List Char → Expansion τ (Except Failure (List Char))}
    (values : ∀ arguments, Alike related (evaluate arguments) (evaluate' arguments))
    (text : List Char) :
    Alike related (replaceCalls trigger evaluate text) (Template.replaceCalls trigger evaluate' text) :=
  replace (inlineCall trigger) (fun arguments => valueOf _ (values arguments)) text

theorem replaceBlocks (trigger : Trigger)
    {evaluate : Block → Expansion σ (Except Failure (List Char))}
    {evaluate' : Block → Expansion τ (Except Failure (List Char))}
    (values : ∀ block, Alike related (evaluate block) (evaluate' block)) (text : List Char) :
    Alike related (replaceBlocks trigger evaluate text)
      (Template.replaceBlocks trigger evaluate' text) :=
  replace (blockCall trigger) (fun block => valueOf _ (values block)) text

theorem sort (loop : Loop) (entries : List (Bindings × List Char)) :
    Alike related (loop.sort entries : Expansion σ (List (Bindings × List Char)))
      (loop.sort entries) := by
  unfold Loop.sort
  cases loop.sortKey with
  | none => exact pure entries
  | some sortKey =>
    refine (mapM (fun entry => ?_) entries).bind fun keyed => pure _
    exact (replaceVariables entry.1 sortKey).bind fun key => pure (key, entry)

theorem pass (engine : Engine) (name : String) {replace : List Char → Expansion σ (List Char)}
    {replace' : List Char → Expansion τ (List Char)}
    (same : ∀ text, Alike related (replace text) (replace' text)) (text : List Char) :
    Alike related (engine.pass name replace text) (engine.pass name replace' text) := by
  unfold Engine.pass
  refine (same text).bind fun after => ?_
  cases engine.verbose with
  | true => exact (print _).bind fun _ => pure after
  | false => exact (pure ()).bind fun _ => pure after

theorem buildNodes (depth : Nat) (nodes : List Node) :
    Alike related (Html.buildNodes depth nodes : Expansion σ (List Html))
      (Html.buildNodes depth nodes) := by
  induction nodes using Html.nodes_induction generalizing depth with
  | nil => exact pure []
  | text content rest ih =>
    rw [Html.buildNodes_text, Html.buildNodes_text, map_eq_pure_bind, map_eq_pure_bind]
    exact (ih depth).bind fun following => pure _
  | call head arguments rest inner ih =>
    cases dropped : Html.isDropped head with
    | true =>
      rw [Html.buildNodes_dropped dropped, Html.buildNodes_dropped dropped]
      exact ih depth
    | false =>
      cases depth with
      | zero =>
        rw [Html.buildNodes_too_deep dropped, Html.buildNodes_too_deep dropped]
        exact (throw _).bind fun html => (ih 0).bind fun following => pure _
      | succ depth =>
        rw [Html.buildNodes_kept dropped, Html.buildNodes_kept dropped]
        refine (inner depth).bind fun children => (reportAll _).bind fun _ => ?_
        exact (ih (depth + 1)).bind fun following => pure _

theorem content (nodes : List Node) :
    Alike related (Page.content nodes : Expansion σ (List Char)) (Page.content nodes) :=
  (buildNodes _ nodes).bind fun _ => pure _

section Environment

variable {here : Environment σ} {there : Environment τ} (alike : AnswerAlike here there related)
include alike

theorem expandEntry (loop : Loop) (bindings : Bindings) (directory body name : List Char) :
    Alike related (loop.expandEntry here bindings directory body name)
      (loop.expandEntry there bindings directory body name) := by
  refine ask fun trace other hosts => ?_
  rw [alike.fileBindings _ _ hosts]
  cases there.fileBindings other.host (Path.join directory name) with
  | error reason => exact (report _).bind fun _ => pure none
  | ok fileBindings =>
    exact (replaceVariables _ body).bind fun expanded => pure (some (_, expanded))

theorem evaluateLoop (base : List Char) (bindings : Bindings) (block : Block) :
    Alike related (evaluateLoop here base bindings block)
      (Template.evaluateLoop there base bindings block) := by
  unfold Template.evaluateLoop
  rcases Loop.read block.arguments with ⟨loop, problems⟩
  refine (reportAll problems).bind fun _ => ?_
  cases loop.directory with
  | none => exact pure _
  | some directory =>
    refine ask fun trace other hosts => ?_
    rw [alike.list _ _ hosts]
    rcases there.list other.host (Path.join base directory) with (_ | reason) | names
    · exact throw _
    · exact pure _
    · refine (mapM (fun name => expandEntry alike _ _ _ _ name) _).bind fun entries => ?_
      exact (sort _ _).bind fun sorted => pure _

theorem startProgram (base : List Char) (command : List (List Char)) :
    Alike related (startProgram here base command) (Template.startProgram there base command) := by
  intro trace other hosts
  obtain ⟨answer, started⟩ := alike.start trace.host other.host hosts base command
  refine ⟨.ok (here.start trace.host base command).1, (here.start trace.host base command).2,
    (there.start other.host base command).2, [], "", started, ?_, ?_⟩
  · rw [Trace.extend_silent]
    rfl
  · rw [answer, Trace.extend_silent]
    rfl

theorem evaluateRun (base : List Char) {expandWord : List Char → Expansion σ (List Char)}
    {expandWord' : List Char → Expansion τ (List Char)}
    (words : ∀ word, Alike related (expandWord word) (expandWord' word)) (arguments : List Char) :
    Alike related (evaluateRun here base expandWord arguments)
      (Template.evaluateRun there base expandWord' arguments) := by
  unfold Template.evaluateRun
  cases splitWords arguments with
  | nil => exact pure _
  | cons word more =>
    refine (words word).bind fun program => (mapM words more).bind fun following => ?_
    refine (startProgram alike base (program :: following)).bind fun outcome => ?_
    cases outcome with
    | error reason => exact pure _
    | ok result =>
      obtain ⟨output, status⟩ := result
      by_cases failed : status ≠ 0
      · simp only [if_pos failed]
        exact (report _).bind fun _ => pure _
      · simp only [if_neg failed]
        exact (pure ()).bind fun _ => pure _

theorem expandWithin (engine : Engine) (depth : Nat) (text : List Char) :
    Alike related (engine.expandWithin here depth text) (engine.expandWithin there depth text) := by
  induction depth generalizing text with
  | zero => exact throw _
  | succ depth ih =>
    refine (pass engine _ (replaceBlocks _
      (evaluateLoop alike engine.base engine.bindings)) text).bind fun text => ?_
    refine (pass engine _ (replaceVariables engine.bindings) text).bind fun text => ?_
    refine (pass engine _ (replaceCalls _ (evaluateRun alike engine.base ih)) text).bind fun text => ?_
    refine (pass engine _ (replaceCalls _ fun _ => pure _) text).bind fun text => ?_
    refine (pass engine _ (replaceCalls _ fun _ => pure _) text).bind fun text => ?_
    exact pass engine _ (replace _ fun _ => pure _) text

theorem compile (engine : Engine) (base : Bindings) (document : Document) :
    Alike related (Page.compile here engine base document) (Page.compile there engine base document) :=
  (content document.nodes).bind fun _ => expandWithin alike _ _ _

end Environment

end Alike

end Alike

end Template

end BracketMarkup
