import BracketMarkup.Proofs.Extracts
import BracketMarkup.Proofs.NormalForm
import BracketMarkup.Proofs.Results

namespace BracketMarkup.Template

variable {σ α β : Type}

/-- The first pass over a text. -/
def Engine.openLoops (environment : Environment σ) (engine : Engine) :
    List Char → Expansion σ (List Char) :=
  engine.pass "%forfiles" (replaceBlocks forfilesTrigger
    (evaluateLoop environment engine.base engine.bindings))

def Engine.expandInserted (environment : Environment σ) (engine : Engine)
    (expandWord : List Char → Expansion σ (List Char)) (text : List Char) :
    Expansion σ (List Char) := do
  let text ← engine.pass "%run" (replaceCalls runTrigger
    (evaluateRun environment engine.base expandWord)) text
  let text ← engine.pass "%setext" (replaceCalls setextTrigger
    fun arguments => return replaceExtension arguments) text
  let text ← engine.pass "%alt" (replaceCalls altTrigger
    fun arguments => return .ok (firstAlternative arguments)) text
  engine.pass "%perc" ((plainWord percTrigger).replace fun _ => return ['%']) text

def Engine.expandOpened (environment : Environment σ) (engine : Engine)
    (expandWord : List Char → Expansion σ (List Char)) (text : List Char) :
    Expansion σ (List Char) :=
  engine.pass "%\x7b...\x7d" (replaceVariables engine.bindings) text >>=
    engine.expandInserted environment expandWord

theorem expandWithin_succ (environment : Environment σ) (engine : Engine) (depth : Nat)
    (text : List Char) : engine.expandWithin environment (depth + 1) text =
      engine.openLoops environment text >>=
        engine.expandOpened environment (engine.expandWithin environment depth) := rfl

/-- Whatever was done before, an expansion gives a good value or stops for an allowed reason. -/
def Yields (allowed : Stop → Prop) (good : α → Prop) (expansion : Expansion σ α) : Prop :=
  ∀ trace : Trace σ, match (expansion.run trace).1 with
    | .ok value => good value
    | .error stop => allowed stop

namespace Yields

variable {allowed : Stop → Prop} {good : α → Prop} {fine : β → Prop}

theorem pure {value : α} (h : good value) : Yields allowed good (Pure.pure value : Expansion σ α) :=
  fun _ => h

theorem throw {stop : Stop} (h : allowed stop) :
    Yields allowed good (MonadExcept.throw stop : Expansion σ α) :=
  fun _ => h

theorem reportAll (diagnostics : List Diagnostic) :
    Yields allowed (fun _ => True) (Template.reportAll diagnostics : Expansion σ Unit) :=
  fun _ => trivial

theorem report (diagnostic : Diagnostic) :
    Yields allowed (fun _ => True) (Template.report diagnostic : Expansion σ Unit) :=
  fun _ => trivial

theorem print (text : String) :
    Yields allowed (fun _ => True) (Template.print text : Expansion σ Unit) :=
  fun _ => trivial

theorem stop {expansion : Expansion σ α} (h : Yields allowed good expansion) {trace : Trace σ}
    {stop : Stop} (stopped : (expansion.run trace).1 = .error stop) : allowed stop := by
  have outcome := h trace
  rwa [stopped] at outcome

theorem bind {expansion : Expansion σ α} {next : α → Expansion σ β}
    (first : Yields allowed good expansion)
    (later : ∀ value, good value → Yields allowed fine (next value)) :
    Yields allowed fine (expansion >>= next) := by
  intro trace
  have start := first trace
  rcases run : expansion.run trace with ⟨outcome, after⟩
  rw [run] at start
  cases outcome with
  | error stop =>
    rw [run_bind_error run]
    exact start
  | ok value =>
    rw [run_bind_ok run]
    exact later value start after

theorem never {expansion : Expansion σ α} {next : α → Expansion σ β}
    (h : Yields allowed (fun _ => False) expansion) : Yields allowed fine (expansion >>= next) :=
  h.bind fun _ absurd => absurd.elim

theorem ask {next : Trace σ → Expansion σ α} (later : ∀ trace, Yields allowed good (next trace)) :
    Yields allowed good (get >>= next) :=
  fun trace => later trace trace

theorem mono {fair : α → Prop} {expansion : Expansion σ α} (h : Yields allowed good expansion)
    (weaker : ∀ value, good value → fair value) : Yields allowed fair expansion := by
  intro trace
  have start := h trace
  rcases run : (expansion.run trace).1 with stop | value
  · rw [run] at start
    exact start
  · rw [run] at start
    exact weaker value start

theorem mapM {items : List α} {next : α → Expansion σ β}
    (each : ∀ item ∈ items, Yields allowed fine (next item)) :
    Yields allowed (fun values => ∀ value ∈ values, fine value) (items.mapM next) := by
  induction items with
  | nil => exact pure (by simp)
  | cons item rest ih =>
    rw [List.mapM_cons]
    refine (each item (by simp)).bind fun value first => ?_
    refine (ih fun other member => each other (List.mem_cons_of_mem _ member)).bind fun values later => ?_
    refine pure fun other member => ?_
    rcases List.mem_cons.mp member with rfl | member
    · exact first
    · exact later other member

section Replace

variable {κ : Type} (made : List Char → List Char → Prop) {construct : Construct κ}
  {evaluate : κ → Expansion σ (List Char)} {text : List Char}

/-- What a pass makes of a text, from the end to the front: one rule for each kind of piece. -/
theorem replaceSteps (empty : made [] [])
    (char : ∀ before c rest rest', text = before ++ c :: rest → made rest rest' →
      made (c :: rest) (c :: rest'))
    (malformed : ∀ before after after', text = before ++ (construct.trigger.text ++ after) →
      made after after' → made (construct.trigger.text ++ after) (construct.trigger.text ++ after'))
    (call : ∀ before after call size, text = before ++ (construct.trigger.text ++ after) →
      construct.read after = .ok (call, size) →
      Yields allowed (fun value => ∀ rest', made (after.drop size) rest' →
        made (construct.trigger.text ++ after) (value ++ rest')) (evaluate call)) :
    Yields allowed (made text) (construct.replace evaluate text) := by
  induction size : text.length using Nat.strongRecOn generalizing text with
  | ind length ih =>
    -- The pass goes on behind the first piece, which leaves less of the text.
    have goesOn : ∀ front rest, text = front ++ rest → front ≠ [] →
        Yields allowed (made rest) (construct.replace evaluate rest) := by
      rintro front rest rfl filled
      have shorter : rest.length < length := by
        have := List.length_pos_iff.mpr filled
        rw [List.length_append] at size
        omega
      refine ih rest.length shorter ?_ ?_ ?_ rfl
      · rintro before c rest rest' rfl later
        exact char (front ++ before) c rest rest' (by simp) later
      · rintro before after after' rfl later
        exact malformed (front ++ before) after after' (by simp) later
      · rintro before after found taken rfl read
        exact call (front ++ before) after found taken (by simp) read
    cases text with
    | nil =>
      rw [replace_nil]
      exact pure empty
    | cons c rest =>
      cases starts : construct.trigger.text.isPrefixOf? (c :: rest) with
      | none =>
        rw [replace_literal construct evaluate starts]
        refine (goesOn [c] rest rfl (by simp)).bind fun tail later => ?_
        exact pure (char [] c rest tail rfl later)
      | some after =>
        have whole := List.append_eq_of_isPrefixOf?_eq_some starts
        have filled : construct.trigger.text ≠ [] := List.cons_ne_nil _ _
        rw [← whole]
        cases read : construct.read after with
        | error problem =>
          rw [replace_malformed construct evaluate read]
          refine (report problem).bind fun _ _ => ?_
          refine (goesOn _ after whole.symm filled).bind fun tail later => ?_
          exact pure (malformed [] after tail whole.symm later)
        | ok found =>
          obtain ⟨found, taken⟩ := found
          rw [replace_call construct evaluate read]
          refine (call [] after found taken whole.symm read).bind fun value first => ?_
          have split : c :: rest =
              (construct.trigger.text ++ after.take taken) ++ after.drop taken := by
            rw [← whole, List.append_assoc, List.take_append_drop]
          refine (goesOn _ _ split (by simp [filled])).bind fun tail later => ?_
          exact pure (first tail later)

theorem replace (empty : made [] [])
    (append : ∀ left left' right right', made left left' → made right right' →
      made (left ++ right) (left' ++ right'))
    (char : ∀ c ∈ text, made [c] [c])
    (call : ∀ before after call size, text = before ++ (construct.trigger.text ++ after) →
      construct.read after = .ok (call, size) →
      Yields allowed (made (construct.trigger.text ++ after.take size)) (evaluate call)) :
    Yields allowed (made text) (construct.replace evaluate text) := by
  have copied : ∀ part : List Char, (∀ c ∈ part, made [c] [c]) → made part part := by
    intro part
    induction part with
    | nil => exact fun _ => empty
    | cons c part ih =>
      intro each
      exact append [c] [c] part part (each c (by simp))
        (ih fun d member => each d (List.mem_cons_of_mem _ member))
  refine replaceSteps made empty ?_ ?_ ?_
  · rintro before c rest rest' rfl later
    exact append [c] [c] rest rest' (char c (by simp)) later
  · rintro before after after' rfl later
    exact append _ _ _ _ (copied _ fun c member => char c (by simp [member])) later
  · rintro before after found size rfl read
    refine (call before after found size rfl read).mono fun value first rest' later => ?_
    have whole := append _ _ _ _ first later
    rwa [List.append_assoc, List.take_append_drop] at whole

end Replace

theorem silent : Yields allowed (fun _ => True) (Pure.pure () : Expansion σ Unit) := pure trivial

theorem pass {engine : Engine} {name : String} {fine : List Char → Prop}
    {replace : List Char → Expansion σ (List Char)} {text : List Char}
    (h : Yields allowed fine (replace text)) :
    Yields allowed fine (engine.pass name replace text) := by
  unfold Engine.pass
  refine h.bind fun after known => ?_
  cases engine.verbose with
  | true => exact (print _).bind fun _ _ => pure known
  | false => exact silent.bind fun _ _ => pure known

theorem valueOf {fine : List Char → Prop} (problem : Failure → Diagnostic)
    {result : Expansion σ (Except Failure (List Char))} (empty : fine [])
    (h : Yields allowed (fun outcome => ∀ value, outcome = .ok value → fine value) result) :
    Yields allowed fine (valueOf problem result) := by
  refine h.bind fun outcome known => ?_
  cases outcome with
  | ok value => exact pure (known value rfl)
  | error failure => exact (report _).bind fun _ _ => pure empty

theorem replaceCalls (trigger : Trigger)
    {evaluate : List Char → Expansion σ (Except Failure (List Char))} {text : List Char}
    (values : ∀ arguments, trigger.text ++ '(' :: (arguments ++ [')']) <:+: text →
      Yields allowed (fun _ => True) (evaluate arguments)) :
    Yields allowed (fun _ => True) (replaceCalls trigger evaluate text) := by
  refine replace (fun _ _ => True) trivial (fun _ _ _ _ _ _ => trivial) (fun _ _ => trivial) ?_
  intro before after arguments size whole read
  have formed := ((inlineCall_reads trigger).call after arguments _).mpr ⟨size, read, rfl⟩
  have inside : trigger.text ++ '(' :: (arguments ++ [')']) <:+: text := by
    have shape := formed.text_eq
    refine ⟨before, after.drop size, ?_⟩
    generalize after.drop size = rest at shape ⊢
    rw [whole, shape]
    simp [inlineCall]
  exact valueOf _ trivial ((values arguments inside).mono fun _ _ _ _ => trivial)

theorem startProgram (environment : Environment σ) (base : List Char) (command : List (List Char)) :
    Yields allowed (fun _ => True) (startProgram environment base command) :=
  fun _ => trivial

theorem evaluateRun (environment : Environment σ) (base : List Char)
    {expandWord : List Char → Expansion σ (List Char)} {arguments : List Char}
    (words : ∀ word ∈ splitWords arguments, Yields allowed (fun _ => True) (expandWord word)) :
    Yields allowed (fun _ => True) (evaluateRun environment base expandWord arguments) := by
  unfold Template.evaluateRun
  cases split : splitWords arguments with
  | nil => exact pure trivial
  | cons word more =>
    rw [split] at words
    refine (words word (by simp)).bind fun program _ => ?_
    refine (mapM fun other member => words other (List.mem_cons_of_mem _ member)).bind
      fun following _ => ?_
    refine (startProgram environment base (program :: following)).bind fun outcome _ => ?_
    cases outcome with
    | error reason => exact pure trivial
    | ok result =>
      obtain ⟨output, status⟩ := result
      by_cases failed : status ≠ 0
      · simp only [if_pos failed]
        exact (report _).bind fun _ _ => pure trivial
      · simp only [if_neg failed]
        exact silent.bind fun _ _ => pure trivial

theorem expandInserted {environment : Environment σ} {engine : Engine}
    {expandWord : List Char → Expansion σ (List Char)} {inserted : List Char}
    (words : ∀ arguments, runTrigger.text ++ '(' :: (arguments ++ [')']) <:+: inserted →
      ∀ word ∈ splitWords arguments, Yields allowed (fun _ => True) (expandWord word)) :
    Yields allowed (fun _ => True) (engine.expandInserted environment expandWord inserted) := by
  refine (pass (replaceCalls _ fun arguments inside => ?_)).bind fun ran _ => ?_
  · exact evaluateRun environment engine.base (words arguments inside)
  refine (pass (replaceCalls _ fun _ _ => pure trivial)).bind fun named _ => ?_
  refine (pass (replaceCalls _ fun _ _ => pure trivial)).bind fun chosen _ => ?_
  exact pass (replace (fun _ _ => True) trivial (fun _ _ _ _ _ _ => trivial)
    (fun _ _ => trivial) fun _ _ _ _ _ _ => pure trivial)

end Yields

end BracketMarkup.Template
