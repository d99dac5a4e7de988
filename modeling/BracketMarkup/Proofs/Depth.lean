import BracketMarkup.Proofs.Results

namespace BracketMarkup.Template

variable {σ α β : Type}

/-- Where one expansion does not end for want of depth, the other does the same. -/
def Deepens (shallow deep : Expansion σ α) : Prop :=
  ∀ trace, (shallow.run trace).1 ≠ .error .tooDeep → deep.run trace = shallow.run trace

namespace Deepens

theorem refl (expansion : Expansion σ α) : Deepens expansion expansion := fun _ _ => rfl

theorem trans {first second third : Expansion σ α} (h : Deepens first second)
    (later : Deepens second third) : Deepens first third := by
  intro trace ended
  have same := h trace ended
  rw [later trace (by rwa [same]), same]

theorem bind {shallow deep : Expansion σ α} {next next' : α → Expansion σ β}
    (first : Deepens shallow deep) (later : ∀ value, Deepens (next value) (next' value)) :
    Deepens (shallow >>= next) (deep >>= next') := by
  intro trace ended
  rcases run : shallow.run trace with ⟨outcome, after⟩
  cases outcome with
  | error stop =>
    rw [run_bind_error run] at ended
    have other : stop ≠ .tooDeep := fun same => ended (congrArg _ same)
    have same : deep.run trace = (.error stop, after) := by
      rw [first trace (by simp [run, other]), run]
    rw [run_bind_error run, run_bind_error same]
  | ok value =>
    rw [run_bind_ok run] at ended
    have same : deep.run trace = (.ok value, after) := by
      rw [first trace (by simp [run]), run]
    rw [run_bind_ok run, run_bind_ok same]
    exact later value after ended

theorem mapM {shallow deep : α → Expansion σ β} (each : ∀ item, Deepens (shallow item) (deep item))
    (items : List α) : Deepens (items.mapM shallow) (items.mapM deep) := by
  induction items with
  | nil => exact refl _
  | cons item rest ih =>
    rw [List.mapM_cons, List.mapM_cons]
    exact (each item).bind fun value => ih.bind fun values => refl _

theorem replaceCalls (trigger : Trigger)
    {shallow deep : List Char → Expansion σ (Except Failure (List Char))}
    (values : ∀ arguments, Deepens (shallow arguments) (deep arguments)) (text : List Char) :
    Deepens (replaceCalls trigger shallow text) (replaceCalls trigger deep text) := by
  refine (mapM (fun piece => ?_) _).bind fun pieces => refl _
  cases piece with
  | literal c => exact refl _
  | malformed problem => exact refl _
  | call arguments => exact (values arguments).bind fun outcome => refl _

theorem evaluateRun (environment : Environment σ) (base : List Char)
    {shallow deep : List Char → Expansion σ (List Char)}
    (words : ∀ word, Deepens (shallow word) (deep word)) (arguments : List Char) :
    Deepens (evaluateRun environment base shallow arguments)
      (evaluateRun environment base deep arguments) := by
  unfold Template.evaluateRun
  cases splitWords arguments with
  | nil => exact refl _
  | cons word more =>
    exact (words word).bind fun program => (mapM words more).bind fun following => refl _

theorem pass (engine : Engine) (name : String)
    {shallow deep : List Char → Expansion σ (List Char)}
    (h : ∀ text, Deepens (shallow text) (deep text)) (text : List Char) :
    Deepens (engine.pass name shallow text) (engine.pass name deep text) :=
  (h text).bind fun _ => refl _

theorem expandWithin (environment : Environment σ) (engine : Engine) (depth : Nat)
    (text : List Char) : Deepens (engine.expandWithin environment depth text)
      (engine.expandWithin environment (depth + 1) text) := by
  induction depth generalizing text with
  | zero => exact fun trace ended => absurd rfl ended
  | succ depth ih =>
    refine (refl _).bind fun opened => (refl _).bind fun inserted => ?_
    refine (pass engine _ (replaceCalls runTrigger ?_) inserted).bind fun ran => refl _
    exact evaluateRun environment engine.base ih

theorem expandWithin_of_le {environment : Environment σ} {engine : Engine} {text : List Char}
    {depth greater : Nat} (h : depth ≤ greater) :
    Deepens (engine.expandWithin environment depth text)
      (engine.expandWithin environment greater text) := by
  induction h with
  | refl => exact refl _
  | step _ ih => exact ih.trans (expandWithin environment engine _ text)

end Deepens

end BracketMarkup.Template
