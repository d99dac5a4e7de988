import BracketMarkup.Proofs.Depth
import BracketMarkup.Proofs.LoopFree
import BracketMarkup.Proofs.References

namespace BracketMarkup.Template

variable {σ : Type}

/-- A value that brings no reference into a text, whatever it is put between. -/
def Inert (value : List Char) : Prop := SignsBefore (fun d => d ≠ '\x7b' ∧ d ∉ breaking) value

theorem Inert.references_append {value : List Char} (h : Inert value) (rest : List Char) :
    references (value ++ rest) = references rest := by
  induction h with
  | nil => rfl
  | char plain _ ih =>
    rw [List.cons_append, references, ih, if_neg fun refers => plain refers.1, Nat.zero_add]
  | @sign d value may other _ ih =>
    have brace : ¬ ('%' = '%' ∧ (d :: (value ++ rest)).head? = some '\x7b') :=
      fun refers => may.1 (Option.some.inj refers.2)
    rw [List.cons_append, List.cons_append, references, references, ih, if_neg brace,
      if_neg fun refers => other refers.1, Nat.zero_add, Nat.zero_add]

theorem Inert.loopFree_append {value rest : List Char} (h : Inert value) (free : LoopFree rest) :
    LoopFree (value ++ rest) := by
  induction h with
  | nil => exact free
  | char plain _ ih => exact loopFree_cons_iff.mpr ⟨fun sign => absurd sign plain, ih⟩
  | @sign d value may other _ ih =>
    have later : LoopFree (d :: (value ++ rest)) :=
      loopFree_cons_iff.mpr ⟨fun sign => absurd sign other, ih⟩
    refine loopFree_cons_iff.mpr ⟨fun _ e starts => ?_, later⟩
    cases starts
    exact may.2

theorem Lighter.insert {size : Nat} {value rest rest' : List Char} (h : Lighter size rest' rest)
    (inert : Inert value) (short : value.length ≤ size) (inside : List Char) :
    Lighter size (value ++ rest') ('%' :: '\x7b' :: (inside ++ rest)) := by
  refine ⟨inert.loopFree_append h.loopFree, ?_, ?_⟩
  · have light := h.weight
    have counted : references rest + 1 ≤ references ('%' :: '\x7b' :: (inside ++ rest)) := by
      have later := references_le_append inside rest
      have opener := references_le_cons '\x7b' (inside ++ rest)
      rw [references, if_pos ⟨rfl, rfl⟩]
      omega
    have scaled := Nat.mul_le_mul_left size counted
    rw [Nat.mul_add, Nat.mul_one] at scaled
    simp only [Template.weight, inert.references_append, List.length_append, List.length_cons] at light ⊢
    omega
  · rintro d starts other
    cases starts
    exact absurd (by decide) other

namespace Yields

variable {allowed : Stop → Prop}

theorem replaceBlocks_loopFree (trigger : Trigger)
    (evaluate : Block → Expansion σ (Except Failure (List Char))) {text : List Char}
    (free : LoopFree text) :
    Yields allowed (fun opened => opened = text)
      (Template.replaceBlocks trigger evaluate text) := by
  refine Yields.replace (fun text opened => opened = text) rfl ?_ (fun _ _ => rfl) ?_
  · rintro left left' right right' rfl rfl
    rfl
  · intro before after block size whole read
    obtain ⟨gap, -, -, formed⟩ := ((blockCall_reads trigger).call after block _).mpr ⟨size, read, rfl⟩
    have opener : ['%', '('] <:+: text := by
      rw [whole, formed.front_eq, blockFront]
      exact ⟨before ++ (trigger.text ++ '(' :: (block.arguments ++ ')' :: gap)), _, by
        simp [blockOpener, blockCall]; rfl⟩
    exact absurd (free.of_part opener) (by decide)

theorem replaceVariables_lighter {size : Nat} {bindings : Bindings}
    (inert : ∀ binding ∈ bindings, Inert binding.2 ∧ binding.2.length ≤ size) {text : List Char}
    (free : LoopFree text) :
    Yields allowed (fun inserted => Lighter size inserted text)
      (Template.replaceVariables bindings text : Expansion σ (List Char)) := by
  have steps : Yields allowed (fun inserted => LoopFree text → Lighter size inserted text)
      (Template.replaceVariables bindings text : Expansion σ (List Char)) := by
    refine replaceSteps (fun text inserted => LoopFree text → Lighter size inserted text)
      (fun _ => Lighter.nil []) ?_ ?_ ?_
    · exact fun _ c rest rest' _ later whole => (later whole.tail).cons whole
    · exact fun _ after after' _ later whole => ((later whole.tail.tail).cons whole.tail).cons whole
    · intro before after name taken _ read
      obtain ⟨inside, enclosed, -⟩ :=
        (variableReference_reads.call after name _).mpr ⟨taken, read, rfl⟩
      have shape := enclosed.text_eq
      generalize after.drop taken = rest at shape
      have inserts : ∀ value, Inert value → value.length ≤ size → ∀ rest',
          (LoopFree rest → Lighter size rest' rest) →
            LoopFree (variableReference.trigger.text ++ after) →
              Lighter size (value ++ rest') (variableReference.trigger.text ++ after) := by
        intro value inert short rest' later whole
        have behind : LoopFree rest := whole.of_part
          ⟨variableReference.trigger.text ++ (inside ++ ['\x7d']), [], by simp [shape]⟩
        have put := (later behind).insert inert short (inside ++ ['\x7d'])
        rw [List.append_assoc, List.singleton_append, ← shape] at put
        exact put
      cases bound : bindings.value? name with
      | some value =>
        obtain ⟨quiet, short⟩ := inert _ (mem_of_value? bound)
        exact Yields.pure (inserts value quiet short)
      | none =>
        exact (Yields.report _).bind fun _ _ => Yields.pure (inserts [] .nil (Nat.zero_le _))
  exact steps.mono fun inserted made => made free

end Yields

theorem openLoops_loopFree {environment : Environment σ} {engine : Engine} {allowed : Stop → Prop}
    {text : List Char} (free : LoopFree text) :
    Yields allowed (fun opened => opened = text) (engine.openLoops environment text) :=
  Yields.pass (Yields.replaceBlocks_loopFree forfilesTrigger _ free)

section

variable {environment : Environment σ} {engine : Engine} {size : Nat}
  (inert : ∀ binding ∈ engine.bindings, Inert binding.2 ∧ binding.2.length ≤ size)
include inert

theorem expandOpened_ends {depth : Nat} {opened : List Char} (free : LoopFree opened)
    (light : weight size opened ≤ depth)
    {expandWord : List Char → Expansion σ (List Char)}
    (words : ∀ word, LoopFree word → weight size word < depth →
      Yields (· ≠ .tooDeep) (fun _ => True) (expandWord word)) :
    Yields (· ≠ .tooDeep) (fun _ => True) (engine.expandOpened environment expandWord opened) := by
  refine (Yields.pass (Yields.replaceVariables_lighter inert free)).bind fun inserted lighter => ?_
  refine Yields.expandInserted fun arguments inside word member => ?_
  -- The call itself is longer than its arguments, so that a word weighs less than the text.
  have within : arguments <:+: inserted := by
    refine List.IsInfix.trans ?_ inside
    exact ⟨runTrigger.text ++ ['('], [')'], by simp⟩
  have longer := inside.length_le
  simp only [List.length_append, List.length_cons] at longer
  have less : weight size arguments < weight size inserted := weight_lt_of_part within (by omega)
  obtain ⟨clear, most⟩ : LoopFree word ∧ weight size word ≤ weight size arguments :=
    splitWords_lighter (lighter.loopFree.of_part within) member
  have whole := lighter.weight
  exact words word clear (by omega)

theorem expandWithin_ends {depth : Nat} {text : List Char} (free : LoopFree text)
    (light : weight size text < depth) :
    Yields (· ≠ .tooDeep) (fun _ => True) (engine.expandWithin environment depth text) := by
  induction depth generalizing text with
  | zero => omega
  | succ depth ih =>
    refine (openLoops_loopFree free).bind ?_
    rintro opened rfl
    exact expandOpened_ends inert free (by omega) fun word => ih

omit inert in
theorem openLoops_ends (text : List Char) :
    Yields (· ≠ .tooDeep) (fun _ => True) (engine.openLoops environment text) := by
  have any : ∀ text : List Char, Within (fun _ => True) text := fun _ _ _ => trivial
  have supplies : Supplies (fun _ => True) environment engine.bindings :=
    ⟨fun _ _ => any _, fun _ _ _ _ _ _ => any _, fun _ _ _ _ _ _ => any _⟩
  have loops : Yields (· ≠ .tooDeep) (Within fun _ => True) (engine.openLoops environment text) :=
    Yields.pass (Yields.replaceBlocks _ (any text) fun block =>
      Yields.evaluateLoop supplies fun _ _ _ _ => by decide)
  exact loops.mono fun _ _ => trivial

/-- Where no value brings a reference with it and no loop is left when the loops are done, programs to
    run nest at most as deep as what is left weighs, and an expansion that may go deeper reaches the same
    end. -/
theorem expansion_ends {bound : Nat} {text : List Char} {trace : Trace σ}
    (settled : ∀ opened after, (engine.openLoops environment text).run trace = (.ok opened, after) →
      LoopFree opened ∧ weight size opened ≤ bound) :
    ∃ outcome after, outcome ≠ .error .tooDeep ∧ ∀ depth, bound < depth →
      (engine.expandWithin environment depth text).run trace = (outcome, after) := by
  have loops : Yields (· ≠ .tooDeep) (fun _ => True) (engine.openLoops environment text) :=
    openLoops_ends text
  have ended : ((engine.expandWithin environment (bound + 1) text).run trace).1 ≠
      .error .tooDeep := by
    rw [expandWithin_succ]
    rcases run : (engine.openLoops environment text).run trace with ⟨outcome, after⟩
    cases outcome with
    | error stop =>
      have other : stop ≠ .tooDeep := loops.stop (congrArg Prod.fst run)
      rw [run_bind_error run]
      exact fun same => other (Except.error.inj same)
    | ok opened =>
      obtain ⟨free, light⟩ := settled opened after run
      have later : Yields (· ≠ .tooDeep) (fun _ => True) (engine.expandOpened environment
          (engine.expandWithin environment bound) opened) :=
        expandOpened_ends inert free light fun word => expandWithin_ends inert
      rw [run_bind_ok run]
      exact fun same => later.stop same rfl
  exact ⟨_, _, ended, fun depth deeper => Deepens.expandWithin_of_le deeper trace ended⟩

end

theorem expansion_ends_nested :
    let environment : Environment Unit :=
      { list := fun _ _ => .error (.refused "none")
        fileBindings := fun _ _ => .ok []
        start := fun host _ _ => (.ok ([104], 0), host) }
    let engine := Engine.make [] [] [("x".toList, "100% %run(y)".toList)] false
    let text := "%run(a %\x7bx\x7d %run(%\x7bx\x7d))".toList
    let trace : Trace Unit := ⟨(), [], ""⟩
    (∀ binding ∈ engine.bindings, Inert binding.2 ∧ binding.2.length ≤ 12) ∧
      (∀ opened after, (engine.openLoops environment text).run trace = (.ok opened, after) →
        LoopFree opened ∧ weight 12 opened ≤ 47) ∧
      ∃ outcome after, outcome ≠ .error .tooDeep ∧ ∀ depth, 47 < depth →
        (engine.expandWithin environment depth text).run trace = (outcome, after) := by
  intro environment engine text trace
  have inert : ∀ binding ∈ engine.bindings, Inert binding.2 ∧ binding.2.length ≤ 12 := by
    intro binding member
    obtain rfl := List.mem_singleton.mp member
    refine ⟨?_, by decide⟩
    have number : Inert "100".toList := .of_notMem (by decide)
    have share : Inert "% ".toList := .sign (by decide) (by decide) .nil
    have call : Inert "%run(y)".toList := .sign (by decide) (by decide) (.of_notMem (by decide))
    exact number.append (share.append call)
  have free : LoopFree text := by decide
  have settled : ∀ opened after,
      (engine.openLoops environment text).run trace = (.ok opened, after) →
        LoopFree opened ∧ weight 12 opened ≤ 47 := by
    intro opened after run
    have same : Yields (fun _ => True) (fun opened => opened = text)
        (engine.openLoops environment text) := openLoops_loopFree free
    have left := same trace
    rw [run] at left
    subst left
    exact ⟨free, by decide⟩
  exact ⟨inert, settled, expansion_ends inert settled⟩

theorem expand_self_reference {environment : Environment σ} {engine : Engine}
    (bound : engine.bindings.value? ['x'] = some "%run(%\x7bx\x7d)".toList) (depth : Nat) :
    Yields (· = .tooDeep) (fun _ => False)
      (engine.expandWithin environment depth (reference ['x'])) := by
  induction depth with
  | zero => exact Yields.throw rfl
  | succ depth ih =>
    have free : LoopFree (reference ['x']) := by decide
    refine (openLoops_loopFree free).bind ?_
    rintro opened rfl
    have value : replaceVariables (σ := σ) engine.bindings (reference ['x']) =
        pure "%run(%\x7bx\x7d)".toList := by
      have read : variableReference.read ['x', '\x7d'] = .ok (['x'], 2) := rfl
      have whole := replace_whole (σ := σ) _ (variableValue engine.bindings) read rfl
      rw [variableValue, bound] at whole
      exact whole
    have inserted : Yields (· = .tooDeep) (fun text => text = "%run(%\x7bx\x7d)".toList)
        (replaceVariables (σ := σ) engine.bindings (reference ['x'])) := by
      rw [value]
      exact Yields.pure rfl
    refine (Yields.pass inserted).bind ?_
    rintro text rfl
    have words : splitWords (reference ['x']) = [reference ['x']] := rfl
    have runs : Yields (· = .tooDeep) (fun _ => False) (replaceCalls runTrigger
        (evaluateRun environment engine.base (engine.expandWithin environment depth))
        "%run(%\x7bx\x7d)".toList) := by
      have read : (inlineCall runTrigger).read "(%\x7bx\x7d)".toList = .ok (reference ['x'], 6) := rfl
      have whole := replace_whole (σ := σ) _ (fun arguments =>
        valueOf (.failedCall runTrigger.text arguments) (evaluateRun environment engine.base
          (engine.expandWithin environment depth) arguments)) read rfl
      refine cast (congrArg _ whole.symm) ?_
      unfold valueOf evaluateRun
      rw [words]
      exact ih.never.never
    exact (Yields.pass runs).never

/-- At no depth does such an expansion come to a result. -/
theorem expand_never_ends :
    let environment := Host.surroundings fun tree _ _ => (.error "none", tree)
    let engine := Engine.make [] [] [("x".toList, "%run(%\x7bx\x7d)".toList)] false
    ¬ ∃ depth, ((engine.expandWithin environment depth "%\x7bx\x7d".toList).run
      ⟨[], [], ""⟩).1 ≠ .error .tooDeep := by
  rintro environment engine ⟨depth, ended⟩
  have stops : Yields (· = .tooDeep) (fun _ => False)
      (engine.expandWithin environment depth (reference ['x'])) := expand_self_reference rfl depth
  rcases run : ((engine.expandWithin environment depth (reference ['x'])).run
      ⟨[], [], ""⟩).1 with stop | value
  · exact ended (run.trans (congrArg _ (stops.stop run)))
  · have never := stops ⟨[], [], ""⟩
    rw [run] at never
    exact never

end BracketMarkup.Template
