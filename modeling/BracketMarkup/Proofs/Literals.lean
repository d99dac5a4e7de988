import BracketMarkup.Proofs.References
import BracketMarkup.Proofs.Results

namespace BracketMarkup.Template

variable {σ : Type}

/-- A text with `%perc` written for each percent sign. -/
def encodeSigns (text : List Char) : List Char :=
  text.flatMap fun c => if c = '%' then percTrigger.text else [c]

/-- A piece of a template that stands for a text: the text itself, encoded, or a reference to a
    variable that holds it encoded. -/
inductive Part where
  | literal (text : List Char)
  | reference (name text : List Char)

namespace Part

def written : Part → List Char
  | literal text => encodeSigns text
  | reference name _ => Template.reference (restore (quoted name))

def meaning : Part → List Char
  | literal text => text
  | reference _ text => text

end Part

theorem encodeSigns_cons (c : Char) (text : List Char) :
    encodeSigns (c :: text) = (if c = '%' then percTrigger.text else [c]) ++ encodeSigns text := rfl

theorem encodeSigns_flatMap {α : Type} (items : List α) (text : α → List Char) :
    encodeSigns (items.flatMap text) = items.flatMap fun item => encodeSigns (text item) :=
  List.flatMap_assoc

theorem signsBefore_encodeSigns (text : List Char) : SignsBefore (· = 'p') (encodeSigns text) := by
  induction text with
  | nil => exact .nil
  | cons c text ih =>
    rw [encodeSigns_cons]
    split
    · exact .sign rfl (by decide) ((SignsBefore.of_notMem (by decide)).append ih)
    · rename_i plain
      exact .char plain ih

theorem signsBefore_written (part : Part) :
    SignsBefore (fun d => d = 'p' ∨ d = '\x7b' ∨ d = escapeMark ∨ d = '\x7d') part.written := by
  cases part with
  | literal text => exact (signsBefore_encodeSigns text).mono fun d same => .inl same
  | reference name text =>
    exact .sign (by simp) (by decide) (signsBefore_quoted (by simp) (by simp) name).1

theorem replace_encodeSigns (text : List Char) :
    (plainWord percTrigger).replace (σ := σ) (fun _ => return ['%']) (encodeSigns text) =
      pure text := by
  induction text with
  | nil => exact replace_nil _ _
  | cons c text ih =>
    rw [encodeSigns_cons]
    split
    · rename_i sign
      have read : (plainWord percTrigger).read (encodeSigns text) = .ok ((), 0) := rfl
      have step := replace_call (σ := σ) (plainWord percTrigger) (fun _ => return ['%']) read
      rw [List.drop_zero, ih, pure_bind, pure_bind] at step
      rw [sign]
      exact step
    · rename_i plain
      have absent : percTrigger.text.isPrefixOf? (c :: encodeSigns text) = none := by
        simp [percTrigger, Trigger.text, List.isPrefixOf?, Ne.symm plain]
      rw [List.singleton_append, replace_literal _ _ absent, ih, pure_bind]

theorem replaceVariables_written {bindings : Bindings} {parts : List Part}
    (bound : ∀ name text, .reference name text ∈ parts →
      bindings.value? name = some (encodeSigns text)) :
    replaceVariables (σ := σ) bindings (parts.flatMap Part.written) =
      pure (encodeSigns (parts.flatMap Part.meaning)) := by
  rw [encodeSigns_flatMap]
  induction parts with
  | nil => exact replace_nil _ _
  | cons part parts ih =>
    have later := ih fun name text member => bound name text (List.mem_cons_of_mem _ member)
    rw [List.flatMap_cons, List.flatMap_cons]
    cases part with
    | literal text =>
      rw [replaceVariables_eq, Part.written, replace_signs _ _ rfl (by decide)
        (signsBefore_encodeSigns text), ← replaceVariables_eq, later, pure_bind]
      rfl
    | reference name text =>
      have value : bindings.value? (unescape (restore (quoted name))) = some (encodeSigns text) := by
        rw [unescape_quoted]
        exact bound name text (by simp)
      rw [Part.written, replaceVariables_reference (paired_quoted name) value, later, pure_bind]
      rfl

/-- A template of encoded texts and of references to encoded texts expands to the texts. The same
    comes out whatever the surroundings answer, so no directory is read and no program started. -/
theorem literals_expand (engine : Engine) {parts : List Part}
    (bound : ∀ name text, .reference name text ∈ parts →
      engine.bindings.value? name = some (encodeSigns text)) :
    ∃ printed, ∀ environment : Environment σ,
      Gives (engine.expand environment (parts.flatMap Part.written)) (parts.flatMap Part.meaning)
        [] printed := by
  have written : SignsBefore (fun d => d = 'p' ∨ d = '\x7b' ∨ d = escapeMark ∨ d = '\x7d')
      (parts.flatMap Part.written) :=
    SignsBefore.flatMap fun part _ => signsBefore_written part
  have inserted := signsBefore_encodeSigns (parts.flatMap Part.meaning)
  let encoded := encodeSigns (parts.flatMap Part.meaning)
  refine ⟨engine.shownPasses (parts.flatMap Part.written) encoded encoded encoded
    (parts.flatMap Part.meaning), fun environment => ?_⟩
  exact Gives.expand (written.not_infix (by decide)) (replaceVariables_written bound)
    (inserted.not_infix (by decide)) (Gives.unchanged (inserted.not_infix (by decide)))
    (Gives.unchanged (inserted.not_infix (by decide))) (replace_encodeSigns _)

theorem literals_expand_percents :
    let engine := Engine.make [] [] [("a%\x7d".toList, encodeSigns "%run(x)".toList)] true
    let parts := [Part.literal "100%".toList, .reference "a%\x7d".toList "%run(x)".toList,
      .literal "%perc".toList]
    (∀ name text, .reference name text ∈ parts →
      engine.bindings.value? name = some (encodeSigns text)) ∧
    parts.flatMap Part.written = "100%perc%\x7b\\a\\%\\\x7d\x7d%percperc".toList ∧
    ∃ printed, ∀ environment : Environment Unit,
      Gives (engine.expand environment (parts.flatMap Part.written))
        "100%%run(x)%perc".toList [] printed := by
  intro engine parts
  have bound : ∀ name text, .reference name text ∈ parts →
      engine.bindings.value? name = some (encodeSigns text) := by
    intro name text member
    obtain ⟨rfl, rfl⟩ : name = "a%\x7d".toList ∧ text = "%run(x)".toList := by
      simpa [parts] using member
    rfl
  exact ⟨bound, rfl, literals_expand engine bound⟩

end BracketMarkup.Template
