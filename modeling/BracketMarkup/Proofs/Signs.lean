import BracketMarkup.Proofs.Passes

namespace BracketMarkup.Template

inductive SignsBefore (allowed : Char → Prop) : List Char → Prop where
  | nil : SignsBefore allowed []
  | char {c : Char} {rest : List Char} : c ≠ '%' → SignsBefore allowed rest →
      SignsBefore allowed (c :: rest)
  | sign {d : Char} {rest : List Char} : allowed d → d ≠ '%' → SignsBefore allowed rest →
      SignsBefore allowed ('%' :: d :: rest)

namespace SignsBefore

variable {allowed : Char → Prop}

theorem of_notMem {text : List Char} (h : '%' ∉ text) : SignsBefore allowed text := by
  induction text with
  | nil => exact .nil
  | cons c rest ih =>
    rw [List.mem_cons, not_or] at h
    exact .char (Ne.symm h.1) (ih h.2)

theorem mono {other : Char → Prop} {text : List Char} (h : SignsBefore allowed text)
    (wider : ∀ d, allowed d → other d) : SignsBefore other text := by
  induction h with
  | nil => exact .nil
  | char plain _ ih => exact .char plain ih
  | sign may notSign _ ih => exact .sign (wider _ may) notSign ih

theorem append {left right : List Char} (h : SignsBefore allowed left)
    (later : SignsBefore allowed right) : SignsBefore allowed (left ++ right) := by
  induction h with
  | nil => exact later
  | char plain _ ih => exact .char plain ih
  | sign may other _ ih => exact .sign may other ih

theorem flatMap {α : Type} {items : List α} {written : α → List Char}
    (each : ∀ item ∈ items, SignsBefore allowed (written item)) :
    SignsBefore allowed (items.flatMap written) := by
  induction items with
  | nil => exact .nil
  | cons item rest ih =>
    rw [List.flatMap_cons]
    exact (each item (by simp)).append (ih fun other member => each other (List.mem_cons_of_mem _ member))

theorem cut {c : Char} {front back : List Char} (h : SignsBefore allowed (front ++ c :: back))
    (plain : c ≠ '%') (forbidden : ¬ allowed c) :
    SignsBefore allowed front ∧ SignsBefore allowed back := by
  generalize whole : front ++ c :: back = text at h
  induction h generalizing front with
  | nil => simp at whole
  | @char d rest notSign rest_signs ih =>
    cases front with
    | nil =>
      obtain ⟨rfl, rfl⟩ := List.cons.inj whole
      exact ⟨.nil, rest_signs⟩
    | cons e front =>
      obtain ⟨rfl, same⟩ := List.cons.inj whole
      obtain ⟨first, second⟩ := ih same
      exact ⟨.char notSign first, second⟩
  | @sign d rest may other _ ih =>
    match front with
    | [] =>
      obtain ⟨rfl, -⟩ := List.cons.inj whole
      exact absurd rfl plain
    | [e] =>
      obtain ⟨-, same⟩ := List.cons.inj whole
      obtain ⟨rfl, -⟩ := List.cons.inj same
      exact absurd may forbidden
    | e :: f :: front =>
      simp only [List.cons_append, List.cons.injEq] at whole
      obtain ⟨rfl, rfl, same⟩ := whole
      obtain ⟨first, second⟩ := ih same
      exact ⟨.sign may other first, second⟩

theorem not_infix {d : Char} {more text : List Char} (h : SignsBefore allowed text)
    (forbidden : ¬ allowed d) : ¬ '%' :: d :: more <:+: text := by
  induction h with
  | nil => simp
  | char plain _ ih =>
    rw [List.infix_cons_iff, not_or]
    exact ⟨fun starts => plain (List.cons_prefix_cons.mp starts).1.symm, ih⟩
  | @sign e rest may other _ ih =>
    rw [List.infix_cons_iff, List.infix_cons_iff, not_or, not_or]
    refine ⟨fun starts => ?_, fun starts => other (List.cons_prefix_cons.mp starts).1.symm, ih⟩
    obtain ⟨-, starts⟩ := List.cons_prefix_cons.mp starts
    exact forbidden ((List.cons_prefix_cons.mp starts).1 ▸ may)

end SignsBefore

theorem replace_signs {σ κ : Type} (construct : Construct κ) (evaluate : κ → Expansion σ (List Char))
    {allowed : Char → Prop} {d : Char} {more text : List Char}
    (trigger : construct.trigger = ⟨'%', d :: more⟩) (forbidden : ¬ allowed d)
    (h : SignsBefore allowed text) (rest : List Char) :
    construct.replace evaluate (text ++ rest) = do
      let tail ← construct.replace evaluate rest
      return text ++ tail := by
  induction h with
  | nil => simp
  | @char c text plain _ ih =>
    have absent : construct.trigger.text.isPrefixOf? (c :: (text ++ rest)) = none := by
      simp [trigger, Trigger.text, List.isPrefixOf?, Ne.symm plain]
    rw [List.cons_append, replace_literal construct evaluate absent, ih]
    simp only [bind_assoc, pure_bind, List.cons_append]
  | @sign e text may other _ ih =>
    have apart : d ≠ e := fun same => forbidden (same ▸ may)
    have absent : construct.trigger.text.isPrefixOf? ('%' :: e :: (text ++ rest)) = none := by
      simp [trigger, Trigger.text, List.isPrefixOf?, apart]
    have next : construct.trigger.text.isPrefixOf? (e :: (text ++ rest)) = none := by
      simp [trigger, Trigger.text, List.isPrefixOf?, Ne.symm other]
    rw [List.cons_append, List.cons_append, replace_literal construct evaluate absent,
      replace_literal construct evaluate next, ih]
    simp only [bind_assoc, pure_bind, List.cons_append]

theorem replace_whole {σ κ : Type} (construct : Construct κ)
    (evaluate : κ → Expansion σ (List Char)) {after : List Char} {call : κ} {size : Nat}
    (read : construct.read after = .ok (call, size)) (all : after.drop size = []) :
    construct.replace evaluate (construct.trigger.text ++ after) = evaluate call := by
  rw [replace_call construct evaluate read, all, replace_nil]
  simp

end BracketMarkup.Template
