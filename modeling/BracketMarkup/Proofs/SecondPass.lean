import BracketMarkup.Proofs.Continuation

namespace BracketMarkup

theorem tail_linesOf_cons (c : Char) (rest : List Char) :
    (linesOf (c :: rest)).tail = if c = '\n' then linesOf rest else (linesOf rest).tail := by
  rw [linesOf_cons]
  split
  · rfl
  · cases linesOf rest <;> rfl

theorem unmarked_linesOf_cons (c : Char) (rest : List Char) :
    Unmarked (linesOf (c :: rest)) ↔ c ≠ '!' ∧ Unmarked (linesOf (c :: rest)).tail := by
  rw [linesOf_cons]
  by_cases lineFeed : c = '\n'
  · subst lineFeed
    simp [Unmarked]
  · obtain ⟨line, lines, shape⟩ := List.exists_cons_of_ne_nil (linesOf_ne_nil rest)
    rw [if_neg lineFeed, shape]
    simp [Unmarked]

theorem unmarked_joinContinued (text : List Char) :
    (Unmarked (linesOf text).tail → Unmarked (linesOf (joinContinued text)).tail) ∧
      (Unmarked (linesOf text) → Unmarked (linesOf (joinContinued text))) := by
  -- The first line of the rest may go on with a line that has begun, and its start then does not count.
  fun_induction joinContinued text with
  | case1 => exact ⟨id, id⟩
  | case2 c => exact ⟨id, id⟩
  | case3 c d rest broken ih =>
    obtain ⟨rfl, rfl⟩ := broken
    have mark : escapeMark ≠ '\n' := by decide
    have behind : (linesOf (escapeMark :: '\n' :: rest)).tail = linesOf rest := by
      rw [tail_linesOf_cons, if_neg mark, tail_linesOf_cons, if_pos rfl]
    rw [unmarked_linesOf_cons, behind]
    have later : Unmarked (linesOf rest) → Unmarked (linesOf (joinContinued rest)) := ih.2
    exact ⟨fun unmarked line member => later unmarked line (List.mem_of_mem_tail member),
      fun unmarked => later unmarked.2⟩
  | case4 c d rest whole ih =>
    have later : Unmarked (linesOf (c :: d :: rest)).tail →
        Unmarked (linesOf (c :: joinContinued (d :: rest))).tail := by
      rw [tail_linesOf_cons c, tail_linesOf_cons c]
      split
      · exact ih.2
      · exact ih.1
    rw [unmarked_linesOf_cons, unmarked_linesOf_cons c]
    exact ⟨later, fun unmarked => ⟨unmarked.1, later unmarked.2⟩⟩

theorem sublist_unlines_cons (line : List Char) (rest : List (List Char)) :
    line.Sublist (unlines (line :: rest)) ∧ (unlines rest).Sublist (unlines (line :: rest)) := by
  by_cases last : rest = []
  · subst last
    rw [unlines_singleton]
    exact ⟨List.Sublist.refl _, List.nil_sublist _⟩
  · rw [unlines_cons line last]
    exact ⟨List.sublist_append_left _ _,
      ((List.Sublist.refl _).cons '\n').trans (List.sublist_append_right _ _)⟩

theorem unlines_kept_sublist (lines : List (List Char)) :
    (unlines (lines.filterMap keptLine?)).Sublist (unlines lines) := by
  induction lines with
  | nil => exact List.Sublist.refl _
  | cons line rest ih =>
    obtain ⟨inFront, behind⟩ := sublist_unlines_cons line rest
    cases shown : keptLine? line with
    | none =>
      rw [List.filterMap_cons_none shown]
      exact ih.trans behind
    | some kept =>
      have front : kept.Sublist line := (prefix_of_keptLine? shown).sublist
      rw [List.filterMap_cons_some shown]
      by_cases empty : rest.filterMap keptLine? = []
      · rw [empty, unlines_singleton]
        exact front.trans inFront
      · have more : rest ≠ [] := fun none => empty (by rw [none]; rfl)
        rw [unlines_cons kept empty, unlines_cons line more]
        exact front.append (ih.cons_cons '\n')

theorem body_sublist {text body : List Char} {metadata : Bindings}
    (h : separate text = .ok (metadata, body)) : body.Sublist (joinContinued text) := by
  obtain ⟨-, rfl⟩ := separate_eq_ok h
  have kept := unlines_kept_sublist (logicalLines text)
  rwa [logicalLines, unlines_linesOf] at kept

/-- A body holds no metadata, and nothing is left to be taken out of it but line feeds behind marks. -/
theorem separate_again {text body : List Char} {metadata : Bindings}
    (h : separate text = .ok (metadata, body)) :
    ∃ again, separate body = .ok ([], again) ∧ (again = body ↔ Unbroken body) := by
  have settled : ∀ line ∈ linesOf body, Settled line := fun line => settled_of_separate h
  have unmarked : Unmarked (logicalLines body) :=
    (unmarked_joinContinued body).2 fun line member => (settled line member).unmarked
  have separated := separate_unmarked unmarked
  refine ⟨_, separated, fun same => ?_, fun unbroken => ?_⟩
  · -- Joining and dropping lines only take characters out: if none is gone, joining took none.
    have kept := body_sublist separated
    rw [same] at kept
    exact (joinContinued_eq_self_iff body).mp ((joinContinued_sublist body).antisymm kept)
  · rw [logicalLines, joinContinued_of_unbroken unbroken, unlines_settled settled]

theorem separate_again_broken :
    separate ['!', 'k', ' ', 'v', '\n', 'a', '\\', '\\', '\n', '\n', 'b', '#', 'c'] =
        .ok ([(['k'], ['v'])], ['a', '\\', '\n', 'b']) ∧
      ∃ again, separate ['a', '\\', '\n', 'b'] = .ok ([], again) ∧
        (again = ['a', '\\', '\n', 'b'] ↔ Unbroken ['a', '\\', '\n', 'b']) := by
  have separated : separate ['!', 'k', ' ', 'v', '\n', 'a', '\\', '\\', '\n', '\n', 'b', '#', 'c'] =
      .ok ([(['k'], ['v'])], ['a', '\\', '\n', 'b']) := by cbv
  exact ⟨separated, separate_again separated⟩

example : separate ['a', '\\', '\\', '\\', '\n', '\n', '\\', '#', 'b'] =
      .ok ([], ['a', '\\', '\\', '\n', '\\', '#', 'b']) ∧
    separate ['a', '\\', '\\', '\n', '\\', '#', 'b'] = .ok ([], ['a', '\\', '\\']) := by
  constructor <;> cbv

end BracketMarkup
