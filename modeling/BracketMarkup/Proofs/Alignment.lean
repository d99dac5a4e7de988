import BracketMarkup.Proofs.Calls
import BracketMarkup.Proofs.Joining

namespace BracketMarkup

namespace Bracketed

variable {α : Type}

/-- A run among trees, so many pairs deep, with what the stream holds before and after it. -/
inductive RunAt (opener closer : α) (run : List α) :
    Nat → List α → List α → List (Bracketed (List α)) → Prop where
  | here {rest : List (Bracketed (List α))} :
      RunAt opener closer run 0 [] (join opener closer rest) (free run :: rest)
  | later {depth : Nat} {before after : List α} {tree : Bracketed (List α)}
      {rest : List (Bracketed (List α))} : RunAt opener closer run depth before after rest →
      RunAt opener closer run depth (join opener closer [tree] ++ before) after (tree :: rest)
  | deeper {depth : Nat} {before after : List α} {children rest : List (Bracketed (List α))} :
      RunAt opener closer run depth before after children →
      RunAt opener closer run (depth + 1) (opener :: before)
        (after ++ closer :: join opener closer rest) (nested children :: rest)

variable {opener closer : α} {run before after : List α} {depth : Nat}
  {trees : List (Bracketed (List α))}

theorem RunAt.join_eq (h : RunAt opener closer run depth before after trees) :
    join opener closer trees = before ++ (run ++ after) := by
  induction h with
  | here => exact join_free opener closer run _
  | later _ ih => rw [join_cons, ih, List.append_assoc]
  | deeper _ ih => rw [join_nested, ih]; simp

theorem RunAt.subset_freeItems (h : RunAt opener closer run depth before after trees) :
    run ⊆ freeItems trees := by
  induction h with
  | here => rw [freeItems_free]; exact List.subset_append_left _ _
  | @later _ _ _ tree rest _ ih =>
    cases tree with
    | free other => rw [freeItems_free]; exact List.subset_append_of_subset_right _ ih
    | nested children => rw [freeItems_nested]; exact List.subset_append_of_subset_right _ ih
  | deeper _ ih => rw [freeItems_nested]; exact List.subset_append_of_subset_left _ ih

theorem RunAt.ne_nil (h : RunAt opener closer run depth before after trees) (normal : Normal trees) :
    run ≠ [] := by
  induction h with
  | here => cases normal with | free filled _ _ => exact filled
  | later _ ih =>
    cases normal with
    | free _ _ rest => exact ih rest
    | nested _ rest => exact ih rest
  | deeper _ ih => cases normal with | nested children _ => exact ih children

theorem RunAt.after_ne_nil (h : RunAt opener closer run depth before after trees) (inside : 0 < depth) :
    after ≠ [] := by
  induction h with
  | here => exact absurd inside (Nat.lt_irrefl 0)
  | later _ ih => exact ih inside
  | deeper _ _ => simp

theorem Spells.plain {isOpen isClose : α → Bool} {tokens : List (Bracketed α)} {items : List α}
    (h : Spells isOpen isClose tokens items) :
    ∀ x ∈ freeItems (gather tokens), isOpen x = false ∧ isClose x = false := by
  induction h with
  | nil => simp [gather, freeItems, flattenAll]
  | @free x tokens items notOpen notClose _ ih =>
    have step : freeItems (gather (.free x :: tokens)) = x :: freeItems (gather tokens) :=
      flatten_consFree [] [] x (gather tokens)
    rw [step]
    intro y member
    rcases List.mem_cons.mp member with rfl | member
    · exact ⟨notOpen, notClose⟩
    · exact ih y member
  | @nested opener closer children tokens inner items _ _ _ _ _ ihInner ih =>
    have step : freeItems (gather (.nested children :: tokens)) =
        freeItems (gather children) ++ freeItems (gather tokens) := freeItems_nested _ _
    rw [step]
    intro y member
    rcases List.mem_append.mp member with member | member
    · exact ihInner y member
    · exact ih y member

end Bracketed

open Bracketed Call

theorem Balanced.join_gather {tokens : List Token} {pairs : List Scanned} (h : Balanced tokens pairs) :
    join ⟨false, '['⟩ ⟨false, ']'⟩ (gather tokens) = pairs := by
  induction h with
  | nil => rfl
  | @free p tokens items _ _ _ ih =>
    rw [← ih]
    exact flatten_consFree _ _ p (gather tokens)
  | @nested opener closer children tokens inner items opening _ closing _ _ ihInner ih =>
    have first : opener = ⟨false, '['⟩ := by simpa [opens] using opening
    have last : closer = ⟨false, ']'⟩ := by simpa [closes] using closing
    rw [← ihInner, ← ih, first, last]
    exact join_nested _ _ (gather children) (gather tokens)

mutual

theorem restore_flatten (tree : Bracketed (List Scanned)) :
    (flatten ['['] [']'] (map restore tree)).flatten =
      restore (flatten [⟨false, '['⟩] [⟨false, ']'⟩] tree).flatten := by
  cases tree with
  | free pairs => simp [map, flatten]
  | nested children =>
    have inner := restore_flattenAll children
    simp [map, flatten, inner]

theorem restore_flattenAll (trees : List (Bracketed (List Scanned))) :
    (flattenAll ['['] [']'] (mapAll restore trees)).flatten =
      restore (flattenAll [⟨false, '['⟩] [⟨false, ']'⟩] trees).flatten := by
  cases trees with
  | nil => rfl
  | cons tree rest =>
    have first := restore_flatten tree
    have later := restore_flattenAll rest
    simp [mapAll, flattenAll, first, later]

end

theorem RunAt.exists_pairs {run before after : List Char} {depth : Nat}
    {runs : List (Bracketed (List Scanned))} (h : RunAt '[' ']' run depth before after (mapAll restore runs)) :
    ∃ left pairs right, RunAt ⟨false, '['⟩ ⟨false, ']'⟩ pairs depth left right runs ∧
      restore left = before ∧ restore pairs = run ∧ restore right = after := by
  generalize shape : mapAll restore runs = trees at h
  induction h generalizing runs with
  | @here rest =>
    cases runs with
    | nil => cases shape
    | cons tree behind =>
      cases tree with
      | nested children => cases shape
      | free pairs =>
        cases shape
        exact ⟨[], pairs, _, .here, rfl, rfl, (restore_flattenAll behind).symm⟩
  | @later depth before after tree rest _ ih =>
    cases runs with
    | nil => cases shape
    | cons first behind =>
      cases shape
      obtain ⟨left, pairs, right, found, rfl, same, rfl⟩ := ih rfl
      refine ⟨_, pairs, right, .later found, ?_, same, rfl⟩
      rw [restore_append]
      exact congrArg (· ++ restore left) (restore_flattenAll [first]).symm
  | @deeper depth before after children rest _ ih =>
    cases runs with
    | nil => cases shape
    | cons first behind =>
      cases first with
      | free pairs => cases shape
      | nested inner =>
        cases shape
        obtain ⟨left, pairs, right, found, rfl, same, rfl⟩ := ih rfl
        refine ⟨_, pairs, _, .deeper found, rfl, same, ?_⟩
        rw [restore_append, restore_cons]
        exact congrArg (fun behind => restore right ++ ']' :: behind) (restore_flattenAll behind).symm

theorem scan_parts {left pairs right : List Scanned} (filled : pairs ≠ [])
    (h : bareMark ∉ (left ++ (pairs ++ right)).dropLast) :
    scan (restore left) = left ∧ scan (restore pairs) = pairs ∧ scan (restore right) = right ∧
      (right ≠ [] → bareMark ∉ pairs) := by
  obtain ⟨behind, inLeft⟩ := notMem_dropLast_append h
  obtain ⟨inRight, inPairs⟩ := notMem_dropLast_append behind
  refine ⟨scan_restore (inLeft (by simp [filled])), ?_, scan_restore_of_dropLast inRight, inPairs⟩
  by_cases last : right = []
  · rw [last, List.append_nil] at behind
    exact scan_restore_of_dropLast behind
  · exact scan_restore (inPairs last)

/-- Grouping a text loses nothing, and each run is read on its own as it is read in the whole text. -/
theorem groupText_aligned {text : List Char} {trees : List Tree} (grouped : groupText text = .ok trees) :
    join '[' ']' trees = text ∧
      ∀ run depth before after, RunAt '[' ']' run depth before after trees →
        run ≠ [] ∧ text = before ++ (run ++ after) ∧
        scan text = scan before ++ (scan run ++ scan after) ∧
        ⟨false, '['⟩ ∉ scan run ∧ ⟨false, ']'⟩ ∉ scan run ∧ (0 < depth → bareMark ∉ scan run) := by
  rcases groupText_cases text with ⟨tokens, balanced, found⟩ | ⟨-, found⟩ | ⟨excess, -, found⟩
  · cases grouped.symm.trans found
    have joined := Balanced.join_gather balanced
    have whole : join '[' ']' (treesOf tokens) = text := by
      refine (restore_flattenAll (gather tokens)).trans ?_
      exact (congrArg restore joined).trans (restore_scan text)
    refine ⟨whole, fun run depth before after place => ?_⟩
    obtain ⟨left, pairs, right, found, rfl, rfl, rfl⟩ := RunAt.exists_pairs place
    have filled := found.ne_nil (Spells.normal balanced)
    have split := found.join_eq
    rw [joined] at split
    have marks := bareMark_notMem_scan text
    rw [split] at marks
    obtain ⟨scanLeft, scanPairs, scanRight, clean⟩ := scan_parts filled marks
    rw [scanLeft, scanPairs, scanRight]
    refine ⟨mt restore_eq_nil.mp filled, ?_, split, ?_, ?_, ?_⟩
    · exact whole.symm.trans place.join_eq
    · intro member
      exact absurd (Spells.plain balanced _ (found.subset_freeItems member)).1 (by decide)
    · intro member
      exact absurd (Spells.plain balanced _ (found.subset_freeItems member)).2 (by decide)
    · exact fun inside => clean (found.after_ne_nil inside)
  · cases grouped.symm.trans found
  · cases grouped.symm.trans found

theorem groupText_aligned_marks :
    groupText ['a', '\\', '[', '[', '\\', '\\', '[', 'b', ']', '\\', ']', ']', '\\'] =
        .ok [free ['a', '\\', '['], nested [free ['\\', '\\'], nested [free ['b']], free ['\\', ']']],
          free ['\\']] ∧
      scan ['a', '\\', '[', '[', '\\', '\\', '[', 'b', ']', '\\', ']', ']', '\\'] =
        scan ['a', '\\', '[', '['] ++ (scan ['\\', '\\'] ++
          scan ['[', 'b', ']', '\\', ']', ']', '\\']) := by
  have grouped : groupText ['a', '\\', '[', '[', '\\', '\\', '[', 'b', ']', '\\', ']', ']', '\\'] =
      .ok [free ['a', '\\', '['], nested [free ['\\', '\\'], nested [free ['b']], free ['\\', ']']],
        free ['\\']] := rfl
  obtain ⟨-, runs⟩ := groupText_aligned grouped
  obtain ⟨-, -, aligned, -⟩ := runs _ _ _ _ (.later (.deeper .here))
  exact ⟨grouped, aligned⟩

end BracketMarkup
