import BracketMarkup.Proofs.Bodies

namespace BracketMarkup

namespace Bracketed

variable {α : Type} {isOpen isClose : α → Bool}

def stepDepth (isOpen isClose : α → Bool) (depth : Nat) (x : α) : Option Nat :=
  if isOpen x then some (depth + 1)
  else if isClose x then (if depth = 0 then none else some (depth - 1))
  else some depth

/-- How many pairs are open at the end of a stream, if so many are open where it starts. -/
def depthAfter (isOpen isClose : α → Bool) (depth : Nat) (items : List α) : Option Nat :=
  items.foldlM (stepDepth isOpen isClose) depth

theorem depthAfter_cons (depth : Nat) (x : α) (rest : List α) :
    depthAfter isOpen isClose depth (x :: rest) =
      (stepDepth isOpen isClose depth x).bind (depthAfter isOpen isClose · rest) := rfl

theorem stepDepth_opener {x : α} (opens : isOpen x = true) (depth : Nat) :
    stepDepth isOpen isClose depth x = some (depth + 1) := if_pos opens

theorem stepDepth_closer {x : α} (notOpen : isOpen x = false) (closes : isClose x = true) (depth : Nat) :
    stepDepth isOpen isClose depth x = if depth = 0 then none else some (depth - 1) := by
  simp [stepDepth, notOpen, closes]

theorem stepDepth_free {x : α} (notOpen : isOpen x = false) (notClose : isClose x = false) (depth : Nat) :
    stepDepth isOpen isClose depth x = some depth := by
  simp [stepDepth, notOpen, notClose]

theorem stepDepth_add {depth reached : Nat} {x : α} (h : stepDepth isOpen isClose depth x = some reached)
    (more : Nat) : stepDepth isOpen isClose (depth + more) x = some (reached + more) := by
  rcases opener_closer_or_free isOpen isClose x with
    ⟨opens, -⟩ | ⟨notOpen, closes, -⟩ | ⟨notOpen, notClose, -⟩
  · rw [stepDepth_opener opens] at h ⊢
    cases h
    rw [Nat.add_right_comm]
  · rw [stepDepth_closer notOpen closes] at h ⊢
    split at h
    · cases h
    · cases h
      rw [if_neg (by omega)]
      congr 1
      omega
  · rw [stepDepth_free notOpen notClose] at h ⊢
    cases h
    rfl

theorem depthAfter_add {depth reached : Nat} {items : List α}
    (h : depthAfter isOpen isClose depth items = some reached) (more : Nat) :
    depthAfter isOpen isClose (depth + more) items = some (reached + more) := by
  induction items generalizing depth with
  | nil =>
    cases h
    rfl
  | cons x rest ih =>
    rw [depthAfter_cons] at h ⊢
    obtain ⟨next, step, later⟩ := Option.bind_eq_some_iff.mp h
    rw [stepDepth_add step more]
    exact ih later

theorem depthAfter_eq_levels (depth : Nat) (items : List α) :
    depthAfter isOpen isClose depth items =
      if depth < (levels isOpen isClose items).outer.length then none
      else some (depth - (levels isOpen isClose items).outer.length +
        (levels isOpen isClose items).unclosed) := by
  induction items generalizing depth with
  | nil => rfl
  | cons x rest ih =>
    rw [depthAfter_cons]
    rcases after : levels isOpen isClose rest with ⟨here, outer, unclosed⟩
    simp only [after] at ih
    rcases opener_closer_or_free isOpen isClose x with
      ⟨opens, -⟩ | ⟨notOpen, closes, -⟩ | ⟨notOpen, notClose, -⟩
    · rw [stepDepth_opener opens, Option.bind_some, ih]
      cases outer with
      | nil =>
        rw [levels_opener_unclosed opens after]
        simp only [List.length_nil, Nat.not_lt_zero, if_false]
        congr 1
        omega
      | cons trees outer =>
        rw [levels_opener opens after]
        simp only [List.length_cons, Nat.add_lt_add_iff_right, Nat.add_sub_add_right]
    · rw [stepDepth_closer notOpen closes, levels_closer notOpen closes, after]
      cases depth with
      | zero => simp
      | succ depth =>
        simp only [Nat.add_one_ne_zero, if_false, Option.bind_some, ih, Nat.add_one_sub_one,
          List.length_cons, Nat.add_lt_add_iff_right, Nat.add_sub_add_right]
    · rw [stepDepth_free notOpen notClose, Option.bind_some, ih, levels_free notOpen notClose, after]

theorem group_ok_iff_depth (items : List α) :
    (∃ trees, group isOpen isClose items = .ok trees) ↔ depthAfter isOpen isClose 0 items = some 0 := by
  rw [depthAfter_eq_levels, group]
  rcases levels isOpen isClose items with ⟨here, outer, unclosed⟩
  cases outer with
  | nil => cases unclosed <;> simp
  | cons trees outer => simp

theorem group_openers_of_depth {items : List α} {count : Nat}
    (h : depthAfter isOpen isClose 0 items = some (count + 1)) :
    group isOpen isClose items = .error (.openers (count + 1)) := by
  rw [depthAfter_eq_levels] at h
  rw [group]
  rcases shape : levels isOpen isClose items with ⟨here, outer, unclosed⟩
  rw [shape] at h
  cases outer with
  | nil =>
    simp only [List.length_nil, Nat.not_lt_zero, if_false, Nat.sub_zero, Nat.zero_add] at h
    cases h
    rfl
  | cons trees outer => simp at h

end Bracketed

open Bracketed

def nesting (depth : Nat) (text : List Char) : Option Nat := depthAfter opens closes depth (scan text)

theorem groupText_ok_iff_nesting (text : List Char) :
    (∃ trees, groupText text = .ok trees) ↔ nesting 0 text = some 0 := by
  rw [nesting, ← group_ok_iff_depth]
  cases grouped : group opens closes (scan text) with
  | error fault => simp [groupText_error grouped]
  | ok runs =>
    have found : group (· == ⟨false, '['⟩) (· == ⟨false, ']'⟩) (scan text) = .ok runs := grouped
    simp [groupText, found]

theorem groupText_of_nesting {text : List Char} {count : Nat} (h : nesting 0 text = some (count + 1)) :
    groupText text = .error (.unclosed (count + 1)) :=
  groupText_error (group_openers_of_depth h)

theorem nesting_plain {c : Char} (plain : c ≠ escapeMark) (depth : Nat) (rest : List Char) :
    nesting depth (c :: rest) =
      (stepDepth opens closes depth ⟨false, c⟩).bind (nesting · rest) := by
  rw [nesting, scan_plain_cons plain]
  rfl

theorem nesting_escaped (depth : Nat) (c : Char) (rest : List Char) :
    nesting depth (escapeMark :: c :: rest) = nesting depth rest := by
  rw [nesting, scan_escaped_cons]
  rfl

theorem nesting_append_line (depth : Nat) (line rest : List Char) :
    nesting depth (line ++ '\n' :: rest) = (nesting depth line).bind (nesting · rest) := by
  induction line using scan_induction generalizing depth with
  | empty => exact nesting_plain (by decide) depth rest
  | bare => exact nesting_escaped depth '\n' rest
  | escaped c line ih => rw [List.cons_append, List.cons_append, nesting_escaped, nesting_escaped, ih]
  | plain c line plain ih =>
    rw [List.cons_append, nesting_plain plain, nesting_plain plain, Option.bind_assoc]
    exact Option.bind_congr fun next _ => ih next

theorem nesting_unlines (depth : Nat) (lines : List (List Char)) :
    nesting depth (unlines lines) = lines.foldlM nesting depth := by
  induction lines generalizing depth with
  | nil => rfl
  | cons line rest ih =>
    by_cases last : rest = []
    · subst last
      rw [unlines_singleton, List.foldlM_cons]
      exact (Option.bind_fun_some _).symm
    · rw [unlines_cons line last, nesting_append_line, List.foldlM_cons]
      exact Option.bind_congr fun next _ => ih next

theorem nesting_concat_closer (depth : Nat) (text : List Char) :
    nesting depth (text ++ [']']) =
      if endsEscaped text then nesting depth text
      else (nesting depth text).bind (stepDepth opens closes · ⟨false, ']'⟩) := by
  induction text using scan_induction generalizing depth with
  | empty => exact (nesting_plain (by decide) depth []).trans (Option.bind_fun_some _)
  | bare => exact nesting_escaped depth ']' []
  | escaped c rest ih =>
    rw [List.cons_append, List.cons_append, nesting_escaped, nesting_escaped, endsEscaped_escaped, ih]
  | plain c rest plain ih =>
    rw [List.cons_append, nesting_plain plain, nesting_plain plain, endsEscaped_plain plain]
    split
    · rename_i escaped
      exact Option.bind_congr fun next _ => by rw [ih, if_pos escaped]
    · rename_i whole
      rw [Option.bind_assoc]
      exact Option.bind_congr fun next _ => by rw [ih, if_neg whole]

/-- A line that is a call and ends in a mark, which escapes the bracket that is to close the call. -/
def isTorn (line : List Char) : Bool := line.head? == some '.' && endsEscaped line

theorem nesting_desugarLine {depth reached : Nat} {line : List Char}
    (h : nesting depth line = some reached) (more : Nat) :
    nesting (depth + more) (desugarLine line) = some (reached + (more + if isTorn line then 1 else 0)) := by
  by_cases isCall : line.head? = some '.'
  · obtain ⟨call, rfl⟩ := List.head?_eq_some_iff.mp isCall
    have inside : nesting (depth + more + 1) call = some (reached + more + 1) := by
      have whole : nesting depth call = some reached := (nesting_plain (by decide) depth call).symm.trans h
      exact depthAfter_add whole (more + 1)
    have opened : nesting (depth + more) (desugarLine ('.' :: call)) =
        nesting (depth + more + 1) (call ++ [']']) := nesting_plain (by decide) _ _
    have torn : isTorn ('.' :: call) = endsEscaped call := by
      rw [isTorn, endsEscaped_plain (by decide)]
      rfl
    rw [opened, nesting_concat_closer, inside, torn]
    cases endsEscaped call <;> rfl
  · have whole : isTorn line = false := by
      rw [isTorn, beq_eq_false_iff_ne.mpr isCall, Bool.false_and]
    rw [desugarLine_other isCall, whole]
    exact depthAfter_add h more

theorem nesting_desugared {depth reached : Nat} {lines : List (List Char)}
    (h : lines.foldlM nesting depth = some reached) (more : Nat) :
    (lines.map desugarLine).foldlM nesting (depth + more) =
      some (reached + (more + lines.countP isTorn)) := by
  induction lines generalizing depth more with
  | nil =>
    cases h
    rfl
  | cons line rest ih =>
    obtain ⟨next, first, later⟩ := Option.bind_eq_some_iff.mp h
    rw [List.map_cons, List.foldlM_cons, nesting_desugarLine first more, List.countP_cons,
      Nat.add_comm (rest.countP isTorn), ← Nat.add_assoc more]
    exact ih later _

theorem nesting_desugar {body : List Char} (h : nesting 0 body = some 0) :
    nesting 0 (desugar body) = some ((linesOf body).countP isTorn) := by
  rw [← unlines_linesOf body, nesting_unlines] at h
  rw [desugar, nesting_unlines]
  simpa using nesting_desugared h 0

/-- In a body with its brackets in pairs a call line is closed by its own bracket, unless the line ends
    in a mark that escapes it: these are the calls that are then never closed. -/
theorem call_lines_closed {text body : List Char} {metadata : Bindings} {trees : List Tree}
    (separated : separate text = .ok (metadata, body)) (grouped : groupText body = .ok trees) :
    ((∃ runs, groupText (desugar body) = .ok runs) ↔
      ∀ line ∈ linesOf body, line.head? = some '.' → endsEscaped line = false) ∧
    ∀ count, (linesOf body).countP isTorn = count + 1 →
      groupText (desugar body) = .error (.unclosed (count + 1)) ∧
        Document.parse text = .error (.unclosed (count + 1)) := by
  have depth := nesting_desugar ((groupText_ok_iff_nesting body).mp ⟨trees, grouped⟩)
  constructor
  · rw [groupText_ok_iff_nesting, depth, Option.some.injEq, List.countP_eq_zero]
    simp [isTorn]
  · intro count torn
    have unclosed := groupText_of_nesting (depth.trans (congrArg some torn))
    refine ⟨unclosed, ?_⟩
    rw [Document.parse, separated]
    simp only [Except.mapError, Bind.bind, Except.bind, unclosed]

theorem call_lines_closed_crossing :
    separate ['.', 'a', ' ', '[', 'b', '\n', '.', 'c', ']', '\\', '\\'] =
        .ok ([], ['.', 'a', ' ', '[', 'b', '\n', '.', 'c', ']', '\\', '\\']) ∧
      ∃ runs, groupText (desugar ['.', 'a', ' ', '[', 'b', '\n', '.', 'c', ']', '\\', '\\']) = .ok runs := by
  have separated : separate ['.', 'a', ' ', '[', 'b', '\n', '.', 'c', ']', '\\', '\\'] =
      .ok ([], ['.', 'a', ' ', '[', 'b', '\n', '.', 'c', ']', '\\', '\\']) := by cbv
  have grouped : groupText ['.', 'a', ' ', '[', 'b', '\n', '.', 'c', ']', '\\', '\\'] =
      .ok [.free ['.', 'a', ' '], .nested [.free ['b', '\n', '.', 'c']], .free ['\\', '\\']] := rfl
  exact ⟨separated, (call_lines_closed separated grouped).1.mpr (by decide)⟩

theorem call_line_torn :
    separate ['.', 'p', ' ', 'a', '\\'] = .ok ([], ['.', 'p', ' ', 'a', '\\']) ∧
      groupText ['.', 'p', ' ', 'a', '\\'] = .ok [.free ['.', 'p', ' ', 'a', '\\']] ∧
      groupText (desugar ['.', 'p', ' ', 'a', '\\']) = .error (.unclosed 1) := by
  refine ⟨by cbv, rfl, by cbv⟩

end BracketMarkup
