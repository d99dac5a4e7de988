import BracketMarkup.Proofs.Agreement
import BracketMarkup.Proofs.Bodies
import BracketMarkup.Proofs.References

namespace BracketMarkup

theorem takeWhile_ne_append_cons {α : Type} [DecidableEq α] (x : α) (front rest : List α) :
    (front ++ x :: rest).takeWhile (· ≠ x) = front.takeWhile (· ≠ x) := by
  induction front with
  | nil => simp
  | cons y front ih =>
    rw [List.cons_append, List.takeWhile_cons, List.takeWhile_cons, ih]

theorem stripComment_append {line : List Char} (complete : endsEscaped line = false)
    (comment : List Char) : stripComment (line ++ '#' :: comment) = stripComment line := by
  rw [stripComment_eq, stripComment_eq, scan_append_of_complete ((complete_iff line).mpr complete),
    scan_plain_cons (by decide)]
  exact congrArg restore (takeWhile_ne_append_cons commentMark (scan line) (scan comment))

theorem keptLine?_append {line : List Char} (filled : line ≠ []) (complete : endsEscaped line = false)
    (comment : List Char) : keptLine? (line ++ '#' :: comment) = keptLine? line := by
  have stripped := stripComment_append complete comment
  have starts : (line ++ '#' :: comment).head? = line.head? := List.head?_append_of_ne_nil line filled
  rw [keptLine?, keptLine?, starts]
  by_cases commented : '#' ∈ line
  · have inside : '#' ∈ line ++ '#' :: comment := by simp
    rw [bodyLine?, bodyLine?, if_pos commented, if_pos inside, stripped]
  · -- Without a comment before, the whole line is what the new comment leaves.
    have whole : stripComment line = line := by
      rw [stripComment, List.splitOn_eq_singleton commented]
      rfl
    rw [bodyLine?_of_stripped (by rwa [stripped, whole]), stripped,
      bodyLine?_of_stripped (by rwa [whole])]

theorem keptLine?_comment (comment : List Char) : keptLine? ('#' :: comment) = none := by
  have stripped : stripComment ([] ++ '#' :: comment) = [] := stripComment_append rfl comment
  rw [List.nil_append] at stripped
  rw [keptLine?, if_neg (by simp), bodyLine?, if_pos (by simp), if_pos stripped]

theorem unbroken_insert {front comment behind : List Char} (unbroken : Unbroken front)
    (unbrokenBehind : Unbroken behind) (whole : '\n' ∉ comment)
    (ends : comment.getLast? ≠ some escapeMark) :
    Unbroken (front ++ (('#' :: comment) ++ behind)) := by
  have mark : '#' ≠ '\n' := by decide
  have wholeMarked : '\n' ∉ '#' :: comment := by simpa using whole
  refine List.isChain_append.mpr ⟨unbroken, List.isChain_append.mpr
    ⟨unbroken_of_whole wholeMarked, unbrokenBehind, ?_⟩, ?_⟩
  · rintro last found - - ⟨rfl, -⟩
    cases comment with
    | nil => simp [escapeMark] at found
    | cons c comment => exact ends (by simpa [List.getLast?_cons_cons] using found)
  · rintro - - next starts ⟨-, lineFeed⟩
    cases starts
    exact mark lineFeed

section Comment

variable {line comment : List Char} {before after : List (List Char)}
  (unbroken : Unbroken (unlines (before ++ line :: after))) (whole : '\n' ∉ comment)
  (ends : comment.getLast? ≠ some escapeMark)
include unbroken whole ends

theorem unbroken_appended : Unbroken (unlines (before ++ (line ++ '#' :: comment) :: after)) := by
  have cut := unlines_append before line [] after
  rw [List.append_nil] at cut
  rw [cut] at unbroken
  obtain ⟨front, behind, -⟩ := List.isChain_append.mp unbroken
  have written := unlines_front ('#' :: comment) [] after
  rw [List.append_nil] at written
  rw [unlines_append, written]
  exact unbroken_insert front behind whole ends

theorem unbroken_inserted : Unbroken (unlines (before ++ ('#' :: comment) :: line :: after)) := by
  have cut := unlines_append before [] line after
  rw [List.nil_append] at cut
  rw [cut] at unbroken
  obtain ⟨front, behind, -⟩ := List.isChain_append.mp unbroken
  have broken : Unbroken ('\n' :: unlines (line :: after)) :=
    List.isChain_cons.mpr ⟨fun _ _ impossible => absurd impossible.1 (by decide), behind⟩
  have written := unlines_append before [] ('#' :: comment) (line :: after)
  rw [List.nil_append, unlines_cons _ (List.cons_ne_nil _ _)] at written
  rw [written]
  exact unbroken_insert front broken whole ends

end Comment

/-- A comment behind a line, or on a line of its own before another, is not seen: the document is the same,
    or the error is of the same kind. -/
theorem parse_commented {text line comment : List Char} {before after : List (List Char)}
    (unbroken : Unbroken text) (whole : '\n' ∉ comment) (ends : comment.getLast? ≠ some escapeMark)
    (lines : linesOf text = before ++ line :: after) :
    (line ≠ [] → line.head? ≠ some '!' → endsEscaped line = false →
      (Document.parse (unlines (before ++ (line ++ '#' :: comment) :: after))).mapError ParseError.kind =
        (Document.parse text).mapError ParseError.kind) ∧
    (Document.parse (unlines (before ++ ('#' :: comment) :: line :: after))).mapError ParseError.kind =
      (Document.parse text).mapError ParseError.kind := by
  have logical : logicalLines text = before ++ line :: after := by
    rw [logicalLines, joinContinued_of_unbroken unbroken, lines]
  have wholeLines : ∀ other ∈ before ++ line :: after, '\n' ∉ other :=
    fun _ member found => (mem_of_mem_linesOf (lines ▸ member) found).2 rfl
  rw [← unlines_linesOf text, lines] at unbroken
  simp only [List.forall_mem_append, List.forall_mem_cons] at wholeLines
  obtain ⟨wholeBefore, wholeLine, wholeAfter⟩ := wholeLines
  constructor
  · -- The line is kept as it was without the comment.
    intro filled starts complete
    have unmarked : Unmarked [line] := by simpa [Unmarked] using starts
    have unmarkedCommented : Unmarked [line ++ '#' :: comment] := by
      simpa [Unmarked, List.head?_append_of_ne_nil line filled] using starts
    have commented := logicalLines_unlines (unbroken_appended unbroken whole ends)
      (by simpa [List.forall_mem_append, or_imp, forall_and] using
        ⟨wholeBefore, ⟨wholeLine, whole⟩, wholeAfter⟩) (by simp)
    apply parse_replaced unmarked unmarkedCommented logical commented
    rw [List.filterMap_cons, List.filterMap_cons, keptLine?_append filled complete]
  · -- The new line is dropped.
    have unmarked : Unmarked [] := by simp [Unmarked]
    have unmarkedComment : Unmarked ['#' :: comment] := by simp [Unmarked]
    have commented := logicalLines_unlines (unbroken_inserted unbroken whole ends)
      (by simpa [List.forall_mem_append, or_imp, forall_and] using
        ⟨wholeBefore, whole, wholeLine, wholeAfter⟩) (by simp)
    apply parse_replaced unmarked unmarkedComment logical commented
    exact List.filterMap_cons_none (keptLine?_comment comment)

theorem parse_commented_block :
    linesOf ['[', 'b', '\x7b', '\n', 'k', '=', 'v', '\n', '\x7d', 'x', ']'] =
        [['[', 'b', '\x7b']] ++ ['k', '=', 'v'] :: [['\x7d', 'x', ']']] ∧
      (Document.parse ['[', 'b', '\x7b', '\n', 'k', '=', 'v', '#', ']', '\n', '\x7d', 'x', ']']).mapError
          ParseError.kind =
        (Document.parse ['[', 'b', '\x7b', '\n', 'k', '=', 'v', '\n', '\x7d', 'x', ']']).mapError
          ParseError.kind ∧
      (Document.parse
          ['[', 'b', '\x7b', '\n', '#', ']', '\n', 'k', '=', 'v', '\n', '\x7d', 'x', ']']).mapError
          ParseError.kind =
        (Document.parse ['[', 'b', '\x7b', '\n', 'k', '=', 'v', '\n', '\x7d', 'x', ']']).mapError
          ParseError.kind := by
  have lines : linesOf ['[', 'b', '\x7b', '\n', 'k', '=', 'v', '\n', '\x7d', 'x', ']'] =
      [['[', 'b', '\x7b']] ++ ['k', '=', 'v'] :: [['\x7d', 'x', ']']] := by cbv
  have comment : '\n' ∉ [']'] ∧ [']'].getLast? ≠ some escapeMark := by decide
  obtain ⟨appended, inserted⟩ := parse_commented (by decide) comment.1 comment.2 lines
  exact ⟨lines, appended (by decide) (by decide) (by decide), inserted⟩

end BracketMarkup
