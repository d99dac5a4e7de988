import BracketMarkup.Proofs.Continuation

namespace BracketMarkup

/-- The number of the line on which a text ends. What follows the text begins on this line. -/
def lineNumber (front : List Char) : Nat := (linesOf front).length

theorem lineNumber_eq_count (text : List Char) : lineNumber text = text.count '\n' + 1 := by
  induction text with
  | nil => rfl
  | cons c rest ih =>
    rw [lineNumber] at ih ⊢
    rw [linesOf_cons, List.count_cons]
    split
    · rename_i lineFeed
      simp [lineFeed, ih]
    · rename_i other
      simp [other, ih]

theorem lineNumber_intercalate (first : List Char) (more : List (List Char)) :
    lineNumber ([escapeMark, '\n'].intercalate (first :: more)) =
      lineNumber (first :: more).flatten + more.length := by
  simp only [lineNumber_eq_count]
  induction more generalizing first with
  | nil => simp
  | cons next more ih =>
    have mark : escapeMark ≠ '\n' := by decide
    rw [List.intercalate_cons_cons, List.flatten_cons, List.count_append, List.count_append,
      List.count_append, List.length_cons]
    have later := ih next
    have pair : [escapeMark, '\n'].count '\n' = 1 := by decide
    omega

theorem exists_place {text kept more : List Char} {c : Char}
    (h : joinContinued text = kept ++ c :: more) :
    ∃ front behind, text = front ++ c :: behind ∧ joinContinued front = kept ∧
      joinContinued (c :: behind) = c :: more := by
  fun_induction joinContinued text generalizing kept with
  | case1 => simp at h
  | case2 d =>
    cases kept with
    | nil =>
      cases h
      exact ⟨[], [], rfl, rfl, rfl⟩
    | cons e kept => simp at h
  | case3 d e rest broken ih =>
    obtain ⟨rfl, rfl⟩ := broken
    obtain ⟨front, behind, rfl, joined, following⟩ := ih h
    exact ⟨escapeMark :: '\n' :: front, behind, rfl, (joinContinued_continuation front).trans joined,
      following⟩
  | case4 d e rest whole ih =>
    cases kept with
    | nil =>
      obtain ⟨rfl, later⟩ := List.cons.inj h
      refine ⟨[], e :: rest, rfl, rfl, ?_⟩
      rw [joinContinued_cons (by simpa using whole), later]
    | cons d' kept =>
      obtain ⟨rfl, later⟩ := List.cons.inj h
      obtain ⟨front, behind, shape, joined, following⟩ := ih later
      refine ⟨d :: front, behind, congrArg (d :: ·) shape, ?_, following⟩
      rw [joinContinued_cons, joined]
      rintro ⟨mark, next⟩
      obtain ⟨front, rfl⟩ := List.head?_eq_some_iff.mp next
      exact whole ⟨mark, (List.cons.inj shape).1⟩

theorem exists_line_start {text more : List Char} {c : Char} {before after : List (List Char)}
    (lines : logicalLines text = before ++ (c :: more) :: after) :
    ∃ front behind, text = front ++ c :: behind ∧ logicalLines front = before ++ [[]] ∧
      logicalLines (c :: behind) = (c :: more) :: after := by
  have whole : ∀ line ∈ before ++ (c :: more) :: after, '\n' ∉ line :=
    fun line member => whole_of_mem_logicalLines (lines ▸ member)
  have joined : joinContinued text = unlines (before ++ [[]]) ++ c :: unlines (more :: after) := by
    rw [← unlines_linesOf (joinContinued text), ← logicalLines, lines]
    exact (unlines_append before [] (c :: more) after).trans
      (congrArg (unlines (before ++ [[]]) ++ ·) (unlines_front [c] more after))
  obtain ⟨front, behind, shape, kept, following⟩ := exists_place joined
  refine ⟨front, behind, shape, ?_, ?_⟩
  · rw [logicalLines, kept, linesOf_unlines _ (by simp)]
    intro line member
    rcases List.mem_append.mp member with member | member
    · exact whole line (List.mem_append_left _ member)
    · rw [List.mem_singleton.mp member]
      exact List.not_mem_nil
  · have behindLines : c :: unlines (more :: after) = unlines ((c :: more) :: after) :=
      (unlines_front [c] more after).symm
    rw [logicalLines, following, behindLines, linesOf_unlines _ (List.cons_ne_nil _ _)]
    exact fun line member => whole line (List.mem_append_right _ member)

theorem exists_of_separate_error {text line : List Char} {number : Nat}
    (h : separate text = .error ⟨number, line⟩) : ∃ before after,
      logicalLines text = before ++ line :: after ∧ Malformed line ∧ number = before.length + 1 := by
  rcases first_or_none Malformed (logicalLines text) with
    headed | ⟨before, found, after, lines, none, malformed⟩
  · rw [separate_ok headed] at h
    cases h
  · rw [separate_error lines none malformed] at h
    cases h
    exact ⟨before, after, lines, malformed, rfl⟩

/-- A bad metadata line is reported with its number among the joined lines. It begins so many lines
    further down in the text as line feeds before it were joined away, and where it is reported just if
    there was none. -/
theorem bad_metadata_begins {text line : List Char} {number : Nat}
    (h : separate text = .error ⟨number, line⟩) :
    ∃ front behind before after, text = front ++ '!' :: behind ∧ logicalLines front = before ++ [[]] ∧
      logicalLines ('!' :: behind) = line :: after ∧ number = before.length + 1 ∧
      (∃ first more, front = [escapeMark, '\n'].intercalate (first :: more) ∧
        (∀ part ∈ first :: more, Unbroken part) ∧ lineNumber front = number + more.length) ∧
      (number = lineNumber front ↔ Unbroken front) := by
  obtain ⟨before, after, lines, malformed, rfl⟩ := exists_of_separate_error h
  obtain ⟨more, rfl⟩ := List.head?_eq_some_iff.mp malformed.1
  obtain ⟨front, behind, shape, frontLines, behindLines⟩ := exists_line_start lines
  have joined : before.length + 1 = lineNumber (joinContinued front) := by
    rw [lineNumber, ← logicalLines, frontLines, List.length_append, List.length_singleton]
  obtain ⟨first, parts, cut, unbroken, flat⟩ := exists_first_unbroken_part front
  have number : lineNumber front = before.length + 1 + parts.length := by
    rw [joined, flat, cut, lineNumber_intercalate]
  refine ⟨front, behind, before, after, shape, frontLines, behindLines, rfl,
    ⟨first, parts, cut, unbroken, number⟩, fun same => ?_, fun whole => ?_⟩
  · have none : parts = [] := List.eq_nil_of_length_eq_zero (by omega)
    subst none
    rw [cut, List.intercalate_singleton]
    exact unbroken first (by simp)
  · rw [joined, joinContinued_of_unbroken whole]

theorem bad_metadata_begins_below :
    separate ['!', 'k', ' ', '\\', '\n', 'v', '\n', 'a', '\n', '!', '\\', '\n', 'x'] = .error ⟨3, ['!', 'x']⟩ ∧
      ∃ front behind, ['!', 'k', ' ', '\\', '\n', 'v', '\n', 'a', '\n', '!', '\\', '\n', 'x'] =
        front ++ '!' :: behind ∧ (3 = lineNumber front ↔ Unbroken front) := by
  have reported : separate ['!', 'k', ' ', '\\', '\n', 'v', '\n', 'a', '\n', '!', '\\', '\n', 'x'] =
      .error ⟨3, ['!', 'x']⟩ := by cbv
  obtain ⟨front, behind, -, -, shape, -, -, -, -, exact⟩ := bad_metadata_begins reported
  exact ⟨reported, front, behind, shape, exact⟩

theorem bad_metadata_misplaced :
    separate ['a', '\\', '\n', 'b', '\n', '!', 'x'] = .error ⟨2, ['!', 'x']⟩ ∧
      linesOf ['a', '\\', '\n', 'b', '\n', '!', 'x'] = [['a', '\\'], ['b'], ['!', 'x']] ∧
      lineNumber ['a', '\\', '\n', 'b', '\n'] = 3 := by
  refine ⟨by cbv, by decide, by decide⟩

end BracketMarkup
