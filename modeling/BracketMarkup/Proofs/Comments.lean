import BracketMarkup.Proofs.Preamble

namespace BracketMarkup

def commentMark : Scanned := ⟨false, '#'⟩

theorem endsEscaped_plain {c : Char} (plain : c ≠ escapeMark) (rest : List Char) :
    endsEscaped (c :: rest) = endsEscaped rest := by
  rw [endsEscaped, endsEscaped, List.reverse_cons, List.takeWhile_append]
  split
  · rename_i whole
    rw [List.takeWhile_cons_of_neg (by simpa using plain), List.append_nil, whole]
  · rfl

theorem endsEscaped_escaped (c : Char) (rest : List Char) :
    endsEscaped (escapeMark :: c :: rest) = endsEscaped rest := by
  rw [endsEscaped, endsEscaped, List.reverse_cons, List.reverse_cons, List.append_assoc,
    List.takeWhile_append]
  split
  · rename_i whole
    rw [whole, List.length_append]
    by_cases mark : c = escapeMark
    · simp [mark, Nat.add_mod_right]
    · simp [mark]
  · rfl

theorem endsEscaped_iff (s : List Char) : endsEscaped s = true ↔ (scan s).getLast? = some bareMark := by
  induction s using scan_induction with
  | empty => simp [endsEscaped]
  | bare => exact ⟨fun _ => rfl, fun _ => rfl⟩
  | escaped c rest ih =>
    rw [endsEscaped_escaped, ih, scan_escaped_cons]
    cases scan rest with
    | nil => simp [bareMark]
    | cons p pairs => rw [List.getLast?_cons_cons]
  | plain c rest plain ih =>
    rw [endsEscaped_plain plain, ih, scan_plain_cons plain]
    cases scan rest with
    | nil => simpa [bareMark] using plain
    | cons p pairs => rw [List.getLast?_cons_cons]

theorem endsEscaped_write_append {p : Scanned} (h : p ≠ bareMark) (part : List Char) :
    endsEscaped (p.write ++ part) = endsEscaped part := by
  obtain ⟨escaped, c⟩ := p
  cases escaped with
  | true => exact endsEscaped_escaped c part
  | false => exact endsEscaped_plain (fun same => h (congrArg (Scanned.mk false) same)) part

theorem uncommented_write_append {p : Scanned} (h : p ≠ bareMark) (part : List Char)
    (parts : List (List Char)) :
    uncommented ((p.write ++ part) :: parts) = p.write ++ uncommented (part :: parts) := by
  cases parts with
  | nil => rfl
  | cons next rest =>
    rw [uncommented, uncommented, endsEscaped_write_append h]
    split
    · rw [List.append_assoc]
    · rfl

theorem splitOn_append_of_notMem {c : Char} {front : List Char} (h : c ∉ front) (rest : List Char) :
    (front ++ rest).splitOn c = (rest.splitOn c).modifyHead (front ++ ·) := by
  rw [splitOn_eq_cuts, splitOn_eq_cuts]
  refine cuts_append (fun d member => ?_) rest
  rw [beq_eq_false_iff_ne]
  rintro rfl
  exact h member

theorem uncommented_write {p : Scanned} (h : p ≠ bareMark) (free : '#' ∉ p.write) (rest : List Char) :
    uncommented ((p.write ++ rest).splitOn '#') = p.write ++ uncommented (rest.splitOn '#') := by
  rw [splitOn_append_of_notMem free]
  obtain ⟨part, parts, shape⟩ := List.exists_cons_of_ne_nil (List.splitOn_ne_nil '#' rest)
  rw [shape]
  exact uncommented_write_append h part parts

theorem stripComment_eq (line : List Char) :
    stripComment line = restore ((scan line).takeWhile (· ≠ commentMark)) := by
  unfold stripComment
  induction line using scan_induction with
  | empty => rfl
  | bare => rfl
  | escaped c rest ih =>
    rw [scan_escaped_cons, List.takeWhile_cons_of_pos (by simp [commentMark]), restore_cons, ← ih]
    by_cases comment : c = '#'
    · subst comment
      have cut : (escapeMark :: '#' :: rest).splitOn '#' = [escapeMark] :: rest.splitOn '#' :=
        List.splitOn_append_cons_self_of_not_mem (show '#' ∉ [escapeMark] by decide) rest
      obtain ⟨part, parts, shape⟩ := List.exists_cons_of_ne_nil (List.splitOn_ne_nil '#' rest)
      rw [cut, shape]
      rfl
    · have free : '#' ∉ (⟨true, c⟩ : Scanned).write := by
        simpa [escapeMark] using Ne.symm comment
      exact uncommented_write (by simp [bareMark]) free rest
  | plain c rest plain ih =>
    rw [scan_plain_cons plain]
    by_cases comment : c = '#'
    · subst comment
      have cut : ('#' :: rest).splitOn '#' = [] :: rest.splitOn '#' :=
        List.splitOn_append_cons_self_of_not_mem (show '#' ∉ [] by simp) rest
      obtain ⟨part, parts, shape⟩ := List.exists_cons_of_ne_nil (List.splitOn_ne_nil '#' rest)
      rw [cut, shape]
      rfl
    · rw [List.takeWhile_cons_of_pos (by simpa [commentMark] using comment), restore_cons, ← ih]
      have free : '#' ∉ (⟨false, c⟩ : Scanned).write := by simpa using Ne.symm comment
      exact uncommented_write (fun same => plain (congrArg Scanned.char same)) free rest

theorem linesOf_broken {p : Scanned} (broken : '\n' ∈ p.write) (pairs : List Scanned) :
    ∃ line, linesOf (restore (p :: pairs)) = line :: linesOf (restore pairs) ∧
      ∀ q ∈ scan line, q = bareMark := by
  obtain ⟨escaped, c⟩ := p
  cases escaped with
  | true =>
    have same : c = '\n' := by simpa [escapeMark, eq_comm] using broken
    subst same
    have cut : (escapeMark :: '\n' :: restore pairs).splitOn '\n' =
        [escapeMark] :: (restore pairs).splitOn '\n' :=
      List.splitOn_append_cons_self_of_not_mem (show '\n' ∉ [escapeMark] by decide) _
    exact ⟨[escapeMark], cut, by simp [scan, scanWith, bareMark]⟩
  | false =>
    have same : c = '\n' := by simpa [eq_comm] using broken
    subst same
    have cut : ('\n' :: restore pairs).splitOn '\n' = [] :: (restore pairs).splitOn '\n' :=
      List.splitOn_append_cons_self_of_not_mem (show '\n' ∉ [] by simp) _
    exact ⟨[], cut, by simp⟩

theorem mem_scan_line {pairs : List Scanned} (unmarked : bareMark ∉ pairs) {line : List Char}
    (h : line ∈ linesOf (restore pairs)) {p : Scanned} (member : p ∈ scan line) :
    p ∈ pairs ∨ p = bareMark := by
  induction pairs generalizing line with
  | nil =>
    have empty : line = [] := by simpa [linesOf] using h
    subst empty
    simp at member
  | cons q pairs ih =>
    simp only [List.mem_cons, not_or] at unmarked
    have later := fun {line} => @ih unmarked.2 line
    by_cases broken : '\n' ∈ q.write
    · obtain ⟨ended, lines, marks⟩ := linesOf_broken broken pairs
      rw [lines] at h
      rcases List.mem_cons.mp h with rfl | h
      · exact .inr (marks p member)
      · exact (later h member).imp_left (List.mem_cons_of_mem _)
    · rw [restore_cons, linesOf, splitOn_append_of_notMem broken] at h
      obtain ⟨part, parts, shape⟩ :=
        List.exists_cons_of_ne_nil (List.splitOn_ne_nil '\n' (restore pairs))
      have lines : linesOf (restore pairs) = part :: parts := shape
      rw [shape, List.modifyHead_cons] at h
      rcases List.mem_cons.mp h with rfl | h
      · rw [scan_write_append (Ne.symm unmarked.1)] at member
        rcases List.mem_cons.mp member with rfl | member
        · exact .inl (by simp)
        · exact (later (by rw [lines]; simp) member).imp_left (List.mem_cons_of_mem _)
      · exact (later (by rw [lines]; simp [h]) member).imp_left (List.mem_cons_of_mem _)

end BracketMarkup
