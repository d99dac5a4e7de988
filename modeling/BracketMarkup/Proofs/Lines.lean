import BracketMarkup.Proofs.Comments
import Mathlib.Data.List.Chain

namespace BracketMarkup

/-- No escape mark stands directly before a line feed. -/
def Unbroken (text : List Char) : Prop :=
  text.IsChain fun c next => ¬ (c = escapeMark ∧ next = '\n')

instance (text : List Char) : Decidable (Unbroken text) := by
  unfold Unbroken
  infer_instance

theorem joinContinued_of_unbroken {text : List Char} (h : Unbroken text) : joinContinued text = text := by
  fun_induction joinContinued text with
  | case1 => rfl
  | case2 => rfl
  | case3 c d rest broken ih => exact absurd broken (List.isChain_cons_cons.mp h).1
  | case4 c d rest whole ih => rw [ih (List.isChain_cons_cons.mp h).2]

theorem unbroken_of_whole {text : List Char} (whole : '\n' ∉ text) : Unbroken text := by
  induction text with
  | nil => exact .nil
  | cons c rest ih =>
    cases rest with
    | nil => exact .singleton c
    | cons d rest =>
      simp only [List.mem_cons, not_or] at whole
      exact List.isChain_cons_cons.mpr
        ⟨fun broken => whole.2.1 broken.2.symm, ih (by simpa using whole.2)⟩

def Unmarked (lines : List (List Char)) : Prop := ∀ line ∈ lines, line.head? ≠ some '!'

theorem Unmarked.formed {lines : List (List Char)} (h : Unmarked lines) :
    ∀ line ∈ lines, ¬ Malformed line :=
  fun line member malformed => h line member malformed.1

theorem Unmarked.metadata {lines : List (List Char)} (h : Unmarked lines) :
    lines.filterMap metadataPair? = [] :=
  List.filterMap_eq_nil_iff.mpr fun line member => metadataPair?_other (h line member)

theorem separate_unmarked {text : List Char} (h : Unmarked (logicalLines text)) :
    separate text = .ok ([], unlines ((logicalLines text).filterMap keptLine?)) := by
  rw [separate_ok h.formed, h.metadata]
  rfl

def lastLine (text : List Char) : List Char := (linesOf text).getLastD []

theorem linesOf_cons (c : Char) (text : List Char) :
    linesOf (c :: text) =
      if c = '\n' then [] :: linesOf text else (linesOf text).modifyHead (c :: ·) := by
  rw [linesOf, List.splitOn_cons_eq_if_modifyHead]
  simp only [beq_iff_eq]
  rfl

theorem linesOf_ne_nil (text : List Char) : linesOf text ≠ [] := List.splitOn_ne_nil '\n' text

theorem linesOf_unlines {lines : List (List Char)} (whole : ∀ line ∈ lines, '\n' ∉ line)
    (filled : lines ≠ []) : linesOf (unlines lines) = lines :=
  List.splitOn_intercalate _ whole filled

theorem logicalLines_unlines {lines : List (List Char)} (unbroken : Unbroken (unlines lines))
    (whole : ∀ line ∈ lines, '\n' ∉ line) (filled : lines ≠ []) : logicalLines (unlines lines) = lines := by
  rw [logicalLines, joinContinued_of_unbroken unbroken, linesOf_unlines whole filled]

theorem linesOf_append (front rest : List Char) :
    linesOf (front ++ rest) =
      (linesOf front).dropLast ++ (linesOf rest).modifyHead (lastLine front ++ ·) := by
  -- A character of the front joins its first line, which is the last one too if it is the only one.
  induction front with
  | nil =>
    obtain ⟨line, lines, shape⟩ := List.exists_cons_of_ne_nil (linesOf_ne_nil rest)
    rw [List.nil_append, shape]
    rfl
  | cons c front ih =>
    obtain ⟨line, lines, shape⟩ := List.exists_cons_of_ne_nil (linesOf_ne_nil front)
    rw [List.cons_append, linesOf_cons, ih]
    by_cases lineFeed : c = '\n'
    · rw [if_pos lineFeed, lastLine, lastLine, linesOf_cons, if_pos lineFeed, shape]
      rfl
    · rw [if_neg lineFeed, lastLine, lastLine, linesOf_cons, if_neg lineFeed, shape]
      cases lines with
      | nil => cases linesOf rest <;> rfl
      | cons next lines => rfl

theorem endsEscaped_break (front rest : List Char) :
    endsEscaped (front ++ '\n' :: rest) = endsEscaped rest := by
  have stops : (rest.reverse ++ '\n' :: front.reverse).takeWhile (· == escapeMark) =
      rest.reverse.takeWhile (· == escapeMark) := by
    rw [List.takeWhile_append, List.takeWhile_cons_of_neg (by decide), List.append_nil]
    split
    · rename_i whole
      exact ((List.takeWhile_prefix _).eq_of_length whole).symm
    · rfl
  rw [endsEscaped, endsEscaped, List.reverse_append, List.reverse_cons, List.append_assoc,
    List.singleton_append, stops]

theorem unlines_singleton (line : List Char) : unlines [line] = line := List.intercalate_singleton

theorem unlines_cons (line : List Char) {lines : List (List Char)} (more : lines ≠ []) :
    unlines (line :: lines) = line ++ '\n' :: unlines lines := by
  rw [unlines, List.intercalate_cons_of_ne_nil more, List.append_assoc]
  rfl

theorem unlines_append (lines : List (List Char)) (front rest : List Char) (more : List (List Char)) :
    unlines (lines ++ (front ++ rest) :: more) = unlines (lines ++ [front]) ++ unlines (rest :: more) := by
  induction lines with
  | nil =>
    cases more with
    | nil => simp [unlines]
    | cons next more =>
      rw [List.nil_append, unlines_cons _ (List.cons_ne_nil _ _), unlines_cons _ (List.cons_ne_nil _ _)]
      simp [unlines]
  | cons line lines ih =>
    rw [List.cons_append, List.cons_append, unlines_cons _ (by simp), unlines_cons _ (by simp), ih]
    simp

theorem unlines_front (front rest : List Char) (more : List (List Char)) :
    unlines ((front ++ rest) :: more) = front ++ unlines (rest :: more) := by
  simpa [unlines_singleton] using unlines_append [] front rest more

theorem endsEscaped_unlines (lines : List (List Char)) (front : List Char) :
    endsEscaped (unlines (lines ++ [front])) = endsEscaped front := by
  induction lines with
  | nil => simp [unlines]
  | cons line lines ih =>
    rw [List.cons_append, unlines_cons _ (by simp), endsEscaped_break, ih]

theorem endsEscaped_lastLine (text : List Char) : endsEscaped (lastLine text) = endsEscaped text := by
  have whole := List.dropLast_append_getLast (linesOf_ne_nil text)
  have last : lastLine text = (linesOf text).getLast (linesOf_ne_nil text) := by
    rw [lastLine, List.getLastD_eq_getLast?, List.getLast?_eq_some_getLast (linesOf_ne_nil text)]
    rfl
  rw [← last] at whole
  rw [← endsEscaped_unlines (linesOf text).dropLast, whole, unlines_linesOf]

theorem complete_iff (text : List Char) : bareMark ∉ scan text ↔ endsEscaped text = false := by
  rw [Bool.eq_false_iff, Ne, endsEscaped_iff, not_iff_not]
  constructor
  · intro member
    obtain ⟨front, p, shape⟩ := List.eq_nil_or_concat (scan text) |>.resolve_left
      (List.ne_nil_of_mem member)
    have inFront := bareMark_notMem_scan text
    rw [shape, List.concat_eq_append] at member inFront ⊢
    rw [List.dropLast_concat] at inFront
    have same : bareMark = p := by simpa [inFront] using member
    rw [List.getLast?_concat, same]
  · exact List.mem_of_getLast?

theorem prefix_of_keptLine? {line kept : List Char} (h : keptLine? line = some kept) : kept <+: line := by
  have stripped : stripComment line <+: line := by
    have front := (List.takeWhile_prefix (p := (· ≠ commentMark)) (l := scan line))
    obtain ⟨behind, whole⟩ := front
    refine ⟨restore behind, ?_⟩
    rw [stripComment_eq, ← restore_append, whole, restore_scan]
  rw [keptLine?] at h
  split at h
  · cases h
  · simp only [bodyLine?] at h
    split at h
    · split at h
      · cases h
      · cases h
        exact stripped
    · cases h
      exact List.prefix_refl _

theorem whole_of_mem_kept {text kept : List Char} (h : kept ∈ (logicalLines text).filterMap keptLine?) :
    '\n' ∉ kept := by
  obtain ⟨line, member, shown⟩ := List.mem_filterMap.mp h
  exact fun inside => whole_of_mem_logicalLines member ((prefix_of_keptLine? shown).subset inside)

theorem bodyOf_eq (text : List Char) :
    bodyOf text = unlines (((logicalLines text).filterMap keptLine?).map desugarLine) := by
  rw [bodyOf]
  by_cases empty : (logicalLines text).filterMap keptLine? = []
  · rw [empty]
    rfl
  · rw [desugar, linesOf_unlines (fun _ => whole_of_mem_kept) empty]

theorem bodyLine?_of_stripped {line : List Char} (filled : stripComment line ≠ []) :
    bodyLine? line = some (stripComment line) := by
  rw [bodyLine?]
  split
  · exact if_neg filled
  · rename_i free
    rw [stripComment, List.splitOn_eq_singleton free]
    rfl

theorem char_mem_of_mem_scan {text : List Char} {p : Scanned} (h : p ∈ scan text) : p.char ∈ text := by
  have inside : p.char ∈ restore (scan text) :=
    List.mem_flatMap.mpr ⟨p, h, by obtain ⟨escaped, c⟩ := p; cases escaped <;> simp⟩
  rwa [restore_scan] at inside

theorem desugarLine_other {line : List Char} (h : line.head? ≠ some '.') : desugarLine line = line := by
  unfold desugarLine
  split
  · exact absurd rfl h
  · rfl

end BracketMarkup
