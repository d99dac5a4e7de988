import BracketMarkup.Proofs.Bodies
import Mathlib.Data.List.Infix

namespace BracketMarkup

theorem joinContinued_sublist (text : List Char) : (joinContinued text).Sublist text := by
  fun_induction joinContinued text with
  | case1 => exact List.Sublist.refl _
  | case2 c => exact List.Sublist.refl _
  | case3 c d rest broken ih => exact (ih.cons d).cons c
  | case4 c d rest whole ih => exact ih.cons_cons c

theorem joinContinued_eq_self_iff (text : List Char) : joinContinued text = text ↔ Unbroken text := by
  refine ⟨fun same => ?_, joinContinued_of_unbroken⟩
  fun_induction joinContinued text with
  | case1 => exact .nil
  | case2 c => exact .singleton c
  | case3 c d rest broken ih =>
    -- Two characters are gone, and none can come back.
    have shorter := (joinContinued_sublist rest).length_le
    rw [same, List.length_cons, List.length_cons] at shorter
    omega
  | case4 c d rest whole ih =>
    exact List.isChain_cons_cons.mpr ⟨whole, ih (List.cons.inj same).2⟩

theorem exists_first_unbroken_part (text : List Char) :
    ∃ first parts, text = [escapeMark, '\n'].intercalate (first :: parts) ∧
      (∀ part ∈ first :: parts, Unbroken part) ∧ joinContinued text = (first :: parts).flatten := by
  fun_induction joinContinued text with
  | case1 => exact ⟨[], [], rfl, by simp [Unbroken], rfl⟩
  | case2 c => exact ⟨[c], [], by simp, by simp [Unbroken], rfl⟩
  | case3 c d rest broken ih =>
    obtain ⟨first, parts, shape, unbroken, joined⟩ := ih
    obtain ⟨rfl, rfl⟩ := broken
    refine ⟨[], first :: parts, ?_, ?_, ?_⟩
    · rw [List.intercalate_cons_cons, ← shape]
      rfl
    · exact List.forall_mem_cons.mpr ⟨.nil, unbroken⟩
    · rw [joined]
      rfl
  | case4 c d rest whole ih =>
    obtain ⟨first, parts, shape, unbroken, joined⟩ := ih
    obtain ⟨unbrokenFirst, unbrokenParts⟩ := List.forall_mem_cons.mp unbroken
    refine ⟨c :: first, parts, ?_, ?_, ?_⟩
    · rw [shape, List.intercalate_cons_cons_left]
    · refine List.forall_mem_cons.mpr ⟨?_, unbrokenParts⟩
      cases first with
      | nil => exact .singleton c
      | cons e first =>
        rw [List.intercalate_cons_cons_left] at shape
        obtain ⟨rfl, -⟩ := List.cons.inj shape
        exact List.isChain_cons_cons.mpr ⟨whole, unbrokenFirst⟩
    · rw [joined]
      rfl

theorem exists_unbroken_parts (text : List Char) :
    ∃ parts : List (List Char), text = [escapeMark, '\n'].intercalate parts ∧
      (∀ part ∈ parts, Unbroken part) ∧ joinContinued text = parts.flatten := by
  obtain ⟨first, parts, whole⟩ := exists_first_unbroken_part text
  exact ⟨first :: parts, whole⟩

def continuation : Scanned := ⟨true, '\n'⟩

/-- A text without its escaped line feeds. -/
def dropContinuations (text : List Char) : List Char := restore ((scan text).filter (· ≠ continuation))

/-- Some line ends in a mark that is escaped itself. -/
def MarkEndsLine (text : List Char) : Prop := [⟨true, escapeMark⟩, ⟨false, '\n'⟩] <:+: scan text

instance (text : List Char) : Decidable (MarkEndsLine text) :=
  inferInstanceAs (Decidable ([⟨true, escapeMark⟩, ⟨false, '\n'⟩] <:+: scan text))

theorem joinContinued_continuation (rest : List Char) :
    joinContinued (escapeMark :: '\n' :: rest) = joinContinued rest := by
  rw [joinContinued, if_pos ⟨rfl, rfl⟩]

theorem joinContinued_cons {c : Char} {rest : List Char}
    (whole : ¬ (c = escapeMark ∧ rest.head? = some '\n')) :
    joinContinued (c :: rest) = c :: joinContinued rest := by
  cases rest with
  | nil => rfl
  | cons d rest => rw [joinContinued, if_neg (by simpa using whole)]

section Kept

variable {p : Scanned} {rest : List Char} (proper : p ≠ bareMark)
include proper

theorem joinContinued_write (other : p ≠ continuation)
    (apart : ¬ (p = ⟨true, escapeMark⟩ ∧ rest.head? = some '\n')) :
    joinContinued (p.write ++ rest) = p.write ++ joinContinued rest := by
  obtain ⟨escaped, c⟩ := p
  cases escaped with
  | false =>
    have plain : c ≠ escapeMark := fun same => proper (congrArg (Scanned.mk false) same)
    exact joinContinued_cons fun broken => plain broken.1
  | true =>
    have lineFeed : c ≠ '\n' := fun same => other (congrArg (Scanned.mk true) same)
    rw [write_escaped, List.cons_append, List.singleton_append, joinContinued_cons (by simpa using lineFeed),
      joinContinued_cons fun broken => apart ⟨congrArg (Scanned.mk true) broken.1, broken.2⟩]
    rfl

theorem dropContinuations_write (other : p ≠ continuation) :
    dropContinuations (p.write ++ rest) = p.write ++ dropContinuations rest := by
  rw [dropContinuations, scan_write_append proper, List.filter_cons_of_pos (by simpa using other),
    restore_cons, dropContinuations]

theorem markEndsLine_write : MarkEndsLine (p.write ++ rest) ↔
    (p = ⟨true, escapeMark⟩ ∧ rest.head? = some '\n') ∨ MarkEndsLine rest := by
  have next : [⟨false, '\n'⟩] <+: scan rest ↔ rest.head? = some '\n' := by
    cases rest using scan_induction with
    | empty => simp
    | bare => simp [scan, scanWith, escapeMark]
    | escaped d rest =>
      rw [scan_escaped_cons]
      simp [escapeMark]
    | plain d rest plain => simp [scan_plain_cons plain, eq_comm]
  rw [MarkEndsLine, scan_write_append proper, List.infix_cons_iff, List.cons_prefix_cons, next,
    eq_comm, MarkEndsLine]

end Kept

theorem dropContinuations_continuation (rest : List Char) :
    dropContinuations (escapeMark :: '\n' :: rest) = dropContinuations rest := by
  rw [dropContinuations, scan_escaped_cons, List.filter_cons_of_neg (by simp [continuation]),
    dropContinuations]

theorem markEndsLine_continuation (rest : List Char) :
    MarkEndsLine (escapeMark :: '\n' :: rest) ↔ MarkEndsLine rest := by
  have other : continuation ≠ ⟨true, escapeMark⟩ := by decide
  have shape : escapeMark :: '\n' :: rest = continuation.write ++ rest := rfl
  rw [shape, markEndsLine_write (by decide), or_iff_right fun same => other same.1]

theorem joinContinued_ended (rest : List Char) :
    joinContinued (escapeMark :: escapeMark :: '\n' :: rest) = escapeMark :: joinContinued rest := by
  rw [joinContinued_cons (by simp [escapeMark]), joinContinued_continuation]

theorem dropContinuations_ended (rest : List Char) :
    dropContinuations (escapeMark :: escapeMark :: '\n' :: rest) =
      escapeMark :: escapeMark :: '\n' :: dropContinuations rest := by
  have shape : escapeMark :: escapeMark :: '\n' :: rest =
      (⟨true, escapeMark⟩ : Scanned).write ++ ((⟨false, '\n'⟩ : Scanned).write ++ rest) := rfl
  rw [shape, dropContinuations_write (by decide) (by decide), dropContinuations_write (by decide) (by decide)]
  rfl

theorem markEndsLine_ended (rest : List Char) :
    MarkEndsLine (escapeMark :: escapeMark :: '\n' :: rest) := by
  have shape : escapeMark :: escapeMark :: '\n' :: rest =
      (⟨true, escapeMark⟩ : Scanned).write ++ '\n' :: rest := rfl
  rw [shape, markEndsLine_write (by decide)]
  exact .inl ⟨rfl, rfl⟩

theorem joining_induction {motive : List Char → Prop} (text : List Char) (empty : motive [])
    (bare : motive [escapeMark])
    (continued : ∀ rest, motive rest → motive (escapeMark :: '\n' :: rest))
    (ended : ∀ rest, motive rest → motive (escapeMark :: escapeMark :: '\n' :: rest))
    (kept : ∀ (p : Scanned) (rest : List Char), p ≠ bareMark → p ≠ continuation →
      ¬ (p = ⟨true, escapeMark⟩ ∧ rest.head? = some '\n') → motive rest → motive (p.write ++ rest)) :
    motive text := by
  cases text using scan_induction with
  | empty => exact empty
  | bare => exact bare
  | plain c rest plain =>
    refine kept ⟨false, c⟩ rest (fun same => plain (congrArg Scanned.char same)) (by simp [continuation])
      (by simp) (joining_induction rest empty bare continued ended kept)
  | escaped c rest =>
    by_cases lineFeed : c = '\n'
    · subst lineFeed
      exact continued rest (joining_induction rest empty bare continued ended kept)
    · by_cases last : c = escapeMark ∧ rest.head? = some '\n'
      · obtain ⟨rfl, starts⟩ := last
        obtain ⟨more, rfl⟩ := List.head?_eq_some_iff.mp starts
        exact ended more (joining_induction more empty bare continued ended kept)
      · exact kept ⟨true, c⟩ rest (by simp [bareMark]) (by simpa [continuation] using lineFeed)
          (by simpa using last) (joining_induction rest empty bare continued ended kept)
termination_by text.length

theorem joinContinued_sublist_dropContinuations (text : List Char) :
    (joinContinued text).Sublist (dropContinuations text) := by
  induction text using joining_induction with
  | empty => exact List.Sublist.refl _
  | bare => exact List.Sublist.refl _
  | continued rest ih =>
    rw [joinContinued_continuation, dropContinuations_continuation]
    exact ih
  | ended rest ih =>
    rw [joinContinued_ended, dropContinuations_ended]
    exact ((ih.cons '\n').cons escapeMark).cons_cons escapeMark
  | kept p rest proper other apart ih =>
    rw [joinContinued_write proper other apart, dropContinuations_write proper other]
    exact (List.Sublist.refl p.write).append ih

theorem joinContinued_eq_dropContinuations_iff (text : List Char) :
    joinContinued text = dropContinuations text ↔ ¬ MarkEndsLine text := by
  induction text using joining_induction with
  | empty => decide
  | bare => decide
  | continued rest ih =>
    rw [joinContinued_continuation, dropContinuations_continuation, markEndsLine_continuation, ih]
  | ended rest ih =>
    refine iff_of_false (fun same => ?_) fun absent => absent (markEndsLine_ended rest)
    -- Joining takes the mark and the line feed, which stay if only escaped line feeds go.
    have shorter := (joinContinued_sublist_dropContinuations rest).length_le
    rw [joinContinued_ended, dropContinuations_ended] at same
    have sizes := congrArg List.length same
    simp only [List.length_cons] at sizes
    omega
  | kept p rest proper other apart ih =>
    rw [joinContinued_write proper other apart, dropContinuations_write proper other,
      markEndsLine_write proper, List.append_cancel_left_eq, ih, or_iff_right apart]

theorem settled_of_plain {text line : List Char} (unmarked : '!' ∉ text) (uncommented : '#' ∉ text)
    (member : line ∈ linesOf text) : Settled line := by
  have inText : ∀ {c : Char}, c ∈ line → c ∈ text := fun found => (mem_of_mem_linesOf member found).1
  constructor
  · exact fun starts => unmarked (inText (List.mem_of_head? starts))
  · exact fun found => uncommented (inText (char_mem_of_mem_scan found))

/-- A line feed goes together with a mark directly before it. Just if no line ends in an escaped mark,
    these are the line feeds that are escaped. -/
theorem separate_continued {text : List Char} (unmarked : '!' ∉ text) (uncommented : '#' ∉ text) :
    ∃ parts : List (List Char), text = [escapeMark, '\n'].intercalate parts ∧
      (∀ part ∈ parts, Unbroken part) ∧ separate text = .ok ([], parts.flatten) ∧
      (parts.flatten = dropContinuations text ↔ ¬ MarkEndsLine text) := by
  obtain ⟨parts, shape, unbroken, joined⟩ := exists_unbroken_parts text
  have inText := (joinContinued_sublist text).subset
  have settled : ∀ line ∈ logicalLines text, Settled line := fun line =>
    settled_of_plain (fun found => unmarked (inText found)) fun found => uncommented (inText found)
  refine ⟨parts, shape, unbroken, ?_, ?_⟩
  · -- Without metadata and comments the lines come through, so only joining changes the text.
    rw [separate_unmarked fun line member => (settled line member).unmarked, logicalLines,
      unlines_settled settled, joined]
  · rw [← joined]
    exact joinContinued_eq_dropContinuations_iff text

theorem separate_continued_letters :
    '!' ∉ ['a', '\\', '\n', 'b', '\\', '\\', '\\', '\n', '\n', 'c'] ∧
      '#' ∉ ['a', '\\', '\n', 'b', '\\', '\\', '\\', '\n', '\n', 'c'] ∧
      dropContinuations ['a', '\\', '\n', 'b', '\\', '\\', '\\', '\n', '\n', 'c'] =
        ['a', 'b', '\\', '\\', '\n', 'c'] ∧
      separate ['a', '\\', '\n', 'b', '\\', '\\', '\\', '\n', '\n', 'c'] =
        .ok ([], ['a', 'b', '\\', '\\', '\n', 'c']) := by
  refine ⟨by decide, by decide, by decide, ?_⟩
  obtain ⟨parts, -, -, body, exact⟩ := @separate_continued
    ['a', '\\', '\n', 'b', '\\', '\\', '\\', '\n', '\n', 'c'] (by decide) (by decide)
  rw [body, exact.mpr (by decide)]
  rfl

theorem separate_takes_escaped_mark :
    '!' ∉ ['a', '\\', '\\', '\n', 'b'] ∧ '#' ∉ ['a', '\\', '\\', '\n', 'b'] ∧
      dropContinuations ['a', '\\', '\\', '\n', 'b'] = ['a', '\\', '\\', '\n', 'b'] ∧
      separate ['a', '\\', '\\', '\n', 'b'] = .ok ([], ['a', '\\', 'b']) ∧
      separate ['a', '\\', '\\', '\n', 'b'] ≠
        .ok ([], dropContinuations ['a', '\\', '\\', '\n', 'b']) := by
  have joined : separate ['a', '\\', '\\', '\n', 'b'] = .ok ([], ['a', '\\', 'b']) := by cbv
  refine ⟨by decide, by decide, by decide, joined, ?_⟩
  rw [joined]
  decide

end BracketMarkup
