import BracketMarkup.Proofs.Agreement
import BracketMarkup.Proofs.References

namespace BracketMarkup

open Bracketed Call

theorem unbroken_escape {front rest : List Char} {c : Char} (h : Unbroken (front ++ c :: rest))
    (broken : c ≠ '\n') : Unbroken (front ++ escapeMark :: c :: rest) := by
  obtain ⟨before, after, -⟩ := List.isChain_append.mp h
  have mark : escapeMark ≠ '\n' := by decide
  refine List.isChain_append.mpr ⟨before, List.isChain_cons_cons.mpr ⟨?_, after⟩, ?_⟩
  · exact fun impossible => broken impossible.2
  · rintro last - next starts ⟨-, lineFeed⟩
    cases starts
    exact mark lineFeed

section Line

variable {front : List Char} {c : Char} (complete : bareMark ∉ scan front)
  (ordinary : isOrdinary c = true)

theorem ne_of_ordinary {c mark : Char} (ordinary : isOrdinary c = true) (special : isOrdinary mark = false) :
    c ≠ mark := by
  rintro rfl
  rw [special] at ordinary
  cases ordinary

include complete ordinary

theorem scan_occurrence (rest : List Char) :
    scan (front ++ c :: rest) = scan front ++ ⟨false, c⟩ :: scan rest ∧
      scan (front ++ escapeMark :: c :: rest) = scan front ++ ⟨true, c⟩ :: scan rest := by
  have plain := ne_of_ordinary ordinary (show isOrdinary escapeMark = false by decide)
  rw [scan_append_of_complete complete, scan_append_of_complete complete,
    scan_plain_cons plain, scan_escaped_cons]
  exact ⟨rfl, rfl⟩

theorem bareText_occurrence (rest : List Char) :
    bareText (front ++ escapeMark :: c :: rest) = bareText (front ++ c :: rest) := by
  obtain ⟨plain, escaped⟩ := scan_occurrence complete ordinary rest
  rw [bareText, bareText, plain, escaped, List.map_append, List.map_append, List.map_cons, List.map_cons,
    bare_plain, bare_escaped ordinary]

theorem bodyLine?_occurrence (tail : List Char) :
    bodyLine? (front ++ escapeMark :: c :: tail) = bodyLine? (front ++ c :: tail) ∨
      ∃ kept, bodyLine? (front ++ c :: tail) = some (front ++ c :: kept) ∧
        bodyLine? (front ++ escapeMark :: c :: tail) = some (front ++ escapeMark :: c :: kept) := by
  obtain ⟨plain, escaped⟩ := scan_occurrence complete ordinary tail
  by_cases commented : commentMark ∈ scan front
  · -- The comment starts in front of the occurrence, which goes with it.
    left
    have stops : ∀ rest, (scan front ++ rest).takeWhile (· ≠ commentMark) =
        (scan front).takeWhile (· ≠ commentMark) := by
      intro rest
      rw [List.takeWhile_append, if_neg]
      intro whole
      have same := (List.takeWhile_prefix (p := (· ≠ commentMark)) (l := scan front)).eq_of_length whole
      rw [← same] at commented
      simpa using List.mem_takeWhile_imp commented
    have inLine : ∀ rest, '#' ∈ front ++ rest :=
      fun rest => List.mem_append_left _ (char_mem_of_mem_scan commented)
    rw [bodyLine?, bodyLine?, if_pos (inLine _), if_pos (inLine _), stripComment_eq, stripComment_eq,
      plain, escaped, stops, stops]
  · right
    have uncommented : ∀ p ∈ scan front, decide (p ≠ commentMark) = true := by
      intro p member
      have other : p ≠ commentMark := fun same => commented (same ▸ member)
      simpa using other
    have other : (⟨false, c⟩ : Scanned) ≠ commentMark := by
      intro same
      exact ne_of_ordinary ordinary (show isOrdinary '#' = false by decide) (congrArg Scanned.char same)
    have otherMarked : (⟨true, c⟩ : Scanned) ≠ commentMark := by simp [commentMark]
    have strip : stripComment (front ++ c :: tail) =
        front ++ c :: restore ((scan tail).takeWhile (· ≠ commentMark)) := by
      rw [stripComment_eq, plain, List.takeWhile_append_of_pos uncommented,
        List.takeWhile_cons_of_pos (by simpa using other), restore_append, restore_scan]
      rfl
    have stripMarked : stripComment (front ++ escapeMark :: c :: tail) =
        front ++ escapeMark :: c :: restore ((scan tail).takeWhile (· ≠ commentMark)) := by
      rw [stripComment_eq, escaped, List.takeWhile_append_of_pos uncommented,
        List.takeWhile_cons_of_pos (by simpa using otherMarked), restore_append, restore_scan]
      rfl
    refine ⟨restore ((scan tail).takeWhile (· ≠ commentMark)), ?_, ?_⟩
    · rw [bodyLine?_of_stripped (by simp [strip]), strip]
    · rw [bodyLine?_of_stripped (by simp [stripMarked]), stripMarked]

theorem desugarLine_occurrence (kept : List Char) :
    ∃ front' kept', bareMark ∉ scan front' ∧ desugarLine (front ++ c :: kept) = front' ++ c :: kept' ∧
      desugarLine (front ++ escapeMark :: c :: kept) = front' ++ escapeMark :: c :: kept' := by
  cases front with
  | nil =>
    have dark : c ≠ '.' := ne_of_ordinary ordinary (by decide)
    have mark : escapeMark ≠ '.' := by decide
    refine ⟨[], kept, complete, ?_, ?_⟩
    · exact desugarLine_other (by simpa using dark)
    · exact desugarLine_other (by simpa using mark)
  | cons d rest =>
    by_cases dot : d = '.'
    · -- The dot becomes an opener, and the closer comes behind the line.
      subst dot
      rw [scan_plain_cons (by decide)] at complete
      refine ⟨'[' :: rest, kept ++ [']'], ?_, by simp [desugarLine], by simp [desugarLine]⟩
      rw [scan_plain_cons (by decide), List.mem_cons, not_or]
      exact ⟨by decide, fun member => complete (List.mem_cons_of_mem _ member)⟩
    · refine ⟨d :: rest, kept, complete, ?_, ?_⟩
      · exact desugarLine_other (by simpa using dot)
      · exact desugarLine_other (by simpa using dot)

omit complete in
theorem head?_occurrence (starts : front.head? ≠ some '!') (rest : List Char) :
    (front ++ c :: rest).head? ≠ some '!' ∧ (front ++ escapeMark :: c :: rest).head? ≠ some '!' := by
  cases front with
  | nil =>
    have first : c ≠ '!' := ne_of_ordinary ordinary (by decide)
    have mark : escapeMark ≠ '!' := by decide
    exact ⟨by simpa using first, by simpa using mark⟩
  | cons d front => exact ⟨starts, starts⟩

theorem bareText_unlines_occurrence (kept : List Char) (before after : List (List Char)) :
    bareText (unlines (before ++ desugarLine (front ++ escapeMark :: c :: kept) :: after)) =
      bareText (unlines (before ++ desugarLine (front ++ c :: kept) :: after)) := by
  have out : ∀ (d : Char) (line : List Char), unlines ((d :: line) :: after) = d :: unlines (line :: after) :=
    fun _ _ => List.intercalate_cons_cons_left
  obtain ⟨front', kept', completeLine, plain, marked⟩ := desugarLine_occurrence complete ordinary kept
  have completeFront : bareMark ∉ scan (unlines (before ++ [front'])) := by
    rw [complete_iff, endsEscaped_unlines, ← complete_iff]
    exact completeLine
  rw [plain, marked, unlines_append, unlines_append, out, out]
  exact bareText_occurrence completeFront ordinary _

variable {text marked tail : List Char} {before after : List (List Char)}
  (starts : front.head? ≠ some '!')
  (lines : logicalLines text = before ++ (front ++ c :: tail) :: after)
  (linesMarked : logicalLines marked = before ++ (front ++ escapeMark :: c :: tail) :: after)
include starts lines linesMarked

theorem bareText_bodyOf_occurrence : bareText (bodyOf marked) = bareText (bodyOf text) := by
  obtain ⟨head, headMarked⟩ := head?_occurrence ordinary starts tail
  have here : keptLine? (front ++ c :: tail) = bodyLine? (front ++ c :: tail) := if_neg head
  have hereMarked : keptLine? (front ++ escapeMark :: c :: tail) =
      bodyLine? (front ++ escapeMark :: c :: tail) := if_neg headMarked
  rw [bodyOf_eq, bodyOf_eq, lines, linesMarked, List.filterMap_append, List.filterMap_append,
    List.filterMap_cons, List.filterMap_cons, here, hereMarked]
  rcases bodyLine?_occurrence complete ordinary tail with same | ⟨kept, plain, escaped⟩
  · rw [same]
  · rw [plain, escaped]
    simp only [List.map_append, List.map_cons]
    exact bareText_unlines_occurrence complete ordinary kept _ _

theorem parse_occurrence :
    (Document.parse marked).mapError ParseError.kind = (Document.parse text).mapError ParseError.kind := by
  obtain ⟨head, headMarked⟩ := head?_occurrence ordinary starts tail
  have unmarked : Unmarked [front ++ c :: tail] := by simpa [Unmarked] using head
  have unmarkedOther : Unmarked [front ++ escapeMark :: c :: tail] := by
    simpa [Unmarked] using headMarked
  -- Both bodies are the same text but for marks that make no difference.
  have bodies : (groupText (bodyOf marked) >>= Node.ofTrees).mapError ParseError.kind =
      (groupText (bodyOf text) >>= Node.ofTrees).mapError ParseError.kind := by
    rw [← groupText_bareText, bareText_bodyOf_occurrence complete ordinary starts lines linesMarked,
      groupText_bareText]
  exact parse_agrees (wellHeaded_replaced unmarked unmarkedOther lines linesMarked)
    (metadata_replaced unmarked unmarkedOther lines linesMarked) bodies

end Line

/-- The line on which a character stands between two texts. -/
def lineAround (front : List Char) (c : Char) (rest : List Char) : List Char :=
  lastLine front ++ c :: rest.takeWhile (· ≠ '\n')

/-- A mark before an ordinary character that is not escaped makes no difference outside of metadata. -/
theorem parse_escape_ordinary {text : List Char} {before after : List Scanned} {c : Char}
    (unbroken : Unbroken text) (occurs : scan text = before ++ ⟨false, c⟩ :: after)
    (ordinary : isOrdinary c = true)
    (line : (lineAround (restore before) c (restore after)).head? ≠ some '!') :
    (Document.parse (restore before ++ escapeMark :: c :: restore after)).mapError ParseError.kind =
      (Document.parse text).mapError ParseError.kind := by
  have shape : text = restore before ++ c :: restore after := by
    rw [← restore_scan text, occurs, restore_append]
    rfl
  have clean : bareMark ∉ before := by
    have inFront := bareMark_notMem_scan text
    rw [occurs, List.dropLast_append_cons] at inFront
    exact fun member => inFront (List.mem_append_left _ member)
  have complete : bareMark ∉ scan (lastLine (restore before)) := by
    rw [complete_iff, endsEscaped_lastLine, ← complete_iff, scan_restore clean]
    exact clean
  have lineFeed : c ≠ '\n' := ne_of_ordinary ordinary (by decide)
  have mark : escapeMark ≠ '\n' := by decide
  have starts : (lastLine (restore before)).head? ≠ some '!' := by
    intro first
    rw [lineAround, List.head?_append, first] at line
    exact line rfl
  obtain ⟨tail, more, behind⟩ := List.exists_cons_of_ne_nil (linesOf_ne_nil (restore after))
  rw [shape] at unbroken
  have lines : logicalLines text = (linesOf (restore before)).dropLast ++
      (lastLine (restore before) ++ c :: tail) :: more := by
    rw [shape, logicalLines, joinContinued_of_unbroken unbroken, linesOf_append, linesOf_cons,
      if_neg lineFeed, behind]
    rfl
  have linesMarked : logicalLines (restore before ++ escapeMark :: c :: restore after) =
      (linesOf (restore before)).dropLast ++
        (lastLine (restore before) ++ escapeMark :: c :: tail) :: more := by
    rw [logicalLines, joinContinued_of_unbroken (unbroken_escape unbroken lineFeed), linesOf_append,
      linesOf_cons, if_neg mark, linesOf_cons, if_neg lineFeed, behind]
    rfl
  exact parse_occurrence complete ordinary starts lines linesMarked

theorem parse_escape_ordinary_key :
    Unbroken ['[', 'b', '\x7b', 'k', '=', 'v', '\x7d', ' ', 'x', ']'] ∧
      scan ['[', 'b', '\x7b', 'k', '=', 'v', '\x7d', ' ', 'x', ']'] =
        scan ['[', 'b', '\x7b'] ++ ⟨false, 'k'⟩ :: scan ['=', 'v', '\x7d', ' ', 'x', ']'] ∧
      (Document.parse ['[', 'b', '\x7b', '\\', 'k', '=', 'v', '\x7d', ' ', 'x', ']']).mapError
          ParseError.kind =
        (Document.parse ['[', 'b', '\x7b', 'k', '=', 'v', '\x7d', ' ', 'x', ']']).mapError
          ParseError.kind := by
  have unbroken : Unbroken ['[', 'b', '\x7b', 'k', '=', 'v', '\x7d', ' ', 'x', ']'] := by decide
  have occurs : scan ['[', 'b', '\x7b', 'k', '=', 'v', '\x7d', ' ', 'x', ']'] =
      scan ['[', 'b', '\x7b'] ++ ⟨false, 'k'⟩ :: scan ['=', 'v', '\x7d', ' ', 'x', ']'] := by decide
  exact ⟨unbroken, occurs, parse_escape_ordinary unbroken occurs (by decide) (by decide)⟩

end BracketMarkup
