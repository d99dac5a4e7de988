import BracketMarkup.Proofs.Lines
import BracketMarkup.Proofs.Reading

namespace BracketMarkup

theorem endsEscaped_iff_next (s : List Char) (c : Char) :
    endsEscaped s = true ↔ (scan (s ++ [c])).getLast? = some ⟨true, c⟩ := by
  induction s using scan_induction with
  | empty => simp [endsEscaped, scan, scanWith]
  | bare => simp [endsEscaped, scan, scanWith, escapeMark]
  | escaped d rest ih =>
    rw [endsEscaped_escaped, ih, List.cons_append, List.cons_append, scan_escaped_cons,
      List.getLast?_cons_of_ne_nil (by simp)]
  | plain d rest plain ih =>
    rw [endsEscaped_plain plain, ih, List.cons_append, scan_plain_cons plain,
      List.getLast?_cons_of_ne_nil (by simp)]

theorem stripComment_eq_before (line : List Char) :
    stripComment line = ((cutFirst? (· == '#') line).map (·.before)).getD line := by
  have same : (fun p => decide (p ≠ commentMark)) = (!isUnescaped (· == '#') ·) := by
    funext p
    obtain ⟨escaped, c⟩ := p
    cases escaped <;> simp [commentMark, isUnescaped, Bool.beq_eq_decide_eq]
  rw [before_cutFirst?_scan, stripComment_eq, same]

theorem bareMark_notMem_front {text : List Char} {pairs : List Scanned} (h : pairs <+: scan text) :
    bareMark ∉ pairs.dropLast := by
  obtain ⟨behind, whole⟩ := h
  have inner := bareMark_notMem_scan text
  rw [← whole] at inner
  cases behind with
  | nil => rwa [List.append_nil] at inner
  | cons p behind =>
    rw [List.dropLast_append_cons] at inner
    exact fun member => inner (List.mem_append_left _ ((List.dropLast_sublist pairs).subset member))

theorem scan_stripComment (line : List Char) :
    scan (stripComment line) = (scan line).takeWhile (· ≠ commentMark) := by
  rw [stripComment_eq]
  exact scan_restore_of_dropLast (bareMark_notMem_front (List.takeWhile_prefix _))

theorem mem_scan_append_cons {c : Char} (plain : c ≠ escapeMark) (front rest : List Char) {p : Scanned}
    (h : p ∈ scan (front ++ c :: rest)) : p ∈ scan front ∨ p.char = c ∨ p ∈ scan rest := by
  induction front using scan_induction with
  | empty =>
    rw [List.nil_append, scan_plain_cons plain] at h
    rcases List.mem_cons.mp h with rfl | member
    · exact .inr (.inl rfl)
    · exact .inr (.inr member)
  | bare =>
    rw [List.singleton_append, scan_escaped_cons] at h
    rcases List.mem_cons.mp h with rfl | member
    · exact .inr (.inl rfl)
    · exact .inr (.inr member)
  | escaped d front ih =>
    rw [List.cons_append, List.cons_append, scan_escaped_cons] at h
    rw [scan_escaped_cons]
    rcases List.mem_cons.mp h with rfl | member
    · exact .inl (by simp)
    · exact (ih member).imp_left (List.mem_cons_of_mem _)
  | plain d front other ih =>
    rw [List.cons_append, scan_plain_cons other] at h
    rw [scan_plain_cons other]
    rcases List.mem_cons.mp h with rfl | member
    · exact .inl (by simp)
    · exact (ih member).imp_left (List.mem_cons_of_mem _)

theorem mem_scan_unlines {lines : List (List Char)} {p : Scanned} (h : p ∈ scan (unlines lines)) :
    p.char = '\n' ∨ ∃ line ∈ lines, p ∈ scan line := by
  induction lines with
  | nil => simp [unlines] at h
  | cons line rest ih =>
    by_cases last : rest = []
    · subst last
      exact .inr ⟨line, by simp, by simpa [unlines] using h⟩
    · rw [unlines_cons line last] at h
      rcases mem_scan_append_cons (by decide) line _ h with member | lineFeed | member
      · exact .inr ⟨line, by simp, member⟩
      · exact .inl lineFeed
      · rcases ih member with lineFeed | ⟨other, found, inside⟩
        · exact .inl lineFeed
        · exact .inr ⟨other, List.mem_cons_of_mem _ found, inside⟩

structure Settled (line : List Char) : Prop where
  unmarked : line.head? ≠ some '!'
  uncommented : commentMark ∉ scan line

theorem settled_of_keptLine? {line kept : List Char} (h : keptLine? line = some kept) : Settled kept := by
  have front := prefix_of_keptLine? h
  rw [keptLine?] at h
  split at h
  · cases h
  · rename_i unmarked
    constructor
    · intro starts
      obtain ⟨behind, rfl⟩ := front
      rw [List.head?_append, starts] at unmarked
      exact unmarked rfl
    · simp only [bodyLine?] at h
      split at h
      · split at h
        · cases h
        · cases h
          -- What is left of a commented line ends where the first comment mark was.
          rw [scan_stripComment]
          intro member
          simpa using List.mem_takeWhile_imp member
      · rename_i free
        cases h
        exact fun member => free (char_mem_of_mem_scan member)

theorem Settled.keptLine? {line : List Char} (h : Settled line) : keptLine? line = some line := by
  have whole : (scan line).takeWhile (· ≠ commentMark) = scan line := by
    rw [List.takeWhile_eq_self_iff]
    intro p member
    have other : p ≠ commentMark := fun same => h.uncommented (same ▸ member)
    simpa using other
  have stripped : stripComment line = line := by rw [stripComment_eq, whole, restore_scan]
  rw [BracketMarkup.keptLine?, if_neg h.unmarked]
  by_cases empty : line = []
  · rw [empty]
    rfl
  · rw [bodyLine?_of_stripped (by rwa [stripped]), stripped]

theorem Settled.desugarLine {line : List Char} (h : Settled line) :
    commentMark ∉ scan (desugarLine line) := by
  unfold BracketMarkup.desugarLine
  split
  · rename_i call
    have free := h.uncommented
    rw [scan_plain_cons (by decide), List.mem_cons, not_or] at free ⊢
    refine ⟨by decide, fun member => ?_⟩
    rcases mem_scan_append_cons (by decide) call [] member with inside | bracket | inside
    · exact free.2 inside
    · exact absurd bracket (by decide)
    · simp at inside
  · exact h.uncommented

theorem separate_eq_ok {text body : List Char} {metadata : Bindings}
    (h : separate text = .ok (metadata, body)) :
    WellHeaded text ∧ body = unlines ((logicalLines text).filterMap keptLine?) := by
  rcases first_or_none Malformed (logicalLines text) with
    headed | ⟨before, line, after, lines, none, malformed⟩
  · rw [separate_ok headed] at h
    cases h
    exact ⟨headed, rfl⟩
  · rw [separate_error lines none malformed] at h
    cases h

theorem settled_of_separate {text body line : List Char} {metadata : Bindings}
    (h : separate text = .ok (metadata, body)) (member : line ∈ linesOf body) : Settled line := by
  obtain ⟨-, rfl⟩ := separate_eq_ok h
  by_cases empty : (logicalLines text).filterMap keptLine? = []
  · rw [empty] at member
    rw [List.mem_singleton.mp member]
    exact ⟨by simp, by simp⟩
  · rw [linesOf_unlines (fun _ => whole_of_mem_kept) empty] at member
    obtain ⟨source, -, shown⟩ := List.mem_filterMap.mp member
    exact settled_of_keptLine? shown

theorem unlines_settled {text : List Char} (h : ∀ line ∈ linesOf text, Settled line) :
    unlines ((linesOf text).filterMap keptLine?) = text := by
  rw [List.filterMap_congr fun line member => (h line member).keptLine?, List.filterMap_some,
    unlines_linesOf]

theorem uncommented_unlines {lines : List (List Char)} (h : ∀ line ∈ lines, commentMark ∉ scan line) :
    commentMark ∉ scan (unlines lines) := by
  intro member
  rcases mem_scan_unlines member with lineFeed | ⟨line, found, inside⟩
  · exact absurd lineFeed (by decide)
  · exact h line found inside

/-- A character is escaped for the end of a text, for a line and for a whole body in the same cases:
    what is left of comments and metadata by lines leaves none to a reader of the body. -/
theorem escapes_agree :
    (∀ (s : List Char) (c : Char),
      endsEscaped s = true ↔ (scan (s ++ [c])).getLast? = some ⟨true, c⟩) ∧
    (∀ line : List Char,
      stripComment line = ((cutFirst? (· == '#') line).map (·.before)).getD line) ∧
    ∀ (text body : List Char) (metadata : Bindings), separate text = .ok (metadata, body) →
      ⟨false, '#'⟩ ∉ scan body ∧ ⟨false, '#'⟩ ∉ scan (desugar body) ∧
        ∀ line ∈ linesOf body, line.head? ≠ some '!' := by
  refine ⟨endsEscaped_iff_next, stripComment_eq_before, fun text body metadata h => ?_⟩
  have settled : ∀ line ∈ linesOf body, Settled line := fun line => settled_of_separate h
  refine ⟨?_, ?_, fun line member => (settled line member).unmarked⟩
  · rw [← unlines_linesOf body]
    exact uncommented_unlines fun line member => (settled line member).uncommented
  · refine uncommented_unlines fun line member => ?_
    obtain ⟨source, found, rfl⟩ := List.mem_map.mp member
    exact (settled source found).desugarLine

theorem escapes_agree_joined :
    separate ['a', '\\', '\\', '\n', '\n', '.', '\\', '#', 'b', '#', 'c'] =
        .ok ([], ['a', '\\', '\n', '.', '\\', '#', 'b']) ∧
      ⟨false, '#'⟩ ∉ scan ['a', '\\', '\n', '.', '\\', '#', 'b'] ∧
      ⟨false, '#'⟩ ∉ scan (desugar ['a', '\\', '\n', '.', '\\', '#', 'b']) ∧
      ∀ line ∈ linesOf ['a', '\\', '\n', '.', '\\', '#', 'b'], line.head? ≠ some '!' := by
  have separated : separate ['a', '\\', '\\', '\n', '\n', '.', '\\', '#', 'b', '#', 'c'] =
      .ok ([], ['a', '\\', '\n', '.', '\\', '#', 'b']) := by cbv
  exact ⟨separated, escapes_agree.2.2 _ _ _ separated⟩

end BracketMarkup
