import BracketMarkup.Proofs.Arguments
import BracketMarkup.Proofs.Calls

namespace BracketMarkup

variable {α : Type} {isSeparator : α → Bool} {items rest : List α} {sections : List (List α × α)}

/-- Items fall into segments without separators, each with the separator that ends it, and a rest. -/
structure Sectioned (isSeparator : α → Bool) (items : List α) (sections : List (List α × α))
    (rest : List α) : Prop where
  whole : items = sections.flatMap (fun part => part.1 ++ [part.2]) ++ rest
  segments : ∀ part ∈ sections, ∀ x ∈ part.1, isSeparator x = false
  separators : ∀ part ∈ sections, isSeparator part.2 = true

theorem Sectioned.uncut (items : List α) : Sectioned isSeparator items [] items where
  whole := rfl
  segments := by simp
  separators := by simp

theorem Sectioned.separator {x : α} (separates : isSeparator x = true)
    (h : Sectioned isSeparator items sections rest) :
    Sectioned isSeparator (x :: items) (([], x) :: sections) rest where
  whole := by rw [h.whole]; rfl
  segments := List.forall_mem_cons.mpr ⟨by simp, h.segments⟩
  separators := List.forall_mem_cons.mpr ⟨separates, h.separators⟩

theorem Sectioned.longer {x separator : α} {segment : List α} (kept : isSeparator x = false)
    (h : Sectioned isSeparator items ((segment, separator) :: sections) rest) :
    Sectioned isSeparator (x :: items) ((x :: segment, separator) :: sections) rest where
  whole := by rw [h.whole]; rfl
  segments := by
    obtain ⟨first, others⟩ := List.forall_mem_cons.mp h.segments
    exact List.forall_mem_cons.mpr ⟨List.forall_mem_cons.mpr ⟨kept, first⟩, others⟩
  separators := by
    obtain ⟨first, others⟩ := List.forall_mem_cons.mp h.separators
    exact List.forall_mem_cons.mpr ⟨first, others⟩

structure CutInto (isSeparator : α → Bool) (budget : Option Nat) (items : List α)
    (sections : List (List α × α)) (rest : List α) : Prop where
  sectioned : Sectioned isSeparator items sections rest
  count : sections.length = budget.elim (items.countP isSeparator) (min (items.countP isSeparator))
  keeping : cuts isSeparator true budget items =
    sections.flatMap (fun part => [part.1, [part.2]]) ++ [rest]
  dropping : cuts isSeparator false budget items = sections.map (·.1) ++ [rest]

theorem CutInto.separator {budget : Option Nat} {x : α} (separates : isSeparator x = true)
    (left : budget ≠ some 0) (h : CutInto isSeparator (budget.map (· - 1)) items sections rest) :
    CutInto isSeparator budget (x :: items) (([], x) :: sections) rest where
  sectioned := h.sectioned.separator separates
  count := by
    rw [List.length_cons, h.count, List.countP_cons_of_pos separates]
    cases budget with
    | none => rfl
    | some most =>
      have positive : most ≠ 0 := by simpa using left
      simp only [Option.map_some, Option.elim_some]
      omega
  keeping := by simp [cuts, separates, left, h.keeping]
  dropping := by simp [cuts, separates, left, h.dropping]

theorem CutInto.item {budget : Option Nat} {x : α} (uncut : isSeparator x = true → budget = some 0)
    (h : CutInto isSeparator budget items sections rest) :
    ∃ sections rest, CutInto isSeparator budget (x :: items) sections rest := by
  have step : ∀ keep, cuts isSeparator keep budget (x :: items) =
      (cuts isSeparator keep budget items).modifyHead (x :: ·) := by
    intro keep
    rw [cuts, if_neg (by simpa using uncut)]
  -- The item joins the segment behind it, or the rest if nothing is cut any more.
  cases sections with
  | nil =>
    have same : items = rest := h.sectioned.whole
    subst same
    refine ⟨[], x :: items, .uncut _, ?_, by rw [step, h.keeping]; rfl, by rw [step, h.dropping]; rfl⟩
    by_cases separates : isSeparator x = true
    · simp [uncut separates]
    · rw [List.countP_cons_of_neg separates]
      exact h.count
  | cons part sections =>
    -- With a cut behind it, a separator would be cut at too.
    have kept : isSeparator x = false := by
      by_contra separates
      have count := h.count
      simp [uncut (by simpa using separates)] at count
    refine ⟨(x :: part.1, part.2) :: sections, rest, h.sectioned.longer kept, ?_,
      by rw [step, h.keeping]; rfl, by rw [step, h.dropping]; rfl⟩
    rw [List.countP_cons_of_neg (by simp [kept])]
    exact h.count

theorem exists_cutInto (isSeparator : α → Bool) (budget : Option Nat) (items : List α) :
    ∃ sections rest, CutInto isSeparator budget items sections rest := by
  induction items generalizing budget with
  | nil => exact ⟨[], [], .uncut [], by cases budget <;> simp, rfl, rfl⟩
  | cons x items ih =>
    by_cases cut : isSeparator x = true ∧ budget ≠ some 0
    · obtain ⟨sections, rest, later⟩ := ih (budget.map (· - 1))
      exact ⟨_, _, later.separator cut.1 cut.2⟩
    · obtain ⟨sections, rest, later⟩ := ih budget
      exact later.item (by simpa using cut)

/-- How many of so many separators a limit lets cut. -/
def cutCount : Option Int → Nat → Int
  | none, separators => separators
  | some limit, separators => min separators (max 0 limit)

theorem cutCount_eq (limit : Option Int) (separators : Nat) :
    cutCount limit separators = (budgetOf limit).elim separators (min separators) := by
  cases limit with
  | none => rfl
  | some limit =>
    simp only [cutCount, budgetOf, Option.map_some, Option.elim_some]
    omega

/-- What follows the last cut is a part only if it is not empty. -/
def lastPart (rest : List α) : List (List α) := if rest.isEmpty then [] else [rest]

@[simp] theorem flatten_lastPart (rest : List α) : (lastPart rest).flatten = rest := by
  cases rest <;> simp [lastPart]

theorem splitItems_of_cuts {limit : Option Int} {keep : Bool} {parts : List (List α)}
    (h : cuts isSeparator keep (budgetOf limit) items = parts ++ [rest]) :
    splitItems isSeparator limit keep items = parts ++ lastPart rest := by
  rw [splitItems, h, lastPart]
  cases rest <;> simp

theorem exists_splitItems (isSeparator : α → Bool) (limit : Option Int) (items : List α) :
    ∃ sections rest, Sectioned isSeparator items sections rest ∧
      sections.length = cutCount limit (items.countP isSeparator) ∧
      splitItems isSeparator limit true items =
        sections.flatMap (fun part => [part.1, [part.2]]) ++ lastPart rest ∧
      splitItems isSeparator limit false items = sections.map (·.1) ++ lastPart rest := by
  obtain ⟨sections, rest, cut⟩ := exists_cutInto isSeparator (budgetOf limit) items
  refine ⟨sections, rest, cut.sectioned, ?_, splitItems_of_cuts cut.keeping,
    splitItems_of_cuts cut.dropping⟩
  rw [cutCount_eq, cut.count]

theorem flatten_splitItems (isSeparator : α → Bool) (limit : Option Int) (items : List α) :
    (splitItems isSeparator limit true items).flatten = items := by
  obtain ⟨sections, rest, sectioned, -, keeping, -⟩ := exists_splitItems isSeparator limit items
  rw [keeping, List.flatten_append, flatten_lastPart, sectioned.whole, List.flatten_eq_flatMap,
    List.flatMap_assoc]
  simp

theorem isUnescaped_eq_true_iff {c : Char} {p : Scanned} :
    isUnescaped (· == c) p = true ↔ p = ⟨false, c⟩ := by
  refine ⟨Call.eq_of_isUnescaped, ?_⟩
  rintro rfl
  simp [isUnescaped]

theorem Sectioned.exists_pieces {separator : Char} {pairs rest : List Scanned}
    {sections : List (List Scanned × Scanned)}
    (h : Sectioned (isUnescaped (· == separator)) pairs sections rest)
    (marks : bareMark ∉ pairs.dropLast) :
    ∃ (pieces : List (List Char)) (tail : List Char),
      sections = pieces.map (fun piece => (scan piece, ⟨false, separator⟩)) ∧ rest = scan tail := by
  obtain ⟨shape, -, separators⟩ := h
  -- Only the rest reaches the end of a text, where a mark may stand that escapes nothing.
  induction sections generalizing pairs with
  | nil =>
    rw [shape] at marks
    exact ⟨[], restore rest, rfl, (scan_restore_of_dropLast marks).symm⟩
  | cons part sections ih =>
    obtain ⟨first, others⟩ := List.forall_mem_cons.mp separators
    rw [shape, List.flatMap_cons, List.append_assoc, List.append_assoc] at marks
    obtain ⟨behind, clean⟩ := notMem_dropLast_append marks
    obtain ⟨pieces, tail, rfl, same⟩ := ih (notMem_dropLast_tail behind) rfl others
    refine ⟨restore part.1 :: pieces, tail, ?_, same⟩
    rw [List.map_cons, scan_restore (clean (by simp)), ← isUnescaped_eq_true_iff.mp first]

theorem map_restore_lastPart (tail : List Char) :
    (lastPart (scan tail)).map restore = lastPart tail := by
  cases tail with
  | nil => rfl
  | cons c tail => simp [lastPart]

theorem exists_splitUnescaped (separator : Char) (limit : Option Int) (s : List Char) :
    ∃ (pieces : List (List Char)) (tail : List Char),
      Sectioned (isUnescaped (· == separator)) (scan s)
        (pieces.map fun piece => (scan piece, ⟨false, separator⟩)) (scan tail) ∧
      pieces.length = cutCount limit ((scan s).count ⟨false, separator⟩) ∧
      splitUnescaped (· == separator) limit true s =
        pieces.flatMap (fun piece => [piece, [separator]]) ++ lastPart tail ∧
      splitUnescaped (· == separator) limit false s = pieces ++ lastPart tail := by
  obtain ⟨sections, rest, sectioned, count, keeping, dropping⟩ :=
    exists_splitItems (isUnescaped (· == separator)) limit (scan s)
  obtain ⟨pieces, tail, rfl, rfl⟩ := sectioned.exists_pieces (bareMark_notMem_scan s)
  refine ⟨pieces, tail, sectioned, ?_, ?_, ?_⟩
  · have same : (scan s).countP (isUnescaped (· == separator)) = (scan s).count ⟨false, separator⟩ := by
      rw [List.count_eq_countP]
      refine List.countP_congr fun p _ => ?_
      rw [isUnescaped_eq_true_iff, beq_iff_eq]
    rw [← same, ← count, List.length_map]
  · rw [splitUnescaped, keeping, List.map_append, map_restore_lastPart, List.flatMap_map,
      List.map_flatMap]
    simp
  · rw [splitUnescaped, dropping, List.map_append, map_restore_lastPart, List.map_map, List.map_map]
    simp [Function.comp_def]

theorem flatMap_scan_splitUnescaped (separator : Char) (limit : Option Int) (s : List Char) :
    (splitUnescaped (· == separator) limit true s).flatMap scan = scan s := by
  obtain ⟨pieces, tail, sectioned, -, keeping, -⟩ := exists_splitUnescaped separator limit s
  have last : (lastPart tail).flatMap scan = scan tail := by
    cases tail <;> simp [lastPart]
  rw [keeping, List.flatMap_append, last, sectioned.whole, List.flatMap_map, List.flatMap_assoc]
  simp [scan, scanWith]

theorem restore_flatMap_scan (parts : List (List Char)) :
    restore (parts.flatMap scan) = parts.flatten := by
  induction parts with
  | nil => rfl
  | cons part parts ih => rw [List.flatMap_cons, restore_append, restore_scan, ih, List.flatten_cons]

/-- A split loses nothing and cuts exactly at the first separators, as many as its limit allows. In a
    text only characters that are not escaped separate, and each piece is read on its own as it is read
    in the whole text. -/
theorem splits_lose_nothing (isSeparator : α → Bool) (limit : Option Int) (items : List α)
    (separator : Char) (s : List Char) :
    (splitItems isSeparator limit true items).flatten = items ∧
      (∃ sections rest, Sectioned isSeparator items sections rest ∧
        sections.length = cutCount limit (items.countP isSeparator) ∧
        splitItems isSeparator limit true items =
          sections.flatMap (fun part => [part.1, [part.2]]) ++ lastPart rest ∧
        splitItems isSeparator limit false items = sections.map (·.1) ++ lastPart rest) ∧
      (splitUnescaped (· == separator) limit true s).flatten = s ∧
      (splitUnescaped (· == separator) limit true s).flatMap scan = scan s ∧
      ∃ (pieces : List (List Char)) (tail : List Char),
        Sectioned (isUnescaped (· == separator)) (scan s)
          (pieces.map fun piece => (scan piece, ⟨false, separator⟩)) (scan tail) ∧
        pieces.length = cutCount limit ((scan s).count ⟨false, separator⟩) ∧
        splitUnescaped (· == separator) limit true s =
          pieces.flatMap (fun piece => [piece, [separator]]) ++ lastPart tail ∧
        splitUnescaped (· == separator) limit false s = pieces ++ lastPart tail := by
  have aligned := flatMap_scan_splitUnescaped separator limit s
  refine ⟨flatten_splitItems isSeparator limit items, exists_splitItems isSeparator limit items, ?_,
    aligned, exists_splitUnescaped separator limit s⟩
  rw [← restore_flatMap_scan, aligned, restore_scan]

end BracketMarkup
