import BracketMarkup.Proofs.Alignment

namespace BracketMarkup

/-- No character of a text is looked for, but for escaped ones. -/
def Unwanted (wanted : Char → Bool) (text : List Char) : Prop :=
  ∀ p ∈ scan text, isUnescaped wanted p = false

/-- A cut at a character that is looked for and not escaped. Nothing is lost, and on their own the texts
    on both sides are read as they are read in the whole text. -/
structure CutAt (wanted : Char → Bool) (s : List Char) (cut : Cut) : Prop where
  text : s = cut.before ++ cut.found :: cut.after
  pairs : scan s = scan cut.before ++ ⟨false, cut.found⟩ :: scan cut.after
  found : wanted cut.found = true

/-- The text before a cut, the character there and the text after it. A text that is not cut has its
    parts given. -/
def partsOf (uncut : List Char × List Char × List Char) :
    Option Cut → List Char × List Char × List Char
  | none => uncut
  | some cut => (cut.before, [cut.found], cut.after)

theorem cutAt_of_scan {wanted : Char → Bool} {s : List Char} {front back : List Scanned} {p : Scanned}
    (split : scan s = front ++ p :: back) (found : isUnescaped wanted p = true) :
    scan (restore front) = front ∧ scan (restore back) = back ∧
      CutAt wanted s ⟨restore front, p.char, restore back⟩ := by
  have marks := bareMark_notMem_scan s
  rw [split] at marks
  obtain ⟨scanFront, -, scanBack, -⟩ := scan_parts (List.cons_ne_nil p []) marks
  obtain ⟨escaped, c⟩ := p
  obtain ⟨rfl, sought⟩ : escaped = false ∧ wanted c = true := by simpa [isUnescaped] using found
  refine ⟨scanFront, scanBack, ?_, ?_, sought⟩
  · rw [← restore_scan s, split]
    simp
  · rw [scanFront, scanBack, split]

theorem span_wanted_iff {α : Type} {wanted : α → Bool} {items front back : List α} {x : α} :
    (items.takeWhile (!wanted ·) = front ∧ items.dropWhile (!wanted ·) = x :: back) ↔
      items = front ++ x :: back ∧ wanted x = true ∧ ∀ y ∈ front, wanted y = false := by
  constructor
  · rintro ⟨rfl, behind⟩
    refine ⟨?_, ?_, fun y member => ?_⟩
    · rw [← behind, List.takeWhile_append_dropWhile]
    · have first := List.head_dropWhile_not (!wanted ·) (l := items) (by simp [behind])
      simpa [behind] using first
    · simpa using List.mem_takeWhile_imp member
  · rintro ⟨rfl, found, free⟩
    have passed : ∀ y ∈ front, (!wanted y) = true := by simpa using free
    rw [List.takeWhile_append_of_pos passed, List.dropWhile_append_of_pos passed]
    simp [found]

theorem span_wanted_reverse_iff {α : Type} {wanted : α → Bool} {items front back : List α} {x : α} :
    (items.reverse.takeWhile (!wanted ·) = back ∧ items.reverse.dropWhile (!wanted ·) = x :: front) ↔
      items = front.reverse ++ x :: back.reverse ∧ wanted x = true ∧ ∀ y ∈ back, wanted y = false := by
  have shape : items.reverse = back ++ x :: front ↔ items = front.reverse ++ x :: back.reverse := by
    rw [List.reverse_eq_iff]
    simp
  rw [span_wanted_iff, shape]

theorem cutFirst?_eq_some_iff {wanted : Char → Bool} {s : List Char} {cut : Cut} :
    cutFirst? wanted s = some cut ↔ CutAt wanted s cut ∧ Unwanted wanted cut.before := by
  rw [cutFirst?]
  constructor
  · intro h
    cases behind : (scan s).dropWhile (!isUnescaped wanted ·) with
    | nil => rw [behind] at h; cases h
    | cons p back =>
      rw [behind] at h
      cases h
      obtain ⟨split, found, free⟩ := span_wanted_iff.mp ⟨rfl, behind⟩
      obtain ⟨scanFront, -, place⟩ := cutAt_of_scan split found
      refine ⟨place, ?_⟩
      rw [Unwanted, scanFront]
      exact free
  · rintro ⟨place, free⟩
    obtain ⟨front, behind⟩ :=
      span_wanted_iff.mpr ⟨place.pairs, by simpa [isUnescaped] using place.found, free⟩
    simp [front, behind]

theorem cutLast?_eq_some_iff {wanted : Char → Bool} {s : List Char} {cut : Cut} :
    cutLast? wanted s = some cut ↔ CutAt wanted s cut ∧ Unwanted wanted cut.after := by
  rw [cutLast?]
  constructor
  · intro h
    cases before : (scan s).reverse.dropWhile (!isUnescaped wanted ·) with
    | nil => rw [before] at h; cases h
    | cons p front =>
      rw [before] at h
      cases h
      obtain ⟨split, found, free⟩ := span_wanted_reverse_iff.mp ⟨rfl, before⟩
      obtain ⟨-, scanBack, place⟩ := cutAt_of_scan split found
      refine ⟨place, ?_⟩
      rw [Unwanted, scanBack]
      simpa using free
  · rintro ⟨place, free⟩
    have spanned : (scan s).reverse.takeWhile (!isUnescaped wanted ·) = (scan cut.after).reverse ∧
        (scan s).reverse.dropWhile (!isUnescaped wanted ·) =
          ⟨false, cut.found⟩ :: (scan cut.before).reverse :=
      span_wanted_reverse_iff.mpr ⟨by simpa using place.pairs,
        by simpa [isUnescaped] using place.found, by simpa [Unwanted] using free⟩
    simp [spanned.1, spanned.2]

theorem cutFirst?_eq_none_iff {wanted : Char → Bool} {s : List Char} :
    cutFirst? wanted s = none ↔ Unwanted wanted s := by
  have none : cutFirst? wanted s = none ↔ (scan s).dropWhile (!isUnescaped wanted ·) = [] := by
    rw [cutFirst?]
    split <;> simp [*]
  rw [none, List.dropWhile_eq_nil_iff]
  simp [Unwanted]

theorem cutLast?_eq_none_iff {wanted : Char → Bool} {s : List Char} :
    cutLast? wanted s = none ↔ Unwanted wanted s := by
  have none : cutLast? wanted s = none ↔
      (scan s).reverse.dropWhile (!isUnescaped wanted ·) = [] := by
    rw [cutLast?]
    split <;> simp [*]
  rw [none, List.dropWhile_eq_nil_iff]
  simp [Unwanted]

theorem partsOf_eq_uncut_iff {first last : List Char} {cut : Option Cut} :
    partsOf (first, [], last) cut = (first, [], last) ↔ cut = none := by
  cases cut <;> simp [partsOf]

/-- A text is cut at the first or the last unescaped character that is looked for, and loses nothing. It
    stays whole just if there is no such character. -/
theorem cut_at_first_or_last (wanted : Char → Bool) (s : List Char) :
    (∀ cut, cutFirst? wanted s = some cut ↔ CutAt wanted s cut ∧ Unwanted wanted cut.before) ∧
      (partsOf (s, [], []) (cutFirst? wanted s) = (s, [], []) ↔ Unwanted wanted s) ∧
      (∀ cut, cutLast? wanted s = some cut ↔ CutAt wanted s cut ∧ Unwanted wanted cut.after) ∧
      (partsOf ([], [], s) (cutLast? wanted s) = ([], [], s) ↔ Unwanted wanted s) := by
  refine ⟨fun cut => cutFirst?_eq_some_iff, ?_, fun cut => cutLast?_eq_some_iff, ?_⟩
  · rw [partsOf_eq_uncut_iff, cutFirst?_eq_none_iff]
  · rw [partsOf_eq_uncut_iff, cutLast?_eq_none_iff]

end BracketMarkup
