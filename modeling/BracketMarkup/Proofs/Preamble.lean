import BracketMarkup.Source.Preamble
import BracketMarkup.Proofs.Arguments
import Mathlib.Data.List.TakeWhile

namespace BracketMarkup

theorem splitOn_eq_cuts (c : Char) (s : List Char) : s.splitOn c = cuts (· == c) false none s := by
  induction s with
  | nil => rfl
  | cons d rest ih =>
    rw [List.splitOn_cons_eq_if_modifyHead, ih]
    split
    · rename_i same
      exact (@cuts_separator _ (· == c) d same rest).symm
    · rename_i other
      exact (@cuts_cons _ (· == c) d (by simpa using other) rest).symm

theorem mem_of_mem_linesOf {text line : List Char} (h : line ∈ linesOf text) {c : Char}
    (member : c ∈ line) : c ∈ text ∧ c ≠ '\n' := by
  rw [linesOf, splitOn_eq_cuts] at h
  simpa using mem_of_mem_cuts h member

def MetadataLine (key value line : List Char) : Prop :=
  ∃ gap wide first more, line = '!' :: (gap ++ (key ++ (wide ++ value))) ∧ value = first :: more ∧
    (∀ c ∈ gap, isBlank c = true) ∧ key ≠ [] ∧ (∀ c ∈ key, isBlank c = false) ∧ wide ≠ [] ∧
    (∀ c ∈ wide, isBlank c = true) ∧ isBlank first = false

theorem isGap_of_ne {c : Char} (h : c ≠ '\n') : isGap c = isBlank c := by
  simp [isGap, h]

theorem mem_of_head?_append {front rest : List Char} {c : Char} (filled : front ≠ [])
    (h : (front ++ rest).head? = some c) : c ∈ front := by
  cases front with
  | nil => exact absurd rfl filled
  | cons d front =>
    cases h
    simp

theorem span_append {p : Char → Bool} {front : List Char} (rest : List Char)
    (h : ∀ c ∈ front, p c = true) (stops : ∀ c, rest.head? = some c → p c = false) :
    (front ++ rest).takeWhile p = front ∧ (front ++ rest).dropWhile p = rest := by
  rw [List.takeWhile_append_of_pos h, List.dropWhile_append_of_pos h]
  cases rest with
  | nil => simp
  | cons c rest => simp [stops c rfl]

theorem metadataPair?_of_line {key value line : List Char} (h : MetadataLine key value line)
    (whole : '\n' ∉ line) : metadataPair? line = some (key, value) := by
  obtain ⟨gap, wide, first, more, rfl, valued, gapBlank, keyed, keyDark, parted, wideBlank, dark⟩ := h
  simp only [List.mem_cons, List.mem_append, not_or] at whole
  obtain ⟨-, inGap, -, inWide, inValue⟩ := whole
  have text := (span_append (p := isGap) (key ++ (wide ++ value))
    (fun c member => by rw [isGap_of_ne (fun same => inGap (same ▸ member)), gapBlank c member])
    (fun c starts => by simp [isGap, keyDark c (mem_of_head?_append keyed starts)])).2
  have names := span_append (p := (!isBlank ·)) (wide ++ value)
    (fun c member => by rw [keyDark c member]; rfl)
    (fun c starts => by simp [wideBlank c (mem_of_head?_append parted starts)])
  have last := (span_append (p := isGap) value
    (fun c member => by rw [isGap_of_ne (fun same => inWide (same ▸ member)), wideBlank c member])
    (fun c starts => by
      rw [valued] at starts
      cases starts
      simp [isGap, dark])).2
  unfold metadataPair?
  simp only [text, names.1, names.2, last]
  cases wide with
  | nil => exact absurd rfl parted
  | cons w wide =>
    have isWide : isGap w = true := by
      rw [isGap_of_ne (fun same => inWide (by simp [same])), wideBlank w (by simp)]
    subst valued
    simp only [List.cons_append]
    rw [if_pos ⟨keyed, isWide, by simp [dark], inValue⟩]

theorem line_of_metadataPair? {key value line : List Char}
    (h : metadataPair? line = some (key, value)) : MetadataLine key value line ∧ '\n' ∉ value := by
  unfold metadataPair? at h
  split at h
  · rename_i rest
    dsimp only at h
    split at h
    · rename_i gap behind first more gapped last
      split at h
      · rename_i conditions
        obtain ⟨keyed, isWide, dark, unbroken⟩ := conditions
        cases h
        have whole : rest = rest.takeWhile isGap ++ ((rest.dropWhile isGap).takeWhile (!isBlank ·) ++
            (((rest.dropWhile isGap).dropWhile (!isBlank ·)).takeWhile isGap ++
              ((rest.dropWhile isGap).dropWhile (!isBlank ·)).dropWhile isGap)) := by
          simp only [List.takeWhile_append_dropWhile]
        have blanks : ∀ {s : List Char} {c : Char}, c ∈ s.takeWhile isGap → isBlank c = true := by
          intro s c member
          have isGap := List.mem_takeWhile_imp member
          simp only [BracketMarkup.isGap, Bool.and_eq_true] at isGap
          exact isGap.1
        refine ⟨⟨_, _, first, more, congrArg ('!' :: ·) whole, last, fun c => blanks, keyed, ?_, ?_,
          fun c => blanks, by simpa using dark⟩, unbroken⟩
        · intro c member
          simpa using List.mem_takeWhile_imp member
        · rw [gapped, List.takeWhile_cons_of_pos isWide]
          simp
      · cases h
    · cases h
  · cases h

theorem metadataPair?_eq_some_iff {key value line : List Char} (whole : '\n' ∉ line) :
    metadataPair? line = some (key, value) ↔ MetadataLine key value line :=
  ⟨fun h => (line_of_metadataPair? h).1, fun h => metadataPair?_of_line h whole⟩

def Malformed (line : List Char) : Prop :=
  line.head? = some '!' ∧ ∀ key value, ¬ MetadataLine key value line

theorem malformed_iff {line : List Char} (whole : '\n' ∉ line) :
    Malformed line ↔ line.head? = some '!' ∧ metadataPair? line = none := by
  refine and_congr_right fun _ => ?_
  constructor
  · intro none
    cases found : metadataPair? line with
    | none => rfl
    | some pair => exact absurd ((metadataPair?_eq_some_iff whole).mp found) (none pair.1 pair.2)
  · intro none key value shaped
    rw [metadataPair?_of_line shaped whole] at none
    cases none

def keptLine? (line : List Char) : Option (List Char) :=
  if line.head? = some '!' then none else bodyLine? line

theorem metadataPair?_other {line : List Char} (h : line.head? ≠ some '!') :
    metadataPair? line = none := by
  unfold metadataPair?
  split
  · exact absurd rfl h
  · rfl

theorem separateLines_ok {lines : List (List Char)} (metadata : Bindings) (number : Nat)
    (h : ∀ line ∈ lines, '\n' ∉ line ∧ ¬ Malformed line) :
    separateLines metadata number lines =
      .ok ⟨metadata.override (lines.filterMap metadataPair?), lines.filterMap keptLine?⟩ := by
  induction lines generalizing metadata number with
  | nil => rfl
  | cons line rest ih =>
    obtain ⟨whole, formed⟩ := h line (by simp)
    have later := fun metadata => ih metadata (number + 1)
      fun line member => h line (List.mem_cons_of_mem _ member)
    rw [separateLines]
    by_cases marked : line.head? = some '!'
    · rw [if_pos marked, List.filterMap_cons, List.filterMap_cons]
      cases found : metadataPair? line with
      | none => exact absurd ((malformed_iff whole).mpr ⟨marked, found⟩) formed
      | some pair => simp only [later, keptLine?, marked, if_true]; rfl
    · rw [if_neg marked, List.filterMap_cons, List.filterMap_cons, metadataPair?_other marked, later]
      simp only [keptLine?, marked, if_false]
      cases bodyLine? line <;> rfl

theorem separateLines_error {before : List (List Char)} {line : List Char} (metadata : Bindings)
    (number : Nat) (after : List (List Char)) (h : ∀ other ∈ before, '\n' ∉ other ∧ ¬ Malformed other)
    (whole : '\n' ∉ line) (malformed : Malformed line) :
    separateLines metadata number (before ++ line :: after) =
      .error ⟨number + before.length, line⟩ := by
  induction before generalizing metadata number with
  | nil =>
    obtain ⟨marked, none⟩ := (malformed_iff whole).mp malformed
    simp only [List.nil_append, separateLines, marked, if_true, none]
    rfl
  | cons other before ih =>
    obtain ⟨otherWhole, formed⟩ := h other (by simp)
    have later := fun metadata => ih metadata (number + 1)
      fun line member => h line (List.mem_cons_of_mem _ member)
    rw [List.cons_append, separateLines, List.length_cons, Nat.add_comm before.length,
      ← Nat.add_assoc]
    by_cases marked : other.head? = some '!'
    · rw [if_pos marked]
      cases found : metadataPair? other with
      | none => exact absurd ((malformed_iff otherWhole).mpr ⟨marked, found⟩) formed
      | some pair => exact later _
    · rw [if_neg marked, later]
      rfl

/-- The lines of a text after continued lines are joined. -/
def logicalLines (text : List Char) : List (List Char) := linesOf (joinContinued text)

def bodyOf (text : List Char) : List Char :=
  desugar (unlines ((logicalLines text).filterMap keptLine?))

theorem whole_of_mem_logicalLines {text line : List Char} (h : line ∈ logicalLines text) :
    '\n' ∉ line :=
  fun member => (mem_of_mem_linesOf h member).2 rfl

theorem separate_ok {text : List Char} (h : ∀ line ∈ logicalLines text, ¬ Malformed line) :
    separate text = .ok (Bindings.override [] ((logicalLines text).filterMap metadataPair?),
      unlines ((logicalLines text).filterMap keptLine?)) := by
  have lines := separateLines_ok [] 1 fun line member =>
    ⟨whole_of_mem_logicalLines member, h line member⟩
  rw [separate]
  change (separateLines [] 1 (logicalLines text) >>= _) = _
  rw [lines]
  rfl

theorem separate_error {text line : List Char} {before after : List (List Char)}
    (lines : logicalLines text = before ++ line :: after) (h : ∀ other ∈ before, ¬ Malformed other)
    (malformed : Malformed line) : separate text = .error ⟨before.length + 1, line⟩ := by
  have whole : ∀ other ∈ before ++ line :: after, '\n' ∉ other :=
    fun other member => whole_of_mem_logicalLines (lines ▸ member)
  have found := separateLines_error [] 1 after
    (fun other member => ⟨whole other (by simp [member]), h other member⟩)
    (whole line (by simp)) malformed
  rw [separate]
  change (separateLines [] 1 (logicalLines text) >>= _) = _
  rw [lines, found, Nat.add_comm]
  rfl

end BracketMarkup
