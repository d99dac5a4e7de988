import BracketMarkup.Proofs.Extracts
import BracketMarkup.Proofs.References

namespace BracketMarkup.Template

/-- A text that an alternative stands for as it is written: no mark and no quotes are taken off it and
    no colon in it starts another alternative. -/
structure PlainAlternative (text : List Char) : Prop where
  unmarked : escapeMark ∉ text
  closed : text.count '"' % 2 = 0
  colons : ∀ front back, text = front ++ ':' :: back → front.count '"' % 2 = 1
  unquoted : ∀ inside, text ≠ '"' :: (inside ++ ['"'])

def quotedAfter (quoted : Bool) : List Scanned → Bool
  | [] => quoted
  | p :: rest => quotedAfter (if p = ⟨false, '"'⟩ then !quoted else quoted) rest

theorem quotedAfter_plain (quoted : Bool) (text : List Char) :
    quotedAfter quoted (text.map (⟨false, ·⟩)) = (quoted != decide (text.count '"' % 2 = 1)) := by
  induction text generalizing quoted with
  | nil => cases quoted <;> rfl
  | cons c text ih =>
    rw [List.map_cons, quotedAfter, ih, List.count_cons]
    by_cases quote : c = '"'
    · subst quote
      have parity := Nat.mod_two_eq_zero_or_one (text.count '"')
      rcases parity with even | odd
      · have next : (text.count '"' + 1) % 2 = 1 := by omega
        cases quoted <;> simp [even, next]
      · have next : (text.count '"' + 1) % 2 = 0 := by omega
        cases quoted <;> simp [odd, next]
    · simp [quote]

theorem scan_unmarked {text : List Char} (h : escapeMark ∉ text) :
    scan text = text.map (⟨false, ·⟩) := by
  induction text with
  | nil => rfl
  | cons c text ih =>
    rw [List.mem_cons, not_or] at h
    rw [scan_plain_cons (Ne.symm h.1), ih h.2, List.map_cons]

theorem map_char_plain (text : List Char) :
    (text.map fun c => (⟨false, c⟩ : Scanned)).map (·.char) = text := by
  simp [Function.comp_def]

theorem length_le_restore (pairs : List Scanned) : pairs.length ≤ (restore pairs).length := by
  have taken := (map_char_sublist pairs).length_le
  rwa [List.length_map] at taken

theorem unmarked_of_length {text : List Char} (complete : bareMark ∉ scan text)
    (same : (scan text).length = text.length) : escapeMark ∉ text := by
  have written : ∀ pairs : List Scanned, bareMark ∉ pairs → pairs.length = (restore pairs).length →
      escapeMark ∉ restore pairs := by
    intro pairs
    induction pairs with
    | nil => simp
    | cons p pairs ih =>
      intro bare size
      rw [List.mem_cons, not_or] at bare
      have rest := length_le_restore pairs
      obtain ⟨escaped, c⟩ := p
      cases escaped with
      | true =>
        simp only [restore_cons, write_escaped, List.length_append, List.length_cons] at size
        omega
      | false =>
        simp only [restore_cons, write_plain, List.length_append, List.length_cons] at size
        have later := ih bare.2 (by simp at size; omega)
        have plain : escapeMark ≠ c := fun marks => bare.1 (by rw [← marks]; rfl)
        simp [plain, later]
  have whole := written (scan text) complete
  rw [restore_scan] at whole
  exact whole same

theorem readAlternatives_ne_nil (quoted : Bool) (pairs : List Scanned) :
    readAlternatives quoted pairs ≠ [] := by
  induction pairs generalizing quoted with
  | nil => simp [readAlternatives]
  | cons p rest ih =>
    rw [readAlternatives]
    split
    · simpa using ih _
    · split
      · simp
      · simpa using ih _

theorem readAlternatives_append (quoted : Bool) (front rest : List Scanned) :
    ∃ parts last, readAlternatives quoted front = parts ++ [last] ∧
      readAlternatives quoted (front ++ rest) =
        parts ++ (readAlternatives (quotedAfter quoted front) rest).modifyHead (last ++ ·) := by
  have goesOn : ∀ (p : Scanned) (inside : Bool) (front : List Scanned),
      (∃ parts last, readAlternatives inside front = parts ++ [last] ∧
        readAlternatives inside (front ++ rest) =
          parts ++ (readAlternatives (quotedAfter inside front) rest).modifyHead (last ++ ·)) →
      ∃ parts last, (readAlternatives inside front).modifyHead (p :: ·) = parts ++ [last] ∧
        (readAlternatives inside (front ++ rest)).modifyHead (p :: ·) =
          parts ++ (readAlternatives (quotedAfter inside front) rest).modifyHead (last ++ ·) := by
    rintro p inside front ⟨parts, last, read, whole⟩
    rw [read, whole]
    cases parts with
    | nil => exact ⟨[], p :: last, rfl, by simp [List.modifyHead_modifyHead, Function.comp_def]⟩
    | cons part parts => exact ⟨(p :: part) :: parts, last, rfl, rfl⟩
  induction front generalizing quoted with
  | nil =>
    refine ⟨[], [], rfl, ?_⟩
    obtain ⟨part, parts, shape⟩ := List.exists_cons_of_ne_nil (readAlternatives_ne_nil quoted rest)
    simp [quotedAfter, shape]
  | cons p front ih =>
    rw [List.cons_append, readAlternatives, readAlternatives, quotedAfter]
    by_cases quote : p = ⟨false, '"'⟩
    · simp only [if_pos quote]
      exact goesOn p _ front (ih _)
    · simp only [if_neg quote]
      by_cases splits : p = ⟨false, ':'⟩ ∧ !quoted
      · simp only [if_pos splits]
        obtain ⟨parts, last, read, whole⟩ := ih quoted
        exact ⟨[] :: parts, last, by rw [read]; rfl, by rw [whole]; rfl⟩
      · simp only [if_neg splits]
        exact goesOn p _ front (ih _)

theorem flatten_modifyHead {α : Type} (x : α) {parts : List (List α)} (filled : parts ≠ []) :
    (parts.modifyHead (x :: ·)).flatten = x :: parts.flatten := by
  obtain ⟨part, parts, rfl⟩ := List.exists_cons_of_ne_nil filled
  rfl

theorem readAlternatives_size (quoted : Bool) (pairs : List Scanned) :
    (readAlternatives quoted pairs).flatten.length + (readAlternatives quoted pairs).length =
      pairs.length + 1 := by
  induction pairs generalizing quoted with
  | nil => rfl
  | cons p rest ih =>
    have later := ih quoted
    have other := ih (!quoted)
    rw [readAlternatives]
    split
    · rw [flatten_modifyHead _ (readAlternatives_ne_nil _ _), List.length_modifyHead,
        List.length_cons, List.length_cons]
      omega
    · split
      · rw [List.flatten_cons, List.nil_append, List.length_cons, List.length_cons]
        omega
      · rw [flatten_modifyHead _ (readAlternatives_ne_nil _ _), List.length_modifyHead,
          List.length_cons, List.length_cons]
        omega

theorem readAlternatives_count {c : Char} (other : c ≠ ':') (quoted : Bool) (pairs : List Scanned) :
    ((readAlternatives quoted pairs).flatten.map (·.char)).count c =
      (pairs.map (·.char)).count c := by
  induction pairs generalizing quoted with
  | nil => rfl
  | cons p rest ih =>
    rw [readAlternatives, List.map_cons, List.count_cons]
    split
    · rw [flatten_modifyHead _ (readAlternatives_ne_nil _ _), List.map_cons, List.count_cons, ih]
    · split
      · rename_i splits
        rw [List.flatten_cons, List.nil_append, ih, splits.1]
        simp [Ne.symm other]
      · rw [flatten_modifyHead _ (readAlternatives_ne_nil _ _), List.map_cons, List.count_cons, ih]

theorem readAlternatives_unsplit {quoted : Bool} {pairs : List Scanned}
    (h : ∀ front back, pairs = front ++ ⟨false, ':'⟩ :: back → quotedAfter quoted front = true) :
    readAlternatives quoted pairs = [pairs] := by
  induction pairs generalizing quoted with
  | nil => rfl
  | cons p rest ih =>
    have later : ∀ inside, inside = (if p = ⟨false, '"'⟩ then !quoted else quoted) →
        readAlternatives inside rest = [rest] := by
      rintro inside rfl
      refine ih fun front back same => ?_
      exact h (p :: front) back (by rw [same]; rfl)
    rw [readAlternatives]
    split
    · rename_i quote
      rw [later _ (by rw [if_pos quote])]
      rfl
    · rename_i quote
      split
      · rename_i splits
        have inside := h [] rest (by rw [splits.1]; rfl)
        rw [quotedAfter] at inside
        rw [inside] at splits
        exact absurd splits.2 (by decide)
      · rw [later _ (by rw [if_neg quote])]
        rfl

theorem quotedAfter_of_unsplit {quoted : Bool} {pairs front back : List Scanned}
    (single : (readAlternatives quoted pairs).length = 1)
    (h : pairs = front ++ ⟨false, ':'⟩ :: back) : quotedAfter quoted front = true := by
  obtain ⟨parts, last, -, whole⟩ := readAlternatives_append quoted front (⟨false, ':'⟩ :: back)
  rw [← h] at whole
  rw [whole] at single
  cases inside : quotedAfter quoted front with
  | true => rfl
  | false =>
    rw [inside] at single
    have filled := List.length_pos_iff.mpr (readAlternatives_ne_nil false back)
    simp [readAlternatives] at single
    omega

theorem unquote_cases (alternative : List Scanned) :
    unquote alternative = alternative ∧
        (∀ inside, alternative ≠ ⟨false, '"'⟩ :: (inside ++ [⟨false, '"'⟩])) ∨
      alternative = ⟨false, '"'⟩ :: (unquote alternative ++ [⟨false, '"'⟩]) := by
  by_cases enclosed : 2 ≤ alternative.length ∧ alternative.head? = some ⟨false, '"'⟩ ∧
      alternative.getLast? = some ⟨false, '"'⟩
  · right
    obtain ⟨inside, shape⟩ :
        ∃ inside, alternative = ⟨false, '"'⟩ :: (inside ++ [⟨false, '"'⟩]) := by
      obtain ⟨long, first, last⟩ := enclosed
      obtain ⟨front, rfl⟩ := List.getLast?_eq_some_iff.mp last
      cases front with
      | nil => simp at long
      | cons p inside =>
        cases first
        exact ⟨inside, rfl⟩
    have taken : unquote alternative = inside := by
      rw [unquote, if_pos enclosed, shape]
      simp
    rw [taken, shape]
  · left
    refine ⟨by rw [unquote, if_neg enclosed], ?_⟩
    rintro inside rfl
    exact enclosed ⟨by simp, rfl, by simp [List.getLast?_cons]⟩

theorem unquote_sublist (alternative : List Scanned) :
    (unquote alternative).Sublist alternative := by
  rcases unquote_cases alternative with ⟨same, -⟩ | quoted
  · rw [same]
  · conv_rhs => rw [quoted]
    exact (List.sublist_append_left _ _).cons _

theorem unquote_count {c : Char} (other : c ≠ '"') (alternative : List Scanned) :
    ((unquote alternative).map (·.char)).count c = (alternative.map (·.char)).count c := by
  rcases unquote_cases alternative with ⟨same, -⟩ | quoted
  · rw [same]
  · conv_rhs => rw [quoted]
    simp [Ne.symm other]

theorem restore_count {c : Char} (other : c ≠ escapeMark) (pairs : List Scanned) :
    (restore pairs).count c = (pairs.map (·.char)).count c := by
  induction pairs with
  | nil => rfl
  | cons p pairs ih =>
    obtain ⟨escaped, d⟩ := p
    cases escaped <;> simp [List.count_cons, ih, Ne.symm other]

theorem quotedAfter_plain_iff (text : List Char) :
    quotedAfter false (text.map (⟨false, ·⟩)) = true ↔ text.count '"' % 2 = 1 := by
  rw [quotedAfter_plain]
  simp

theorem colons_plain_iff (text : List Char) :
    (∀ front back, text.map (⟨false, ·⟩) = front ++ (⟨false, ':'⟩ : Scanned) :: back →
        quotedAfter false front = true) ↔
      ∀ front back, text = front ++ ':' :: back → front.count '"' % 2 = 1 := by
  constructor
  · rintro h front back rfl
    exact (quotedAfter_plain_iff front).mp (h _ (back.map (⟨false, ·⟩)) (by simp))
  · intro h front back same
    obtain ⟨before, behind, rfl, rfl, later⟩ := List.map_eq_append_iff.mp same
    obtain ⟨c, after, rfl, colon, -⟩ := List.map_eq_cons_iff.mp later
    cases colon
    exact (quotedAfter_plain_iff before).mpr (h before after rfl)

def untitled : List Char := "Untitled".toList

theorem readAlternatives_untitled (pairs : List Scanned) :
    ∃ inner final, readAlternatives false (pairs ++ scan (':' :: untitled)) = inner ++ [final] ∧
      untitled.length ≤ final.length ∧
      (quotedAfter false pairs = true → untitled.length < final.length) ∧
      (quotedAfter false pairs = false → inner = readAlternatives false pairs) := by
  obtain ⟨parts, last, read, whole⟩ :=
    readAlternatives_append false pairs (scan (':' :: untitled))
  rw [whole, read]
  cases quotedAfter false pairs with
  | false =>
    have tail : readAlternatives false (scan (':' :: untitled)) = [[], scan untitled] := rfl
    refine ⟨parts ++ [last], scan untitled, ?_, by decide, by simp, fun _ => rfl⟩
    rw [tail]
    simp
  | true =>
    have tail : readAlternatives true (scan (':' :: untitled)) = [scan (':' :: untitled)] := rfl
    have size : (scan (':' :: untitled)).length = untitled.length + 1 := rfl
    refine ⟨parts, last ++ scan (':' :: untitled), ?_, ?_, fun _ => ?_, by simp⟩
    · rw [tail]
      simp
    · rw [List.length_append]
      omega
    · rw [List.length_append]
      omega

def alternativeText (alternative : List Scanned) : List Char := (unquote alternative).map (·.char)

theorem length_alternativeText_le (alternative : List Scanned) :
    (alternativeText alternative).length ≤ alternative.length := by
  rw [alternativeText, List.length_map]
  exact (unquote_sublist alternative).length_le

theorem firstAlternative_eq (text : List Char) : firstAlternative text =
    (((readAlternatives false (scan text)).map alternativeText).find? (· != [])).getD [] := rfl

theorem mem_of_mem_firstAlternative {text : List Char} {c : Char} (other : c ≠ ':')
    (h : c ∈ firstAlternative text) : c ∈ text := by
  rw [firstAlternative_eq] at h
  cases found : ((readAlternatives false (scan text)).map alternativeText).find? (· != []) with
  | none =>
    rw [found] at h
    cases h
  | some first =>
    rw [found, Option.getD_some] at h
    obtain ⟨alternative, listed, rfl⟩ := List.mem_map.mp (List.mem_of_find?_eq_some found)
    obtain ⟨p, inside, rfl⟩ := List.mem_map.mp h
    have kept : p ∈ (readAlternatives false (scan text)).flatten :=
      List.mem_flatten.mpr ⟨alternative, listed, (unquote_sublist alternative).subset inside⟩
    have counted := List.count_pos_iff.mpr (List.mem_map_of_mem (f := (·.char)) kept)
    rw [readAlternatives_count other] at counted
    have written := (map_char_sublist (scan text)).subset (List.count_pos_iff.mp counted)
    rwa [restore_scan] at written

theorem firstAlternative_split {text value : List Char} (filled : value ≠ [])
    (h : firstAlternative text = value) :
    ∃ before chosen behind, readAlternatives false (scan text) = before ++ chosen :: behind ∧
      (∀ alternative ∈ before, alternativeText alternative = []) ∧
      alternativeText chosen = value := by
  rw [firstAlternative_eq] at h
  cases found : ((readAlternatives false (scan text)).map alternativeText).find? (· != []) with
  | none =>
    rw [found] at h
    exact absurd h.symm filled
  | some first =>
    rw [found, Option.getD_some] at h
    subst h
    obtain ⟨-, front, back, shape, empty⟩ := List.find?_eq_some_iff_append.mp found
    obtain ⟨before, rest, split, rfl, later⟩ := List.map_eq_append_iff.mp shape
    obtain ⟨chosen, behind, rfl, same, -⟩ := List.map_eq_cons_iff.mp later
    refine ⟨before, chosen, behind, split, fun alternative member => ?_, same⟩
    have none := empty _ (List.mem_map_of_mem member)
    simpa using none

theorem chosen_not_last {value : List Char} {before : List (List Scanned)} {chosen : List Scanned}
    (split : readAlternatives false (scan value ++ scan (':' :: untitled)) = before ++ [chosen])
    (empty : ∀ alternative ∈ before, alternativeText alternative = []) :
    alternativeText chosen ≠ value := by
  intro same
  have counted := readAlternatives_count (c := 'U') (by decide) false
    (scan value ++ scan (':' :: untitled))
  have none : ((before.flatten).map (·.char)).count 'U' = 0 := by
    rw [List.count_eq_zero]
    intro member
    obtain ⟨p, inside, letter⟩ := List.mem_map.mp member
    obtain ⟨alternative, listed, holds⟩ := List.mem_flatten.mp inside
    have absent := unquote_count (c := 'U') (by decide) alternative
    rw [← alternativeText, empty alternative listed, List.count_nil] at absent
    exact List.count_eq_zero.mp absent.symm (letter ▸ List.mem_map_of_mem holds)
  have last : ((scan (':' :: untitled)).map (·.char)).count 'U' = 1 := rfl
  have written := restore_count (c := 'U') (by decide) (scan value)
  have kept := unquote_count (c := 'U') (by decide) chosen
  rw [restore_scan] at written
  rw [← alternativeText, same] at kept
  rw [split, List.flatten_append, List.map_append, List.count_append, none, List.map_append,
    List.count_append, last, ← written, List.flatten_cons, List.flatten_nil, List.append_nil,
    ← kept] at counted
  omega

theorem plainAlternative_of_first {value : List Char} (complete : bareMark ∉ scan value)
    (filled : value ≠ []) (h : firstAlternative (value ++ ':' :: untitled) = value) :
    PlainAlternative value := by
  obtain ⟨before, chosen, behind, split, empty, same⟩ := firstAlternative_split filled h
  rw [scan_append_of_complete complete] at split
  obtain ⟨inner, final, shape, long, longer, outside⟩ := readAlternatives_untitled (scan value)
  have sizes := readAlternatives_size false (scan value ++ scan (':' :: untitled))
  have tail : (scan (':' :: untitled)).length = untitled.length + 1 := rfl
  rcases List.eq_nil_or_concat behind with rfl | ⟨middle, last, rfl⟩
  · exact absurd same (chosen_not_last split empty)
  -- The chosen one stands before the last one, which leaves it no more pairs than the value has.
  have front : before ++ chosen :: middle = inner := by
    rw [split] at shape
    have joined : (before ++ chosen :: middle) ++ [last] = inner ++ [final] := by simpa using shape
    exact (List.append_inj' joined rfl).1
  have member : chosen ∈ inner := by
    rw [← front]
    simp
  have given := length_alternativeText_le chosen
  have pairs := length_le_restore (scan value)
  have room := (List.sublist_flatten_of_mem member).length_le
  have listed := List.length_pos_of_mem member
  rw [restore_scan] at pairs
  rw [same] at given
  rw [shape, List.flatten_append, List.length_append, List.flatten_singleton, List.length_append,
    List.length_singleton, List.length_append, tail] at sizes
  have equal : (scan value).length = value.length := by omega
  have alone : inner.length = 1 := by omega
  have even : quotedAfter false (scan value) = false := by
    by_contra inside
    have more := longer (by simpa using inside)
    omega
  have unmarked := unmarked_of_length complete equal
  have plain := scan_unmarked unmarked
  have single := outside even
  rw [single] at alone
  have split : ∀ front back, scan value = front ++ ⟨false, ':'⟩ :: back →
      quotedAfter false front = true := fun front back => quotedAfter_of_unsplit alone
  refine ⟨unmarked, ?_, ?_, ?_⟩
  · rw [plain, ← Bool.not_eq_true, quotedAfter_plain_iff] at even
    omega
  · rw [plain] at split
    exact (colons_plain_iff value).mp split
  · rintro inside rfl
    rw [readAlternatives_unsplit split] at single
    rw [single] at member
    have whole : chosen = scan ('"' :: (inside ++ ['"'])) := List.mem_singleton.mp member
    rcases unquote_cases chosen with ⟨-, other⟩ | quoted
    · refine other (inside.map (⟨false, ·⟩)) ?_
      rw [whole, plain]
      simp
    · have shorter := congrArg List.length quoted
      have taken := congrArg List.length same
      rw [alternativeText, List.length_map] at taken
      rw [List.length_cons, List.length_append, List.length_singleton, taken, whole, equal] at shorter
      omega

theorem first_of_plainAlternative {value : List Char} (filled : value ≠ [])
    (plain : PlainAlternative value) : firstAlternative (value ++ ':' :: untitled) = value := by
  have pairs := scan_unmarked plain.unmarked
  have complete : bareMark ∉ scan value := by
    rw [pairs]
    intro member
    obtain ⟨c, inside, marks⟩ := List.mem_map.mp member
    exact plain.unmarked (by cases marks; exact inside)
  have outside : quotedAfter false (scan value) = false := by
    rw [← Bool.not_eq_true, pairs, quotedAfter_plain_iff, plain.closed]
    decide
  have split := (colons_plain_iff value).mpr plain.colons
  rw [← pairs] at split
  obtain ⟨inner, final, shape, -, -, same⟩ := readAlternatives_untitled (scan value)
  have text : alternativeText (scan value) = value := by
    rcases unquote_cases (scan value) with ⟨whole, -⟩ | quoted
    · rw [alternativeText, whole, pairs, map_char_plain]
    · refine absurd ?_ (plain.unquoted ((unquote (scan value)).map (·.char)))
      have letters := congrArg (List.map (·.char)) quoted
      rw [pairs, map_char_plain, ← pairs] at letters
      simpa using letters
  rw [firstAlternative_eq, scan_append_of_complete complete, shape, same outside,
    readAlternatives_unsplit split]
  simp [text, filled]

theorem firstAlternative_untitled {value : List Char} (complete : bareMark ∉ scan value)
    (filled : value ≠ []) :
    firstAlternative (value ++ ':' :: untitled) = value ↔ PlainAlternative value :=
  ⟨plainAlternative_of_first complete filled, first_of_plainAlternative filled⟩

end BracketMarkup.Template
