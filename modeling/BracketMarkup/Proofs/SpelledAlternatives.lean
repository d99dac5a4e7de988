import BracketMarkup.Proofs.Alternatives
import BracketMarkup.Proofs.ShellWords

namespace BracketMarkup.Template

/-- An alternative as it is written, with an escape for every character or between double quotes. -/
inductive SpelledAlternative where
  | bare (text : List Char)
  | inQuotes (inside : List Char) (quotable : Quotable inside)

namespace SpelledAlternative

/-- What an alternative stands for. Unlike a word, it takes the escapes between its quotes off. -/
def text : SpelledAlternative → List Char
  | bare text => text
  | inQuotes inside _ => unescape inside

def written : SpelledAlternative → List Char
  | bare text => restore (quoted text)
  | inQuotes inside _ => '"' :: (inside ++ ['"'])

def pairs : SpelledAlternative → List Scanned
  | bare text => quoted text
  | inQuotes inside _ => ⟨false, '"'⟩ :: (scan inside ++ [⟨false, '"'⟩])

theorem scan_written_append (alternative : SpelledAlternative) (rest : List Char) :
    scan (alternative.written ++ rest) = alternative.pairs ++ scan rest := by
  cases alternative with
  | bare text => exact scan_restore_append (plain_notMem_quoted _ text) rest
  | inQuotes inside quotable =>
    rw [written, quotable.scan_append]
    simp [pairs]

theorem alternativeText_pairs (alternative : SpelledAlternative) :
    alternativeText alternative.pairs = alternative.text := by
  cases alternative with
  | bare text =>
    -- Only quotes without an escape enclose an alternative.
    rcases unquote_cases (quoted text) with ⟨same, -⟩ | enclosed
    · rw [pairs, alternativeText, same, map_char_quoted]
      rfl
    · refine absurd ?_ (plain_notMem_quoted '"' text)
      rw [enclosed]
      exact List.mem_cons_self
  | inQuotes inside quotable =>
    have taken : unquote (inQuotes inside quotable).pairs = scan inside := by
      simp [pairs, unquote, List.getLast?_cons]
    rw [alternativeText, taken]
    rfl

end SpelledAlternative

theorem readAlternatives_quoted (text : List Char) (rest : List Scanned) :
    readAlternatives false (quoted text ++ rest) =
      (readAlternatives false rest).modifyHead (quoted text ++ ·) := by
  induction text with
  | nil => exact (congrFun List.modifyHead_id _).symm
  | cons c text ih =>
    have step : readAlternatives false (quoted (c :: text) ++ rest) =
        (readAlternatives false (quoted text ++ rest)).modifyHead (⟨true, c⟩ :: ·) := by
      simp [quoted, readAlternatives]
    rw [step, ih, List.modifyHead_modifyHead]
    rfl

theorem readAlternatives_inside {pairs : List Scanned} (closed : ⟨false, '"'⟩ ∉ pairs)
    (rest : List Scanned) :
    readAlternatives true (pairs ++ ⟨false, '"'⟩ :: rest) =
      (readAlternatives false rest).modifyHead (pairs ++ ⟨false, '"'⟩ :: ·) := by
  induction pairs with
  | nil => rw [List.nil_append, readAlternatives, if_pos rfl]; rfl
  | cons p pairs ih =>
    rw [List.mem_cons, not_or] at closed
    rw [List.cons_append, readAlternatives, if_neg (Ne.symm closed.1), if_neg (by simp), ih closed.2,
      List.modifyHead_modifyHead]
    rfl

theorem readAlternatives_alternative (alternative : SpelledAlternative) (rest : List Char) :
    readAlternatives false (scan (alternative.written ++ rest)) =
      (readAlternatives false (scan rest)).modifyHead (alternative.pairs ++ ·) := by
  rw [alternative.scan_written_append]
  cases alternative with
  | bare text => exact readAlternatives_quoted text (scan rest)
  | inQuotes inside quotable =>
    have shape : (SpelledAlternative.inQuotes inside quotable).pairs ++ scan rest =
        ⟨false, '"'⟩ :: (scan inside ++ ⟨false, '"'⟩ :: scan rest) := by
      simp [SpelledAlternative.pairs]
    rw [shape, readAlternatives, if_pos rfl, Bool.not_false, readAlternatives_inside quotable.closed,
      List.modifyHead_modifyHead]
    simp [SpelledAlternative.pairs, Function.comp_def]

theorem readAlternatives_joined {alternatives : List SpelledAlternative} (filled : alternatives ≠ []) :
    readAlternatives false (scan ([':'].intercalate (alternatives.map (·.written)))) =
      alternatives.map (·.pairs) := by
  induction alternatives with
  | nil => exact absurd rfl filled
  | cons alternative rest ih =>
    by_cases last : rest = []
    · subst last
      have alone := readAlternatives_alternative alternative []
      rw [List.append_nil] at alone
      rw [List.map_singleton, List.intercalate_singleton, alone]
      simp [readAlternatives]
    · rw [List.map_cons, List.intercalate_cons_of_ne_nil (by simpa using last), List.append_assoc,
        readAlternatives_alternative, List.singleton_append, scan_plain_cons (by decide),
        readAlternatives, if_neg (by decide), if_pos (by decide), ih last]
      simp

/-- The first text that is not empty, or the empty text if there is no such. -/
def FirstFilled (texts : List (List Char)) (result : List Char) : Prop :=
  (∀ text ∈ texts, text = []) ∧ result = [] ∨
    ∃ before behind, texts = before ++ result :: behind ∧ (∀ text ∈ before, text = []) ∧ result ≠ []

theorem firstFilled_firstAlternative (arguments : List Char) :
    FirstFilled (splitAlternatives arguments) (firstAlternative arguments) := by
  rw [firstAlternative]
  cases found : (splitAlternatives arguments).find? (· != []) with
  | none =>
    rw [List.find?_eq_none] at found
    exact .inl ⟨fun text member => by simpa using found text member, rfl⟩
  | some first =>
    obtain ⟨filled, before, behind, shape, empty⟩ := List.find?_eq_some_iff_append.mp found
    exact .inr ⟨before, behind, shape, fun text member => by simpa using empty text member,
      by simpa using filled⟩

/-- Alternatives that are written with escapes or quotes are read back, and the first of them that is
    not empty is taken. -/
theorem splitAlternatives_spelled (alternatives : List SpelledAlternative) (filled : alternatives ≠ []) :
    splitAlternatives ([':'].intercalate (alternatives.map (·.written))) = alternatives.map (·.text) ∧
      FirstFilled (alternatives.map (·.text))
        (firstAlternative ([':'].intercalate (alternatives.map (·.written)))) := by
  have split : splitAlternatives ([':'].intercalate (alternatives.map (·.written))) =
      alternatives.map (·.text) := by
    have read : ∀ arguments, splitAlternatives arguments =
        (readAlternatives false (scan arguments)).map alternativeText := fun _ => rfl
    rw [read, readAlternatives_joined filled, List.map_map]
    exact List.map_congr_left fun alternative _ => alternative.alternativeText_pairs
  have first := firstFilled_firstAlternative ([':'].intercalate (alternatives.map (·.written)))
  rw [split] at first
  exact ⟨split, first⟩

theorem splitAlternatives_spelled_colons :
    let title : SpelledAlternative := .inQuotes ['a', ':', '\\', '"'] ⟨by decide, by decide⟩
    let alternatives := [.bare [], .inQuotes [] ⟨by decide, by decide⟩, title, .bare [':', '"']]
    let arguments :=
      [':', '"', '"', ':', '"', 'a', ':', '\\', '"', '"', ':', '\\', ':', '\\', '"']
    alternatives ≠ [] ∧ [':'].intercalate (alternatives.map (·.written)) = arguments ∧
      splitAlternatives arguments = [[], [], ['a', ':', '"'], [':', '"']] ∧
      FirstFilled [[], [], ['a', ':', '"'], [':', '"']] (firstAlternative arguments) := by
  intro title alternatives arguments
  have filled : alternatives ≠ [] := List.cons_ne_nil _ _
  obtain ⟨split, first⟩ := splitAlternatives_spelled alternatives filled
  exact ⟨filled, rfl, split, first⟩

end BracketMarkup.Template
