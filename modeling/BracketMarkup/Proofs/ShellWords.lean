import BracketMarkup.Proofs.Encoding
import BracketMarkup.Template.Words

namespace BracketMarkup.Template

structure Quotable (text : List Char) : Prop where
  closed : ⟨false, '"'⟩ ∉ scan text
  complete : bareMark ∉ scan text

theorem Quotable.scan_append {text : List Char} (quotable : Quotable text) (rest : List Char) :
    scan ('"' :: (text ++ ['"']) ++ rest) = ⟨false, '"'⟩ :: (scan text ++ ⟨false, '"'⟩ :: scan rest) := by
  have shape : '"' :: (text ++ ['"']) ++ rest = '"' :: (text ++ '"' :: rest) := by simp
  rw [shape, scan_plain_cons (by decide), scan_append_of_complete quotable.complete,
    scan_plain_cons (by decide)]

inductive Fragment where
  | bare (text : List Char) (filled : text ≠ [])
  | inQuotes (text : List Char) (quotable : Quotable text)

namespace Fragment

def text : Fragment → List Char
  | bare text _ => text
  | inQuotes text _ => text

def written : Fragment → List Char
  | bare text _ => restore (quoted text)
  | inQuotes text _ => '"' :: (text ++ ['"'])

end Fragment

structure SpelledWord where
  fragments : List Fragment
  filled : fragments ≠ []

namespace SpelledWord

def text (word : SpelledWord) : List Char := word.fragments.flatMap Fragment.text

def written (word : SpelledWord) : List Char := word.fragments.flatMap Fragment.written

end SpelledWord

theorem Words.extend_extend (words : Words) (first second : List Char) :
    (words.extend second).extend first = words.extend (first ++ second) := by
  simp [Words.extend]

theorem Words.all_extend (later : List (List Char)) (written : List Char) :
    (Words.extend written ⟨none, later⟩).all = written :: later := by
  simp [Words.extend, Words.all]

theorem readWords_quoted {text : List Char} (filled : text ≠ []) (rest : List Scanned) :
    readWords false (quoted text ++ rest) = (readWords false rest).extend text := by
  induction text with
  | nil => exact absurd rfl filled
  | cons c text ih =>
    have step : readWords false (quoted (c :: text) ++ rest) =
        (readWords false (quoted text ++ rest)).extend [c] := by
      simp [quoted, readWords]
    rw [step]
    by_cases last : text = []
    · subst last
      rfl
    · rw [ih last, Words.extend_extend, List.singleton_append]

theorem readWords_inside {pairs : List Scanned} (closed : ⟨false, '"'⟩ ∉ pairs) (rest : List Scanned) :
    readWords true (pairs ++ ⟨false, '"'⟩ :: rest) = (readWords false rest).extend (restore pairs) := by
  induction pairs with
  | nil => rw [List.nil_append, readWords, if_pos rfl]; rfl
  | cons p pairs ih =>
    rw [List.mem_cons, not_or] at closed
    rw [List.cons_append, readWords, if_neg (Ne.symm closed.1), if_pos rfl, ih closed.2,
      Words.extend_extend, restore_cons]

theorem readWords_fragment (fragment : Fragment) (rest : List Char) :
    readWords false (scan (fragment.written ++ rest)) =
      (readWords false (scan rest)).extend fragment.text := by
  cases fragment with
  | bare text filled =>
    rw [Fragment.written, scan_restore_append (plain_notMem_quoted _ text), readWords_quoted filled]
    rfl
  | inQuotes text quotable =>
    rw [Fragment.written, quotable.scan_append, readWords, if_pos rfl, Bool.not_false,
      readWords_inside quotable.closed, restore_scan, Words.extend_extend, List.nil_append]
    rfl

theorem readWords_word (word : SpelledWord) (rest : List Char) :
    readWords false (scan (word.written ++ rest)) =
      (readWords false (scan rest)).extend word.text := by
  obtain ⟨fragments, filled⟩ := word
  simp only [SpelledWord.written, SpelledWord.text]
  induction fragments with
  | nil => exact absurd rfl filled
  | cons fragment fragments ih =>
    rw [List.flatMap_cons, List.flatMap_cons, List.append_assoc, readWords_fragment]
    by_cases last : fragments = []
    · subst last
      simp
    · rw [ih last, Words.extend_extend]

theorem readWords_blank {c : Char} (blank : isBlank c = true) (rest : List Char) :
    readWords false (scan (c :: rest)) = ⟨none, splitWords rest⟩ := by
  have plain : c ≠ escapeMark := by
    rintro rfl
    exact absurd blank (by decide)
  have other : c ≠ '"' := by
    rintro rfl
    exact absurd blank (by decide)
  rw [scan_plain_cons plain, readWords, if_neg (by simp [other]), if_neg (by simp), if_pos (by simp [blank])]
  rfl

theorem splitWords_blanks {gap : List Char} (blank : ∀ c ∈ gap, isBlank c = true) (rest : List Char) :
    splitWords (gap ++ rest) = splitWords rest := by
  induction gap with
  | nil => rfl
  | cons c gap ih =>
    rw [List.cons_append, splitWords, readWords_blank (blank c (by simp)),
      ← ih fun d member => blank d (List.mem_cons_of_mem _ member)]
    rfl

theorem splitWords_word {gap rest : List Char} (word : SpelledWord)
    (blank : ∀ c ∈ gap, isBlank c = true) (apart : gap ≠ [] ∨ rest = []) :
    splitWords (word.written ++ (gap ++ rest)) = word.text :: splitWords rest := by
  -- Whatever follows ends the word, so that nothing is joined to it.
  have ended : readWords false (scan (gap ++ rest)) = ⟨none, splitWords rest⟩ := by
    cases gap with
    | nil =>
      rw [apart.resolve_left (not_not_intro rfl)]
      rfl
    | cons c gap =>
      rw [List.cons_append, readWords_blank (blank c (by simp)),
        splitWords_blanks fun d member => blank d (List.mem_cons_of_mem _ member)]
  rw [splitWords, readWords_word, ended, Words.all_extend]

/-- Words that are written with escapes and quotes, each with the blanks behind it, are read back. -/
theorem splitWords_spelled (lead : List Char) (words : List (SpelledWord × List Char))
    (before : ∀ c ∈ lead, isBlank c = true) (behind : ∀ word ∈ words, ∀ c ∈ word.2, isBlank c = true)
    (apart : ∀ word ∈ words.dropLast, word.2 ≠ []) :
    splitWords (lead ++ words.flatMap fun word => word.1.written ++ word.2) =
      words.map (·.1.text) := by
  rw [splitWords_blanks before]
  induction words with
  | nil => rfl
  | cons word rest ih =>
    have later := ih fun other member => behind other (List.mem_cons_of_mem _ member)
    have blank := behind word (by simp)
    rw [List.flatMap_cons, List.append_assoc, List.map_cons]
    by_cases last : rest = []
    · subst last
      rw [List.flatMap_nil, splitWords_word word.1 blank (.inr rfl)]
      rfl
    · rw [List.dropLast_cons_of_ne_nil last] at apart
      rw [splitWords_word word.1 blank (.inl (apart word (by simp))),
        later fun other member => apart other (List.mem_cons_of_mem _ member)]

theorem splitWords_spelled_mixed :
    let joined : SpelledWord :=
      ⟨[.bare ['a', ' '] (by decide), .inQuotes ['b', '\\', '"'] ⟨by decide, by decide⟩], by simp⟩
    let empty : SpelledWord := ⟨[.inQuotes [] ⟨by decide, by decide⟩], by simp⟩
    let words := [(joined, [' ', '\n']), (empty, [])]
    (∀ word ∈ words, ∀ c ∈ word.2, isBlank c = true) ∧ (∀ word ∈ words.dropLast, word.2 ≠ []) ∧
      [' '] ++ words.flatMap (fun word => word.1.written ++ word.2) =
        [' ', '\\', 'a', '\\', ' ', '"', 'b', '\\', '"', '"', ' ', '\n', '"', '"'] ∧
      splitWords [' ', '\\', 'a', '\\', ' ', '"', 'b', '\\', '"', '"', ' ', '\n', '"', '"'] =
        [['a', ' ', 'b', '\\', '"'], []] := by
  intro joined empty words
  have gap : ∀ c ∈ [' ', '\n'], isBlank c = true := List.all_eq_true.mp (by decide)
  have behind : ∀ word ∈ words, ∀ c ∈ word.2, isBlank c = true := by
    simpa [words] using gap
  have apart : ∀ word ∈ words.dropLast, word.2 ≠ [] := by simp [words]
  refine ⟨behind, apart, rfl, splitWords_spelled [' '] words ?_ behind apart⟩
  exact List.all_eq_true.mp (by decide)

end BracketMarkup.Template
