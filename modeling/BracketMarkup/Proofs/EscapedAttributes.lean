import BracketMarkup.Proofs.Readback

namespace BracketMarkup

open Call

theorem splitItems_intercalate {α : Type} {isSeparator : α → Bool} {separator : α}
    (separates : isSeparator separator = true) {parts : List (List α)}
    (h : ∀ part ∈ parts, ∀ x ∈ part, isSeparator x = false) (filled : ∀ part ∈ parts, part ≠ []) :
    splitItems isSeparator none false ([separator].intercalate parts) = parts := by
  rw [splitItems_unlimited]
  by_cases none : parts = []
  · subst none
    rfl
  · rw [cuts_intercalate separates h none, dropEmptyEnd, if_neg]
    intro last
    obtain ⟨part, found, isEmpty⟩ := Option.any_eq_true _ _ |>.mp last
    exact filled part (List.mem_of_getLast? found) (List.isEmpty_iff.mp isEmpty)

theorem scan_intercalate {c : Char} (plain : c ≠ escapeMark) {parts : List (List Scanned)}
    (clean : ∀ part ∈ parts, bareMark ∉ part) :
    scan ([c].intercalate (parts.map restore)) = [⟨false, c⟩].intercalate parts := by
  induction parts with
  | nil => rfl
  | cons part rest ih =>
    have inPart := clean part (by simp)
    by_cases last : rest = []
    · subst last
      rw [List.map_singleton, List.intercalate_singleton, List.intercalate_singleton, scan_restore inPart]
    · have later := ih fun other member => clean other (List.mem_cons_of_mem _ member)
      rw [List.map_cons, List.intercalate_cons_of_ne_nil (by simpa using last),
        List.intercalate_cons_of_ne_nil last, List.append_assoc, List.append_assoc,
        scan_restore_append inPart, List.singleton_append, scan_plain_cons plain, later]
      rfl

/-- Entries with an escape for every character of their keys and values, a semicolon between each two. -/
def escapedEntries (entries : List (List Char × List Char)) : List Char :=
  [';'].intercalate (entries.map fun entry => restore (entryPairs entry))

theorem attributes_worn (entries : List (List Char × List Char)) :
    attributes (escapedEntries entries) = entries.map fun entry => (worn entry.1, worn entry.2) := by
  have clean : ∀ part ∈ entries.map entryPairs, bareMark ∉ part := by
    intro part found
    obtain ⟨entry, -, rfl⟩ := List.mem_map.mp found
    exact bareMark_notMem_entryPairs entry
  have whole : ∀ part ∈ entries.map entryPairs, ∀ p ∈ part, isUnescaped (· == ';') p = false := by
    intro part found p member
    obtain ⟨entry, -, rfl⟩ := List.mem_map.mp found
    exact unseparated_entryPairs member
  have filled : ∀ part ∈ entries.map entryPairs, part ≠ [] := by
    intro part found
    obtain ⟨entry, -, rfl⟩ := List.mem_map.mp found
    simp [entryPairs]
  have parts : splitUnescaped (· == ';') none false (escapedEntries entries) =
      (entries.map entryPairs).map restore := by
    have shape : escapedEntries entries = [';'].intercalate ((entries.map entryPairs).map restore) := by
      rw [escapedEntries, List.map_map]
      rfl
    rw [splitUnescaped, shape, scan_intercalate (by decide) clean, splitItems_intercalate rfl whole filled]
  rw [attributes, parts, List.map_map, List.filterMap_map, ← List.filterMap_eq_map]
  exact List.filterMap_congr fun entry _ => attribute?_entryPairs entry

/-- Attributes of which every character is escaped are read as what they were written for, all of them
    and in their order, just if no key and no value ends in a blank. -/
theorem attributes_escaped (entries : List (List Char × List Char)) :
    attributes (escapedEntries entries) = entries.map (fun entry => (worn entry.1, worn entry.2)) ∧
      (attributes (escapedEntries entries) = entries ↔
        ∀ entry ∈ entries, EndsDark entry.1 ∧ EndsDark entry.2) := by
  have kept : ∀ entry : List Char × List Char,
      (worn entry.1, worn entry.2) = entry ↔ EndsDark entry.1 ∧ EndsDark entry.2 := by
    intro entry
    rw [← worn_eq_self_iff, ← worn_eq_self_iff]
    exact Prod.ext_iff
  refine ⟨attributes_worn entries, ?_⟩
  rw [attributes_worn]
  conv_lhs => rhs; rw [← List.map_id entries]
  rw [List.map_inj_left]
  exact forall_congr' fun entry => forall_congr' fun _ => kept entry

theorem attributes_lose_blank :
    escapedEntries [(['x'], [' '])] = ['\\', 'x', '=', '\\', ' '] ∧
      attributes (escapedEntries [(['x'], [' '])]) = [(['x'], ['\\'])] ∧
      attributes (escapedEntries [(['x'], [' '])]) ≠ [(['x'], [' '])] := by
  refine ⟨by decide, by decide, ?_⟩
  rw [attributes_worn]
  decide

end BracketMarkup
