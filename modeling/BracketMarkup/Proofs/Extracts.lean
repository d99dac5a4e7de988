import BracketMarkup.Proofs.Scanning
import BracketMarkup.Document.Nesting
import BracketMarkup.Template.Loop
import BracketMarkup.Template.Values
import BracketMarkup.Template.Words

namespace BracketMarkup

theorem restore_sublist {part pairs : List Scanned} (h : part.Sublist pairs) :
    (restore part).Sublist (restore pairs) := by
  induction h with
  | slnil => exact .slnil
  | cons p _ ih => exact ih.trans (List.sublist_append_right _ _)
  | cons_cons p _ ih => exact (List.Sublist.refl _).append ih

theorem char_sublist_write (p : Scanned) : [p.char].Sublist p.write := by
  obtain ⟨escaped, c⟩ := p
  cases escaped <;> simp

theorem map_char_sublist (pairs : List Scanned) : (pairs.map (·.char)).Sublist (restore pairs) := by
  induction pairs with
  | nil => exact .slnil
  | cons p pairs ih => exact (char_sublist_write p).append ih

theorem unescape_sublist (s : List Char) : (unescape s).Sublist s := by
  have extracted := map_char_sublist (scan s)
  rwa [restore_scan] at extracted

theorem trim_sublist (s : List Char) : (trim s).Sublist s := by
  have front : (trimStart s).Sublist s := List.dropWhile_sublist _
  have back := (List.dropWhile_sublist (p := isBlank) (l := (trimStart s).reverse)).reverse
  rw [List.reverse_reverse] at back
  exact back.trans front

theorem after_cutFirst?_sublist {wanted : Char → Bool} {s : List Char} {cut : Cut}
    (h : cutFirst? wanted s = some cut) : cut.after.Sublist s := by
  rw [cutFirst?] at h
  split at h
  · cases h
  · rename_i p after found
    cases h
    have behind : after.Sublist (scan s) :=
      (List.sublist_cons_self p after).trans (found ▸ List.dropWhile_sublist _)
    have written := restore_sublist behind
    rwa [restore_scan] at written

theorem splitUnescaped_sublist {isSeparator : Char → Bool} {limit : Option Int}
    {s part : List Char} (h : part ∈ splitUnescaped isSeparator limit false s) : part.Sublist s := by
  obtain ⟨pairs, member, rfl⟩ := List.mem_map.mp h
  have inside : pairs.Sublist (scan s) :=
    (List.sublist_flatten_of_mem member).trans (splitItems_flatten_sublist _ _ _)
  have written := restore_sublist inside
  rwa [restore_scan] at written

namespace Template

theorem readWords_sublist (quoted : Bool) (pairs : List Scanned) :
    ((readWords quoted pairs).current.getD []).Sublist (restore pairs) ∧
      ∀ word ∈ (readWords quoted pairs).later, word.Sublist (restore pairs) := by
  -- A word that goes on takes at most what is written of the next pair.
  have goesOn : ∀ {p : Scanned} {rest : List Scanned} {words : Words} {written : List Char},
      written.Sublist p.write → (words.current.getD []).Sublist (restore rest) ∧
        (∀ word ∈ words.later, word.Sublist (restore rest)) →
      ((words.extend written).current.getD []).Sublist (restore (p :: rest)) ∧
        ∀ word ∈ (words.extend written).later, word.Sublist (restore (p :: rest)) := by
    intro p rest words written taken ⟨current, later⟩
    exact ⟨taken.append current, fun word member =>
      (later word member).trans (List.sublist_append_right _ _)⟩
  induction pairs generalizing quoted with
  | nil => cases quoted <;> simp [readWords]
  | cons p rest ih =>
    rw [readWords]
    split
    · exact goesOn (List.nil_sublist _) (ih _)
    · split
      · exact goesOn (List.Sublist.refl _) (ih _)
      · split
        · refine ⟨List.nil_sublist _, fun word member => ?_⟩
          rcases List.mem_append.mp member with member | member
          · obtain ⟨current, later⟩ := ih false
            rw [Option.mem_toList] at member
            rw [member, Option.getD_some] at current
            exact current.trans (List.sublist_append_right _ _)
          · exact ((ih false).2 word member).trans (List.sublist_append_right _ _)
        · exact goesOn (char_sublist_write p) (ih _)

theorem splitWords_sublist {s word : List Char} (h : word ∈ splitWords s) : word.Sublist s := by
  obtain ⟨current, later⟩ := readWords_sublist false (scan s)
  rw [restore_scan] at current later
  rcases List.mem_append.mp h with member | member
  · rw [Option.mem_toList] at member
    rwa [member, Option.getD_some] at current
  · exact later word member

theorem object_sublist (argument : List Char) : (verbAndObject argument).2.Sublist argument := by
  rw [verbAndObject]
  split
  · rename_i cut found
    exact ((List.dropWhile_sublist _).trans (after_cutFirst?_sublist found)).trans (trim_sublist _)
  · exact List.nil_sublist _

theorem directory_add {loop : Loop} {argument directory : List Char}
    (h : (loop.add argument).1.directory = some directory) :
    loop.directory = some directory ∨ directory.Sublist argument := by
  have taken := object_sublist argument
  rw [Loop.add] at h
  rcases shape : verbAndObject argument with ⟨verb, object⟩
  rw [shape] at h taken
  dsimp only at h taken
  split at h
  · exact .inl h
  split at h
  · exact .inl h
  split at h
  · obtain rfl := Option.some.inj h
    exact .inr ((unescape_sublist object).trans taken)
  -- No other verb names a directory.
  repeat' split at h
  all_goals exact .inl h

theorem directory_read {arguments directory : List Char}
    (h : (Loop.read arguments).1.directory = some directory) : directory.Sublist arguments := by
  refine List.foldlRecOn (motive := fun state : Loop × List Diagnostic =>
    ∀ found, state.1.directory = some found → found.Sublist arguments) _ _
    (fun _ none => by cases none) ?_ directory h
  intro state old part member found same
  rcases directory_add same with before | taken
  · exact old found before
  · exact taken.trans (splitUnescaped_sublist member)

end Template

end BracketMarkup
