import BracketMarkup.Proofs.Headers
import Mathlib.Data.List.Basic
import Mathlib.Data.List.Induction

namespace BracketMarkup

def marks : List Char := [escapeMark, '[', ']', '\x7b', '\x7d', ';', '@', '=', '#', '!', '.']

/-- A character that stands for itself whether it is escaped or not. -/
def isOrdinary (c : Char) : Bool := !isBlank c && !marks.contains c

def Scanned.bare (p : Scanned) : Scanned := if isOrdinary p.char then ⟨false, p.char⟩ else p

theorem isOrdinary_of_blank {c : Char} (blank : isBlank c = true) : isOrdinary c = false := by
  simp [isOrdinary, blank]

theorem isOrdinary_of_mark {c : Char} (mark : c ∈ marks) : isOrdinary c = false := by
  simp [isOrdinary, mark]

@[simp] theorem bare_char (p : Scanned) : p.bare.char = p.char := by
  unfold Scanned.bare
  split <;> rfl

theorem bare_plain (c : Char) : (⟨false, c⟩ : Scanned).bare = ⟨false, c⟩ := by
  simp [Scanned.bare]

theorem bare_of_special {p : Scanned} (special : isOrdinary p.char = false) : p.bare = p := by
  simp [Scanned.bare, special]

theorem bare_escaped {c : Char} (ordinary : isOrdinary c = true) :
    (⟨true, c⟩ : Scanned).bare = ⟨false, c⟩ := by
  simp [Scanned.bare, ordinary]

theorem bare_eq_iff {p q : Scanned} (special : isOrdinary q.char = false) : p.bare = q ↔ p = q := by
  constructor
  · intro same
    have chars : p.char = q.char := by rw [← same, bare_char]
    rw [← same, bare_of_special (by rw [chars, special])]
  · rintro rfl
    exact bare_of_special special

theorem bare_eq_bareMark_iff {p : Scanned} : p.bare = bareMark ↔ p = bareMark :=
  bare_eq_iff (isOrdinary_of_mark (by decide))

theorem isUnescaped_bare {wanted : Char → Bool} (special : ∀ c, wanted c = true → isOrdinary c = false)
    (p : Scanned) : isUnescaped wanted p.bare = isUnescaped wanted p := by
  by_cases ordinary : isOrdinary p.char = true
  · have unwanted : wanted p.char = false := by
      by_contra found
      rw [special p.char (by simpa using found)] at ordinary
      cases ordinary
    simp [isUnescaped, unwanted]
  · rw [bare_of_special (by simpa using ordinary)]

theorem isUnescaped_blank_bare (p : Scanned) : isUnescaped isBlank p.bare = isUnescaped isBlank p :=
  isUnescaped_bare (fun _ blank => isOrdinary_of_blank blank) p

theorem isUnescaped_mark_bare {c : Char} (structural : c ∈ marks) (p : Scanned) :
    isUnescaped (· == c) p.bare = isUnescaped (· == c) p := by
  apply isUnescaped_bare
  intro d same
  rw [beq_iff_eq.mp same]
  exact isOrdinary_of_mark structural

theorem isGuard_bare (p : Scanned) : p.bare.isGuard = p.isGuard := by
  by_cases ordinary : isOrdinary p.char = true
  · have other : (p.char == ' ') = false := by
      rw [beq_eq_false_iff_ne]
      intro space
      rw [space] at ordinary
      exact absurd ordinary (by decide)
    simp [Scanned.isGuard, other]
  · rw [bare_of_special (by simpa using ordinary)]

theorem bareMark_mem_map_bare {pairs : List Scanned} :
    bareMark ∈ pairs.map Scanned.bare ↔ bareMark ∈ pairs := by
  rw [List.mem_map]
  constructor
  · rintro ⟨p, member, same⟩
    rwa [bare_eq_bareMark_iff.mp same] at member
  · intro member
    exact ⟨bareMark, member, bare_eq_bareMark_iff.mpr rfl⟩

theorem map_char_bare (pairs : List Scanned) :
    (pairs.map Scanned.bare).map (·.char) = pairs.map (·.char) := by
  rw [List.map_map]
  apply List.map_congr_left
  intro p _
  exact bare_char p

section Maps

variable {α β : Type} {f : α → β} {p : β → Bool} {q : α → Bool}

theorem takeWhile_map_of_same (same : ∀ x, p (f x) = q x) (l : List α) :
    (l.map f).takeWhile p = (l.takeWhile q).map f := by
  have composed : p ∘ f = q := funext same
  rw [List.takeWhile_map, composed]

theorem dropWhile_map_of_same (same : ∀ x, p (f x) = q x) (l : List α) :
    (l.map f).dropWhile p = (l.dropWhile q).map f := by
  have composed : p ∘ f = q := funext same
  rw [List.dropWhile_map, composed]

theorem cuts_map (same : ∀ x, p (f x) = q x) (l : List α) :
    cuts p false none (l.map f) = (cuts q false none l).map (List.map f) := by
  induction l with
  | nil => rfl
  | cons x rest ih =>
    cases separates : q x with
    | true =>
      have cut : p (f x) = true := by rw [same, separates]
      rw [List.map_cons, cuts_separator cut, cuts_separator separates, ih]
      rfl
    | false =>
      have kept : p (f x) = false := by rw [same, separates]
      rw [List.map_cons, cuts_cons kept, cuts_cons separates, ih]
      cases cuts q false none rest <;> rfl

theorem splitItems_map (same : ∀ x, p (f x) = q x) (l : List α) :
    splitItems p none false (l.map f) = (splitItems q none false l).map (List.map f) := by
  rw [splitItems_unlimited, splitItems_unlimited, cuts_map same, dropEmptyEnd_map]
  intro part _
  cases part <;> rfl

end Maps

section Until

variable {wanted : Char → Bool}
  (same : ∀ p : Scanned, isUnescaped wanted p.bare = isUnescaped wanted p)
include same

theorem takeWhile_until_bare (pairs : List Scanned) :
    (pairs.map Scanned.bare).takeWhile (!isUnescaped wanted ·) =
      (pairs.takeWhile (!isUnescaped wanted ·)).map Scanned.bare :=
  takeWhile_map_of_same (fun p => by rw [same p]) pairs

theorem dropWhile_until_bare (pairs : List Scanned) :
    (pairs.map Scanned.bare).dropWhile (!isUnescaped wanted ·) =
      (pairs.dropWhile (!isUnescaped wanted ·)).map Scanned.bare :=
  dropWhile_map_of_same (fun p => by rw [same p]) pairs

end Until

theorem trimEnd_restore_dark (text : List Char) {p : Scanned} (dark : isBlank p.char = false) :
    trimEnd (text ++ restore [p]) = text ++ restore [p] := by
  obtain ⟨escaped, c⟩ := p
  cases escaped with
  | false => exact trimEnd_concat_dark text dark
  | true =>
    rw [restore_escaped_concat]
    exact trimEnd_concat_dark _ dark

theorem unescape_trimEnd_bare {pairs : List Scanned} (clean : bareMark ∉ pairs) :
    unescape (trimEnd (restore (pairs.map Scanned.bare))) = unescape (trimEnd (restore pairs)) := by
  induction pairs using List.reverseRecOn with
  | nil => rfl
  | append_singleton front p ih =>
    have unmarked : bareMark ∉ front := fun member => clean (List.mem_append_left _ member)
    have bared : bareMark ∉ front.map Scanned.bare := mt bareMark_mem_map_bare.mp unmarked
    by_cases dark : isBlank p.char = false
    · have whole : unescape (restore ((front ++ [p]).map Scanned.bare)) =
          unescape (restore (front ++ [p])) := by
        rw [unescape_restore clean, unescape_restore (mt bareMark_mem_map_bare.mp clean), map_char_bare]
      rw [List.map_append, List.map_singleton, restore_append, restore_append] at whole ⊢
      rw [trimEnd_restore_dark _ dark, trimEnd_restore_dark _ (by rw [bare_char, dark])]
      exact whole
    · have blank : isBlank p.char = true := by simpa using dark
      obtain ⟨escaped, c⟩ := p
      rw [List.map_append, List.map_singleton, bare_of_special (isOrdinary_of_blank blank), restore_append,
        restore_append]
      cases escaped with
      | false =>
        show unescape (trimEnd (restore (front.map Scanned.bare) ++ [c])) =
          unescape (trimEnd (restore front ++ [c]))
        rw [trimEnd_concat_blank _ blank, trimEnd_concat_blank _ blank]
        exact ih unmarked
      | true =>
        -- Only the blank goes: the mark stays at the end, where it stands for itself.
        have mark : isBlank escapeMark = false := by decide
        rw [restore_escaped_concat, restore_escaped_concat, trimEnd_concat_blank _ blank,
          trimEnd_concat_blank _ blank, trimEnd_concat_dark _ mark, trimEnd_concat_dark _ mark,
          unescape_concat_escapeMark bared, unescape_concat_escapeMark unmarked, map_char_bare]

theorem unescape_trim_bare {pairs : List Scanned} (clean : bareMark ∉ pairs) :
    unescape (trim (restore (pairs.map Scanned.bare))) = unescape (trim (restore pairs)) := by
  rw [trim, trim, trimStart_restore, trimStart_restore, dropWhile_map_of_same isUnescaped_blank_bare]
  exact unescape_trimEnd_bare (dropWhile_clean clean _)

namespace Call

theorem attribute?_bare {pairs : List Scanned} (clean : bareMark ∉ pairs) :
    attribute? (restore (pairs.map Scanned.bare)) = attribute? (restore pairs) := by
  have bared : bareMark ∉ pairs.map Scanned.bare := mt bareMark_mem_map_bare.mp clean
  have same := isUnescaped_mark_bare (c := '=') (by decide)
  have behind := dropWhile_until_bare same pairs
  rw [attribute?, attribute?]
  cases found : pairs.dropWhile (!isUnescaped (· == '=') ·) with
  | nil =>
    rw [found] at behind
    rw [cutFirst?_none clean found, cutFirst?_none bared behind]
  | cons p after =>
    rw [found] at behind
    have front : bareMark ∉ pairs.takeWhile (!isUnescaped (· == '=') ·) :=
      fun member => clean ((List.takeWhile_sublist _).subset member)
    have last : bareMark ∉ after := by
      intro member
      have dropped := dropWhile_clean clean (!isUnescaped (· == '=') ·)
      rw [found] at dropped
      exact dropped (List.mem_cons_of_mem p member)
    rw [cutFirst?_some clean found, cutFirst?_some bared behind, takeWhile_until_bare same]
    simp only [Option.map_some, unescape_trim_bare front, unescape_trim_bare last]

theorem attributes_bare {pairs : List Scanned} (clean : bareMark ∉ pairs) :
    attributes (restore (pairs.map Scanned.bare)) = attributes (restore pairs) := by
  have bared : bareMark ∉ pairs.map Scanned.bare := mt bareMark_mem_map_bare.mp clean
  have parts := splitItems_map (isUnescaped_mark_bare (c := ';') (by decide)) pairs
  rw [attributes, attributes, splitUnescaped, splitUnescaped, scan_restore clean, scan_restore bared,
    parts, List.map_map, List.filterMap_map, List.filterMap_map]
  refine List.filterMap_congr fun part member => attribute?_bare fun marked => ?_
  rw [splitItems_unlimited] at member
  exact clean (mem_of_mem_cuts (mem_of_mem_dropEmptyEnd member) marked).1

theorem nameOf_bare (head : List Scanned) :
    nameOf (head.map Scanned.bare) = (nameOf head).map Scanned.bare := by
  have same := isUnescaped_mark_bare (c := '@') (by decide)
  rw [nameOf, nameOf, ← List.map_reverse, takeWhile_until_bare same, List.map_reverse]

theorem backendOf_bare (head : List Scanned) :
    backendOf (head.map Scanned.bare) = (backendOf head).map (List.map Scanned.bare) := by
  have same := isUnescaped_mark_bare (c := '@') (by decide)
  rw [backendOf, backendOf, ← List.map_reverse, dropWhile_until_bare same]
  cases head.reverse.dropWhile (!isUnescaped (· == '@') ·) with
  | nil => rfl
  | cons p before => simp

theorem inHead_bare (p : Scanned) : inHead p.bare = inHead p := by
  rw [inHead, inHead, isUnescaped_mark_bare (by decide), isUnescaped_blank_bare]

theorem dropGuards_trimStart_restore {pairs : List Scanned} (clean : bareMark ∉ pairs) :
    dropGuards (trimStart (restore pairs)) =
      restore ((pairs.dropWhile (isUnescaped isBlank)).filter (!·.isGuard)) := by
  rw [trimStart_restore, dropGuards, scan_restore (dropWhile_clean clean _)]

theorem frontDropped_bare (pairs : List Scanned) :
    ((pairs.map Scanned.bare).dropWhile (isUnescaped isBlank)).filter (!·.isGuard) =
      ((pairs.dropWhile (isUnescaped isBlank)).filter (!·.isGuard)).map Scanned.bare := by
  have guards : (fun p : Scanned => !p.isGuard) ∘ Scanned.bare = (!·.isGuard) := by
    funext p
    simp only [Function.comp_apply, isGuard_bare]
  rw [dropWhile_map_of_same isUnescaped_blank_bare, List.filter_map, guards]

end Call

end BracketMarkup
