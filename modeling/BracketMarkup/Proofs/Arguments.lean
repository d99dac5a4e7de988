import BracketMarkup.Document.Call
import BracketMarkup.Proofs.Scanning

namespace BracketMarkup

variable {α β : Type}

theorem cuts_ne_nil (isSeparator : α → Bool) (keep : Bool) (budget : Option Nat) (items : List α) :
    cuts isSeparator keep budget items ≠ [] := by
  induction items generalizing budget with
  | nil => simp [cuts]
  | cons x rest ih =>
    simp only [cuts]
    split
    · simp
    · simpa using ih budget

theorem cuts_separator {isSeparator : α → Bool} {x : α} (h : isSeparator x = true) (rest : List α) :
    cuts isSeparator false none (x :: rest) = [] :: cuts isSeparator false none rest := by
  simp [cuts, h]

theorem cuts_cons {isSeparator : α → Bool} {x : α} (h : isSeparator x = false) (rest : List α) :
    cuts isSeparator false none (x :: rest) =
      (cuts isSeparator false none rest).modifyHead (x :: ·) := by
  simp [cuts, h]

theorem cuts_append {isSeparator : α → Bool} {front : List α}
    (h : ∀ x ∈ front, isSeparator x = false) (rest : List α) :
    cuts isSeparator false none (front ++ rest) =
      (cuts isSeparator false none rest).modifyHead (front ++ ·) := by
  induction front with
  | nil =>
    obtain ⟨part, parts, h⟩ := List.exists_cons_of_ne_nil (cuts_ne_nil isSeparator false none rest)
    simp [h]
  | cons x front ih =>
    have later := ih fun y member => h y (List.mem_cons_of_mem _ member)
    rw [List.cons_append, cuts_cons (h x (by simp)), later]
    cases cuts isSeparator false none rest <;> simp

theorem cuts_intercalate {isSeparator : α → Bool} {separator : α} (separates : isSeparator separator = true)
    {parts : List (List α)} (h : ∀ part ∈ parts, ∀ x ∈ part, isSeparator x = false) (filled : parts ≠ []) :
    cuts isSeparator false none ([separator].intercalate parts) = parts := by
  induction parts with
  | nil => exact absurd rfl filled
  | cons part rest ih =>
    have inPart := h part (by simp)
    by_cases last : rest = []
    · subst last
      rw [List.intercalate_singleton, ← List.append_nil part, cuts_append inPart]
      simp [cuts]
    · have later := ih (fun other member => h other (List.mem_cons_of_mem _ member)) last
      rw [List.intercalate_cons_of_ne_nil last, List.append_assoc, cuts_append inPart,
        List.singleton_append, cuts_separator separates, later]
      simp

theorem mem_of_mem_cuts {isSeparator : α → Bool} {items part : List α} {x : α}
    (h : part ∈ cuts isSeparator false none items) (member : x ∈ part) :
    x ∈ items ∧ isSeparator x = false := by
  induction items generalizing part with
  | nil => simp_all [cuts]
  | cons y rest ih =>
    cases separates : isSeparator y with
    | true =>
      rw [cuts_separator separates] at h
      rcases List.mem_cons.mp h with rfl | h
      · simp at member
      · exact ⟨List.mem_cons_of_mem _ (ih h member).1, (ih h member).2⟩
    | false =>
      rw [cuts_cons separates] at h
      cases parts : cuts isSeparator false none rest with
      | nil => exact absurd parts (cuts_ne_nil _ _ _ _)
      | cons first others =>
        rw [parts] at h ih
        simp only [List.modifyHead_cons, List.mem_cons] at h
        rcases h with rfl | h
        · rcases List.mem_cons.mp member with rfl | member
          · exact ⟨by simp, separates⟩
          · have found := ih (by simp) member
            exact ⟨List.mem_cons_of_mem _ found.1, found.2⟩
        · have found := ih (List.mem_cons_of_mem _ h) member
          exact ⟨List.mem_cons_of_mem _ found.1, found.2⟩

def dropEmptyEnd (parts : List (List α)) : List (List α) :=
  if parts.getLast?.any List.isEmpty then parts.dropLast else parts

theorem splitItems_unlimited (isSeparator : α → Bool) (keep : Bool) (items : List α) :
    splitItems isSeparator none keep items = dropEmptyEnd (cuts isSeparator keep none items) := rfl

theorem dropEmptyEnd_map {parts : List (List α)} {f : List α → List β}
    (empty : ∀ part ∈ parts, (f part).isEmpty = part.isEmpty) :
    dropEmptyEnd (parts.map f) = (dropEmptyEnd parts).map f := by
  have last : (parts.map f).getLast?.any List.isEmpty = parts.getLast?.any List.isEmpty := by
    rw [List.getLast?_map]
    cases found : parts.getLast? with
    | none => rfl
    | some part => simpa using empty part (List.mem_of_getLast? found)
  rw [dropEmptyEnd, dropEmptyEnd, last]
  split
  · rw [List.map_dropLast]
  · rfl

theorem mem_of_mem_dropEmptyEnd {parts : List (List α)} {part : List α}
    (h : part ∈ dropEmptyEnd parts) : part ∈ parts := by
  rw [dropEmptyEnd] at h
  split at h
  · exact (List.dropLast_sublist parts).subset h
  · exact h

theorem cuts_keep (isSeparator : α → Bool) (items : List α) :
    ∃ first others, cuts isSeparator true none items = first :: others ∧
      first ++ others.flatten = items ∧ (∀ x ∈ first, isSeparator x = false) ∧
      ∀ part ∈ others, (∃ x, part = [x] ∧ isSeparator x = true) ∨ ∀ x ∈ part, isSeparator x = false := by
  induction items with
  | nil => exact ⟨[], [], rfl, rfl, by simp, by simp⟩
  | cons x rest ih =>
    obtain ⟨first, others, cut, joined, free, parts⟩ := ih
    cases separates : isSeparator x with
    | true =>
      refine ⟨[], [x] :: first :: others, by simp [cuts, separates, cut], by simp [joined], by simp, ?_⟩
      intro part member
      simp only [List.mem_cons] at member
      rcases member with rfl | rfl | member
      · exact .inl ⟨x, rfl, separates⟩
      · exact .inr free
      · exact parts part member
    | false =>
      refine ⟨x :: first, others, by simp [cuts, separates, cut], by simp [joined], ?_, parts⟩
      simpa [separates] using free

namespace Call

open Bracketed

/-- What stands at one place between the brackets of a call. -/
inductive Glyph where
  | char (p : Scanned)
  | pair (children : List Tree)

def glyphsOf : Tree → List Glyph
  | free run => (scan run).map .char
  | nested children => [.pair children]

/-- The items of a call as a sequence in which it does not matter where runs are cut. -/
def glyphs (items : List Tree) : List Glyph := items.flatMap glyphsOf

def consGlyph : Glyph → List Tree → List Tree
  | .char p, free run :: rest => free (p.write ++ run) :: rest
  | .char p, items => free p.write :: items
  | .pair children, items => nested children :: items

/-- The items with the given glyphs in which no two runs stand next to each other. -/
def pack (glyphs : List Glyph) : List Tree := glyphs.foldr consGlyph []

def Clean (glyphs : List Glyph) : Prop := .char bareMark ∉ glyphs

def Glyph.is (c : Char) : Glyph → Bool
  | .char p => p == ⟨false, c⟩
  | .pair _ => false

def segments (glyphs : List Glyph) : List (List Tree) :=
  (splitItems (Glyph.is ';') none false glyphs).map fun argument => trimFront (pack argument)

@[simp] theorem pack_nil : pack [] = [] := rfl

@[simp] theorem pack_cons (g : Glyph) (gs : List Glyph) : pack (g :: gs) = consGlyph g (pack gs) := rfl

theorem pack_append (left right : List Glyph) :
    pack (left ++ right) = left.foldr consGlyph (pack right) := List.foldr_append

@[simp] theorem glyphs_nil : glyphs [] = [] := rfl

@[simp] theorem glyphs_free (run : List Char) (rest : List Tree) :
    glyphs (free run :: rest) = (scan run).map .char ++ glyphs rest := rfl

@[simp] theorem glyphs_nested (children rest : List Tree) :
    glyphs (nested children :: rest) = .pair children :: glyphs rest := rfl

theorem mem_clean_map {pairs : List Scanned} {gs : List Glyph} :
    Clean (pairs.map .char ++ gs) ↔ bareMark ∉ pairs ∧ Clean gs := by
  simp [Clean]

theorem glyphs_consGlyph {g : Glyph} (clean : g ≠ .char bareMark) (items : List Tree) :
    glyphs (consGlyph g items) = g :: glyphs items := by
  cases g with
  | pair children => rfl
  | char p =>
    have proper : p ≠ bareMark := fun same => clean (congrArg Glyph.char same)
    have alone : scan p.write = [p] := by simpa using scan_write_append proper []
    cases items with
    | nil => simp [consGlyph, alone]
    | cons item rest =>
      cases item with
      | free run => simp [consGlyph, scan_write_append proper]
      | nested children => simp [consGlyph, alone]

theorem glyphs_pack {gs : List Glyph} (clean : Clean gs) : glyphs (pack gs) = gs := by
  induction gs with
  | nil => rfl
  | cons g gs ih =>
    simp only [Clean, List.mem_cons, not_or] at clean
    rw [pack_cons, glyphs_consGlyph (Ne.symm clean.1), ih clean.2]

def consRun (run : List Char) : List Tree → List Tree
  | free following :: rest => free (run ++ following) :: rest
  | items => free run :: items

theorem mergeFree_free (run : List Char) (rest : List Tree) :
    mergeFree (free run :: rest) = consRun run (mergeFree rest) := by
  rw [mergeFree]
  cases mergeFree rest with
  | nil => rfl
  | cons item items => cases item <;> rfl

theorem consGlyph_char (p : Scanned) (items : List Tree) :
    consGlyph (.char p) items = consRun p.write items := by
  cases items with
  | nil => rfl
  | cons item rest => cases item <;> rfl

theorem consRun_append (left right : List Char) (items : List Tree) :
    consRun left (consRun right items) = consRun (left ++ right) items := by
  cases items with
  | nil => rfl
  | cons item rest => cases item <;> simp [consRun]

theorem foldr_consGlyph_run {run : List Scanned} (h : run ≠ []) (items : List Tree) :
    (run.map Glyph.char).foldr consGlyph items = consRun (restore run) items := by
  induction run with
  | nil => exact absurd rfl h
  | cons p run ih =>
    rw [List.map_cons, List.foldr_cons, consGlyph_char]
    cases run with
    | nil => simp
    | cons q run => rw [ih (by simp), consRun_append, restore_cons p]

def Slot.Proper : Slot → Prop
  | some (free run) => run ≠ [] ∧ bareMark ∉ scan run ∧ ⟨false, ';'⟩ ∉ scan run
  | _ => True

def slotGlyphs : Slot → List Glyph
  | none => [.char ⟨false, ';'⟩]
  | some item => glyphsOf item

theorem slotGlyphs_ne_nil {slot : Slot} (proper : slot.Proper) : slotGlyphs slot ≠ [] := by
  match slot, proper with
  | none, _ => simp [slotGlyphs]
  | some (nested _), _ => simp [slotGlyphs, glyphsOf]
  | some (free run), proper =>
    simpa [slotGlyphs, glyphsOf] using proper.1

theorem not_semicolon_slotGlyphs {item : Tree} (proper : Slot.Proper (some item)) :
    ∀ g ∈ slotGlyphs (some item), g.is ';' = false := by
  cases item with
  | nested children => simp [slotGlyphs, glyphsOf, Glyph.is]
  | free run =>
    intro g member
    obtain ⟨p, found, rfl⟩ := List.mem_map.mp member
    simp only [Glyph.is, beq_eq_false_iff_ne]
    rintro rfl
    exact proper.2.2 found

theorem cuts_slotGlyphs {slots : List Slot} (proper : ∀ slot ∈ slots, slot.Proper) :
    (cuts Option.isNone false none slots).map (·.flatMap slotGlyphs) =
      cuts (Glyph.is ';') false none (slots.flatMap slotGlyphs) := by
  induction slots with
  | nil => rfl
  | cons slot slots ih =>
    have later := ih fun x member => proper x (List.mem_cons_of_mem _ member)
    cases slot with
    | none =>
      rw [cuts_separator rfl, List.map_cons, later]
      exact (cuts_separator rfl _).symm
    | some item =>
      rw [cuts_cons rfl, List.flatMap_cons,
        cuts_append (not_semicolon_slotGlyphs (proper _ (by simp))), ← later]
      cases cuts Option.isNone false none slots <;> simp

theorem mergeFree_slots {slots : List Slot} (proper : ∀ slot ∈ slots, slot.Proper)
    (items : ∀ slot ∈ slots, slot.isNone = false) :
    mergeFree (slots.filterMap id) = pack (slots.flatMap slotGlyphs) := by
  induction slots with
  | nil => rfl
  | cons slot slots ih =>
    have later := ih (fun x member => proper x (List.mem_cons_of_mem _ member))
      fun x member => items x (List.mem_cons_of_mem _ member)
    match slot, proper slot (by simp), items slot (by simp) with
    | some (nested children), _, _ =>
      have first : (some (nested children) :: slots).filterMap id =
          nested children :: slots.filterMap id := rfl
      rw [first, mergeFree, later]
      rfl
    | some (free run), ⟨filled, _, _⟩, _ =>
      have first : (some (free run) :: slots).filterMap id = free run :: slots.filterMap id := rfl
      rw [first, mergeFree_free, later, List.flatMap_cons, slotGlyphs, glyphsOf, pack_append,
        foldr_consGlyph_run (by simpa using filled), restore_scan]

theorem filter_dropEmptyEnd (parts : List (List α)) :
    (dropEmptyEnd parts).filter (· ≠ []) = parts.filter (· ≠ []) := by
  rw [dropEmptyEnd]
  split
  · rename_i last
    obtain ⟨part, found, isEmpty⟩ := Option.any_eq_true _ _ |>.mp last
    obtain ⟨front, rfl⟩ := List.getLast?_eq_some_iff.mp found
    simp_all
  · rfl

def slotOfPart (part : List Scanned) : Slot :=
  if restore part = [';'] then none else some (free (restore part))

theorem slotsOfRun_eq (run : List Char) :
    slotsOfRun run = ((cuts (isUnescaped (· == ';')) true none (scan run)).filter (· ≠ [])).map
      slotOfPart := by
  have filled : (fun part => part != []) ∘ restore = fun part : List Scanned => decide (part ≠ []) := by
    funext part
    by_cases empty : part = [] <;> simp [empty]
  rw [← filter_dropEmptyEnd, slotsOfRun, splitUnescaped, splitItems_unlimited, List.filter_map,
    List.map_map, filled]
  rfl

theorem eq_of_isUnescaped {c : Char} {p : Scanned} (h : isUnescaped (· == c) p = true) :
    p = ⟨false, c⟩ := by
  obtain ⟨escaped, d⟩ := p
  simp only [isUnescaped, Bool.and_eq_true, Bool.not_eq_true', beq_iff_eq] at h
  rw [h.1, h.2]

theorem slotOfPart_run {part : List Scanned} (clean : bareMark ∉ part)
    (whole : ∀ p ∈ part, isUnescaped (· == ';') p = false) :
    slotOfPart part = some (free (restore part)) := by
  rw [slotOfPart, if_neg]
  intro alone
  have same : part = [⟨false, ';'⟩] := by rw [← scan_restore clean, alone]; rfl
  exact absurd (whole ⟨false, ';'⟩ (by simp [same])) (by decide)

theorem slotOfPart_proper {part : List Scanned} (clean : bareMark ∉ part) (filled : part ≠ [])
    (kind : (∃ p, part = [p] ∧ isUnescaped (· == ';') p = true) ∨
      ∀ p ∈ part, isUnescaped (· == ';') p = false) :
    (slotOfPart part).Proper ∧ slotGlyphs (slotOfPart part) = part.map .char := by
  rcases kind with ⟨p, rfl, separates⟩ | whole
  · rw [eq_of_isUnescaped separates]
    exact ⟨trivial, rfl⟩
  · rw [slotOfPart_run clean whole, slotGlyphs, glyphsOf, scan_restore clean]
    refine ⟨⟨by simpa using filled, by rwa [scan_restore clean], ?_⟩, rfl⟩
    rw [scan_restore clean]
    intro member
    exact absurd (whole _ member) (by decide)

theorem slotsOfRun_proper {run : List Char} (clean : bareMark ∉ scan run) :
    (∀ slot ∈ slotsOfRun run, slot.Proper) ∧
      (slotsOfRun run).flatMap slotGlyphs = (scan run).map .char := by
  obtain ⟨first, others, cut, joined, whole, kinds⟩ := cuts_keep (isUnescaped (· == ';')) (scan run)
  have parts : ∀ part ∈ cuts (isUnescaped (· == ';')) true none (scan run), part ≠ [] →
      (slotOfPart part).Proper ∧ slotGlyphs (slotOfPart part) = part.map .char := by
    intro part member filled
    have inside : ∀ p ∈ part, p ∈ scan run := by
      intro p found
      rw [← joined, ← List.flatten_cons, ← cut]
      exact List.mem_flatten.mpr ⟨part, member, found⟩
    refine slotOfPart_proper (fun bare => clean (inside _ bare)) filled ?_
    rw [cut] at member
    rcases List.mem_cons.mp member with rfl | member
    · exact .inr whole
    · exact kinds part member
  rw [slotsOfRun_eq]
  constructor
  · intro slot member
    obtain ⟨part, kept, rfl⟩ := List.mem_map.mp member
    obtain ⟨member, filled⟩ := List.mem_filter.mp kept
    exact (parts part member (by simpa using filled)).1
  · have written : ∀ kept : List (List Scanned),
        (∀ part ∈ kept, slotGlyphs (slotOfPart part) = part.map .char) →
        (kept.map slotOfPart).flatMap slotGlyphs = kept.flatten.map .char := by
      intro kept
      induction kept with
      | nil => intro _; rfl
      | cons part kept ih =>
        intro each
        simp [each part (by simp), ih fun x member => each x (List.mem_cons_of_mem _ member)]
    rw [written]
    · rw [List.flatten_filter_ne_nil, cut, List.flatten_cons, joined]
    · intro part kept
      obtain ⟨member, filled⟩ := List.mem_filter.mp kept
      exact (parts part member (by simpa using filled)).2

def Sound (items : List Tree) : Prop := ∀ run, free run ∈ items → bareMark ∉ scan run

theorem slots_proper {items : List Tree} (sound : Sound items) :
    (∀ slot ∈ slots items, slot.Proper) ∧ (slots items).flatMap slotGlyphs = glyphs items := by
  induction items with
  | nil => exact ⟨by simp [slots], rfl⟩
  | cons item rest ih =>
    obtain ⟨proper, written⟩ := ih fun run member => sound run (List.mem_cons_of_mem _ member)
    cases item with
    | nested children =>
      refine ⟨?_, ?_⟩
      · intro slot member
        rcases List.mem_cons.mp member with rfl | member
        · trivial
        · exact proper slot member
      · exact congrArg (Glyph.pair children :: ·) written
    | free run =>
      obtain ⟨inRun, ofRun⟩ := slotsOfRun_proper (sound run (by simp))
      refine ⟨?_, ?_⟩
      · intro slot member
        rcases List.mem_append.mp member with member | member
        · exact inRun slot member
        · exact proper slot member
      · rw [glyphs_free, ← ofRun, ← written, ← List.flatMap_append]
        rfl

theorem splitArguments_eq {items : List Tree} (sound : Sound items) :
    splitArguments items = segments (glyphs items) := by
  obtain ⟨proper, written⟩ := slots_proper sound
  have each : ∀ part ∈ cuts Option.isNone false none (slots items), ∀ slot ∈ part,
      Slot.Proper slot ∧ Option.isNone slot = false :=
    fun part member slot found =>
      ⟨proper slot (mem_of_mem_cuts member found).1, (mem_of_mem_cuts member found).2⟩
  rw [splitArguments, segments, splitItems_unlimited, splitItems_unlimited, ← written,
    ← cuts_slotGlyphs proper, dropEmptyEnd_map, List.map_map]
  · refine List.map_congr_left fun part member => ?_
    have known := each part (mem_of_mem_dropEmptyEnd member)
    rw [mergeFree_slots (fun slot found => (known slot found).1) fun slot found =>
      (known slot found).2]
    rfl
  · intro part member
    cases part with
    | nil => rfl
    | cons slot slots =>
      have filled := slotGlyphs_ne_nil (each _ member slot (by simp)).1
      cases shown : slotGlyphs slot with
      | nil => exact absurd shown filled
      | cons g gs => simp [shown]

end Call

end BracketMarkup
