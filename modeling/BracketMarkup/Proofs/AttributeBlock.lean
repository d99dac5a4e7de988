import BracketMarkup.Proofs.Delimiters
import BracketMarkup.Proofs.Headers

namespace BracketMarkup

open Bracketed Call Template

/-- The characters of the runs among items. What stands in nested pairs is left out. -/
def looseChars (items : List Tree) : List Scanned :=
  items.flatMap fun
    | free run => scan run
    | nested _ => []

/-- The text that items were grouped from. -/
def rejoined (items : List Tree) : List Char := (flattenAll ['['] [']'] items).flatten

inductive BlockOf (items : List Tree) : List Char → List Tree → Prop where
  | closed {front later : List Tree} {run before after : List Char} :
      items = front ++ free run :: later → scan run = scan before ++ ⟨false, '\x7d'⟩ :: scan after →
      Ends '\x7b' '\x7d' 0 (looseChars front ++ scan before) →
      BlockOf items (rejoined front ++ before) (free after :: later)
  | unclosed :
      (∀ inside after, looseChars items = inside ++ ⟨false, '\x7d'⟩ :: after →
        ¬ Ends '\x7b' '\x7d' 0 inside) →
      BlockOf items (rejoined items) []

theorem rejoined_cons (item : Tree) (rest : List Tree) :
    rejoined (item :: rest) = (flatten ['['] [']'] item).flatten ++ rejoined rest := by
  rw [rejoined, flattenAll, List.flatten_append]
  rfl

theorem rejoined_free (run : List Char) (rest : List Tree) :
    rejoined (free run :: rest) = run ++ rejoined rest := by
  rw [rejoined_cons]
  simp [flatten]

namespace Call

def Glyph.char? : Glyph → Option Scanned
  | .char p => some p
  | .pair _ => none

theorem filterMap_char? (pairs : List Scanned) : (pairs.map Glyph.char).filterMap Glyph.char? = pairs := by
  rw [List.filterMap_map]
  exact List.filterMap_some

theorem filterMap_glyphs (items : List Tree) : (glyphs items).filterMap Glyph.char? = looseChars items := by
  induction items with
  | nil => rfl
  | cons item rest ih =>
    cases item with
    | nested children => exact ih
    | free run =>
      rw [glyphs_free, List.filterMap_append, filterMap_char?, ih]
      rfl

theorem writeAll_glyphs (items : List Tree) : writeAll (glyphs items) = rejoined items := by
  induction items with
  | nil => rfl
  | cons item rest ih =>
    cases item with
    | nested children =>
      rw [rejoined_cons, ← ih]
      rfl
    | free run => rw [glyphs_free, writeAll_append, writeAll_map_char, restore_scan, ih, rejoined_free]

theorem glyphs_eq_append_char {items : List Tree} {inside after : List Glyph} {p : Scanned}
    (h : glyphs items = inside ++ .char p :: after) :
    ∃ front run later before behind, items = front ++ free run :: later ∧
      scan run = before ++ p :: behind ∧ inside = glyphs front ++ before.map .char ∧
      after = behind.map .char ++ glyphs later := by
  induction items generalizing inside with
  | nil => simp at h
  | cons item rest ih =>
    have further : ∀ between, inside = glyphsOf item ++ between →
        glyphs rest = between ++ .char p :: after →
        ∃ front run later before behind, item :: rest = front ++ free run :: later ∧
          scan run = before ++ p :: behind ∧ inside = glyphs front ++ before.map .char ∧
          after = behind.map .char ++ glyphs later := by
      rintro between rfl found
      obtain ⟨front, run, later, before, behind, rfl, scanned, rfl, rfl⟩ := ih found
      exact ⟨item :: front, run, later, before, behind, rfl, scanned, (List.append_assoc _ _ _).symm, rfl⟩
    -- The character stands behind this item, or in it. Only a run can hold one.
    rcases List.append_eq_append_iff.mp h with ⟨between, first, found⟩ | ⟨between, first, found⟩
    · exact further between first found
    · cases between with
      | nil => exact further [] (by simpa using first.symm) found.symm
      | cons g between =>
        obtain ⟨rfl, rfl⟩ := List.cons.inj found
        cases item with
        | nested children =>
          exact absurd first (by simp [glyphsOf, List.singleton_eq_append_iff])
        | free run =>
          obtain ⟨before, tail, scanned, rfl, shown⟩ := List.map_eq_append_iff.mp first
          obtain ⟨q, behind, rfl, same, rfl⟩ := List.map_eq_cons_iff.mp shown
          cases same
          exact ⟨[], run, rest, before, behind, rfl, scanned, rfl, rfl⟩

@[simp] theorem blockDepth_pair (depth : Nat) (children : List Tree) :
    blockDepth depth (.pair children) = depth := rfl

theorem blockDepth_total {p : Scanned} {depth : Nat} (h : ¬ ((Glyph.char p).is '\x7d' = true ∧ depth = 0)) :
    [p].count ⟨false, '\x7d'⟩ + blockDepth depth (.char p) = [p].count ⟨false, '\x7b'⟩ + depth := by
  by_cases closer : p = ⟨false, '\x7d'⟩
  · subst closer
    have positive : depth ≠ 0 := fun bottom => h ⟨rfl, bottom⟩
    simp [blockDepth, Glyph.is]
    omega
  · by_cases opener : p = ⟨false, '\x7b'⟩
    · subst opener
      simp [blockDepth, Glyph.is]
      omega
    · simp [blockDepth, Glyph.is, closer, opener]

theorem splitBlock_cases (depth : Nat) (gs : List Glyph) :
    (∃ inside after, gs = inside ++ .char ⟨false, '\x7d'⟩ :: after ∧
      Ends '\x7b' '\x7d' depth (inside.filterMap Glyph.char?) ∧ splitBlock depth gs = (inside, after)) ∨
    ((∀ inside after, gs.filterMap Glyph.char? = inside ++ ⟨false, '\x7d'⟩ :: after →
      ¬ Ends '\x7b' '\x7d' depth inside) ∧ splitBlock depth gs = (gs, [])) := by
  induction gs generalizing depth with
  | nil => exact .inr ⟨by simp, rfl⟩
  | cons g rest ih =>
    by_cases ends : g.is '\x7d' = true ∧ depth = 0
    · obtain ⟨closes, rfl⟩ := ends
      cases g with
      | pair children => cases closes
      | char p =>
        have closer : p = ⟨false, '\x7d'⟩ := by simpa [Glyph.is] using closes
        subst closer
        exact .inl ⟨[], rest, rfl, ⟨rfl, by simp⟩, by simp [splitBlock, Glyph.is]⟩
    · rw [splitBlock_inside ends]
      cases g with
      -- A pair is passed over as a whole: neither side of the statement looks at braces inside it.
      | pair children =>
        rcases ih depth with ⟨inside, after, rfl, closed, split⟩ | ⟨open', split⟩
        · refine .inl ⟨.pair children :: inside, after, rfl, closed, ?_⟩
          rw [blockDepth_pair, split]
        · exact .inr ⟨open', by rw [blockDepth_pair, split]⟩
      | char p =>
        have step : ∀ inside, Ends '\x7b' '\x7d' depth (p :: inside) ↔
            Ends '\x7b' '\x7d' (blockDepth depth (.char p)) inside :=
          fun _ => Ends.cons_iff (blockDepth_total ends)
        rcases ih (blockDepth depth (.char p)) with ⟨inside, after, rfl, closed, split⟩ | ⟨open', split⟩
        · exact .inl ⟨.char p :: inside, after, rfl, (step _).mpr closed, by rw [split]⟩
        · refine .inr ⟨fun inside after shape balanced => ?_, by rw [split]⟩
          cases inside with
          | nil =>
            obtain ⟨rfl, -⟩ := List.cons.inj shape
            exact ends ⟨rfl, by simpa using balanced.1.symm⟩
          | cons q inside =>
            obtain ⟨rfl, later⟩ := List.cons.inj shape
            exact open' inside after later ((step inside).mp balanced)

theorem blockOf_splitBlock {items : List Tree} (sound : Sound items) :
    ∃ text following, BlockOf items text following ∧
      writeAll (splitBlock 0 (glyphs items)).1 = text ∧
      segments (splitBlock 0 (glyphs items)).2 = splitArguments following := by
  rcases splitBlock_cases 0 (glyphs items) with ⟨inside, after, whole, closed, split⟩ | ⟨open', split⟩
  · obtain ⟨front, run, later, before, behind, rfl, scanned, rfl, rfl⟩ := glyphs_eq_append_char whole
    have clean : bareMark ∉ scan run := sound run (by simp)
    rw [scanned] at clean
    have inFront : bareMark ∉ before := fun member => clean (by simp [member])
    have behindClean : bareMark ∉ behind := fun member => clean (by simp [member])
    have soundLater : Sound later := fun other member => sound other (by simp [member])
    rw [List.filterMap_append, filterMap_glyphs, filterMap_char?] at closed
    refine ⟨rejoined front ++ restore before, free (restore behind) :: later, ?_, ?_, ?_⟩
    · apply BlockOf.closed rfl
      · rw [scan_restore inFront, scan_restore behindClean, scanned]
      · rwa [scan_restore inFront]
    · rw [split, writeAll_append, writeAll_glyphs, writeAll_map_char]
    · rw [split, splitArguments_eq (sound_free behindClean soundLater), glyphs_free,
        scan_restore behindClean]
  · rw [filterMap_glyphs] at open'
    refine ⟨rejoined items, [], .unclosed open', ?_, ?_⟩
    · rw [split, writeAll_glyphs]
    · rw [split]
      rfl

end Call

end BracketMarkup
