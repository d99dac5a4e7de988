import BracketMarkup.Proofs.EscapePairs
import BracketMarkup.Proofs.NormalForm
import Mathlib.Data.List.Forall2

namespace BracketMarkup

open Bracketed

theorem intercalate_cuts {α : Type} {isSeparator : α → Bool} {separator : α} {items : List α}
    (only : ∀ x ∈ items, isSeparator x = true → x = separator) :
    [separator].intercalate (cuts isSeparator false none items) = items := by
  induction items with
  | nil => rfl
  | cons x rest ih =>
    have later := ih fun y member => only y (List.mem_cons_of_mem x member)
    obtain ⟨part, parts, shape⟩ := List.exists_cons_of_ne_nil (cuts_ne_nil isSeparator false none rest)
    cases separates : isSeparator x with
    | true =>
      rw [cuts_separator separates, List.intercalate_cons_of_ne_nil (cuts_ne_nil _ _ _ _), later,
        only x (by simp) separates]
      rfl
    | false =>
      rw [cuts_cons separates, shape, List.modifyHead_cons]
      rw [shape] at later
      cases parts with
      | nil => rw [List.intercalate_singleton] at later ⊢; rw [later]
      | cons next parts =>
        rw [List.intercalate_cons_of_ne_nil (List.cons_ne_nil _ _)] at later ⊢
        rw [← later]
        rfl

namespace Call

structure Whole (stretch : List Glyph) (items : List Tree) : Prop where
  written : glyphs items = stretch
  apart : RunsApart items
  filled : free [] ∉ items

/-- What the argument that is written as a stretch is read as. A run in front loses the blanks at its
    start and then its escaped spaces, all else stays. -/
inductive ArgumentOf (stretch : List Glyph) : List Tree → Prop where
  | trimmed {gap rest kept : List Char} {later : List Tree} :
      Whole stretch (free (gap ++ rest) :: later) → (∀ c ∈ gap, isBlank c = true) →
      (∀ c, rest.head? = some c → isBlank c = false) →
      scan kept = (scan rest).filter (· ≠ ⟨true, ' '⟩) → ArgumentOf stretch (free kept :: later)
  | kept {items : List Tree} : Whole stretch items → (∀ run later, items ≠ free run :: later) →
      ArgumentOf stretch items

theorem glyphs_consRun {run : List Char} (clean : bareMark ∉ scan run) (items : List Tree) :
    glyphs (consRun run items) = (scan run).map .char ++ glyphs items := by
  cases items with
  | nil => rfl
  | cons item rest =>
    cases item with
    | free following =>
      rw [consRun, glyphs_free, glyphs_free, scan_append_of_complete clean, List.map_append,
        List.append_assoc]
    | nested children => rfl

theorem mergeFree_sound {items : List Tree} (sound : Sound items) :
    Sound (mergeFree items) ∧ glyphs (mergeFree items) = glyphs items := by
  induction items with
  | nil => exact ⟨sound, rfl⟩
  | cons item rest ih =>
    obtain ⟨later, same⟩ := ih fun run member => sound run (List.mem_cons_of_mem item member)
    cases item with
    | free run =>
      have clean := sound run (by simp)
      rw [mergeFree_free, glyphs_consRun clean, same]
      exact ⟨sound_consRun clean later, rfl⟩
    | nested children =>
      rw [mergeFree, glyphs_nested, same]
      refine ⟨fun run member => ?_, rfl⟩
      rcases List.mem_cons.mp member with same | member
      · cases same
      · exact later run member

theorem filled_pack (gs : List Glyph) : free [] ∉ pack gs := by
  induction gs with
  | nil => exact List.not_mem_nil
  | cons g gs ih =>
    rw [pack_cons]
    cases g with
    | pair children => simpa [consGlyph] using ih
    | char p =>
      rw [consGlyph_char]
      cases shape : pack gs with
      | nil => simp [consRun, (write_ne_nil p).symm]
      | cons item rest =>
        rw [shape] at ih
        cases item <;> simp_all [consRun, write_ne_nil]

theorem whole_pack {gs : List Glyph} (clean : Clean gs) : Whole gs (pack gs) :=
  ⟨glyphs_pack clean, pack_runsApart gs, filled_pack gs⟩

theorem argumentOf_trimFront {gs : List Glyph} (clean : Clean gs) : ArgumentOf gs (trimFront (pack gs)) := by
  have whole := whole_pack clean
  have sound := sound_pack clean
  cases shape : pack gs with
  | nil =>
    rw [shape] at whole
    exact .kept whole (by simp [trimFront])
  | cons item later =>
    rw [shape] at whole sound
    cases item with
    | nested children => exact .kept whole (by simp [trimFront])
    | free run =>
      have split : Whole gs (free (run.takeWhile isBlank ++ trimStart run) :: later) := by
        rwa [trimStart, List.takeWhile_append_dropWhile]
      have blanks : ∀ c ∈ run.takeWhile isBlank, isBlank c = true :=
        fun c member => List.mem_takeWhile_imp member
      have stops : ∀ c, (trimStart run).head? = some c → isBlank c = false := by
        intro c first
        have dark := List.head?_dropWhile_not isBlank run
        rw [trimStart] at first
        rw [first] at dark
        exact dark
      exact .trimmed split blanks stops (scan_dropGuards _)

theorem mem_scan_of_mem_pack {gs : List Glyph} (clean : Clean gs) {run : List Char} {p : Scanned}
    (inside : free run ∈ pack gs) (member : p ∈ scan run) : .char p ∈ gs := by
  rw [← glyphs_pack clean]
  exact List.mem_flatMap.mpr ⟨free run, inside, List.mem_map_of_mem member⟩

theorem trimFront_pack {gs : List Glyph} (clean : Clean gs) :
    RunsApart (trimFront (pack gs)) ∧
      ∀ run p, free run ∈ trimFront (pack gs) → p ∈ scan run → .char p ∈ gs := by
  have apart := pack_runsApart gs
  have written : ∀ run p, free run ∈ pack gs → p ∈ scan run → .char p ∈ gs :=
    fun run p => mem_scan_of_mem_pack clean
  have sound := sound_pack clean
  cases shape : pack gs with
  | nil => exact ⟨.nil, by simp [trimFront]⟩
  | cons item later =>
    rw [shape] at apart written sound
    cases item with
    | nested children => exact ⟨apart, written⟩
    | free run =>
      obtain ⟨next, chain⟩ := List.isChain_cons.mp apart
      refine ⟨List.isChain_cons.mpr ⟨fun item starts => next item starts, chain⟩, ?_⟩
      intro other p member inside
      rcases List.mem_cons.mp member with same | member
      · cases same
        have inRun := sound run (by simp)
        rw [scan_dropGuards, scan_trimStart inRun] at inside
        have kept := (List.dropWhile_suffix _).subset (List.mem_filter.mp inside).1
        exact written run p (by simp) kept
      · exact written other p (List.mem_cons_of_mem _ member) inside

theorem clean_glyphs {items : List Tree} (sound : Sound items) : Clean (glyphs items) := by
  intro member
  obtain ⟨item, inside, found⟩ := List.mem_flatMap.mp member
  cases item with
  | nested children => simp [glyphsOf] at found
  | free run =>
    obtain ⟨p, marked, same⟩ := List.mem_map.mp found
    cases same
    exact sound run inside marked

theorem stretches_of_cuts {items : List Tree} (sound : Sound items) :
    [Glyph.char ⟨false, ';'⟩].intercalate (cuts (Glyph.is ';') false none (glyphs items)) =
        glyphs items ∧
      ∀ stretch ∈ cuts (Glyph.is ';') false none (glyphs items),
        .char ⟨false, ';'⟩ ∉ stretch ∧ Clean stretch := by
  refine ⟨intercalate_cuts fun g _ separates => ?_, fun stretch member => ⟨fun inside => ?_, fun inside => ?_⟩⟩
  · cases g with
    | pair children => cases separates
    | char p => exact congrArg Glyph.char (by simpa [Glyph.is] using separates)
  · have other := (mem_of_mem_cuts member inside).2
    simp [Glyph.is] at other
  · exact clean_glyphs sound (mem_of_mem_cuts member inside).1

/-- The arguments of a call are what stands between the semicolons of its runs, wherever the runs are
    cut. Each keeps its pairs and its text but for what is trimmed at its front, and has no semicolon
    that separates. -/
theorem splitArguments_by_stretch {items : List Tree} (sound : Sound items) :
    splitArguments (mergeFree items) = splitArguments items ∧
      (∀ other, Sound other → glyphs other = glyphs items →
        splitArguments other = splitArguments items) ∧
      (∃ stretches, stretches ≠ [] ∧
        [Glyph.char ⟨false, ';'⟩].intercalate stretches = glyphs items ∧
        (∀ stretch ∈ stretches, .char ⟨false, ';'⟩ ∉ stretch) ∧
        List.Forall₂ ArgumentOf (dropEmptyEnd stretches) (splitArguments items)) ∧
      ∀ argument ∈ splitArguments items, RunsApart argument ∧
        ∀ run, free run ∈ argument → ⟨false, ';'⟩ ∉ scan run := by
  have alike : ∀ other, Sound other → glyphs other = glyphs items →
      splitArguments other = splitArguments items := by
    intro other whole same
    rw [splitArguments_eq whole, splitArguments_eq sound, same]
  obtain ⟨merged, same⟩ := mergeFree_sound sound
  obtain ⟨joined, stretches⟩ := stretches_of_cuts sound
  have split : splitArguments items =
      (dropEmptyEnd (cuts (Glyph.is ';') false none (glyphs items))).map (trimFront ∘ pack) :=
    splitArguments_eq sound
  refine ⟨alike _ merged same, alike, ?_, ?_⟩
  · refine ⟨_, cuts_ne_nil _ _ _ _, joined, fun stretch member => (stretches stretch member).1, ?_⟩
    rw [split, List.forall₂_map_right_iff, List.forall₂_same]
    exact fun stretch member =>
      argumentOf_trimFront (stretches stretch (mem_of_mem_dropEmptyEnd member)).2
  · intro argument member
    rw [split] at member
    obtain ⟨stretch, part, rfl⟩ := List.mem_map.mp member
    obtain ⟨unseparated, clean⟩ := stretches stretch (mem_of_mem_dropEmptyEnd part)
    obtain ⟨apart, written⟩ := trimFront_pack clean
    exact ⟨apart, fun run inside semicolon => unseparated (written run _ inside semicolon)⟩

theorem splitArguments_by_stretch_cut_run :
    let items : List Tree := [free [' ', 'a'], nested [free ['x', ';']], free ['b', ';', ' ', '\\', ' '],
      free ['\\', ';', 'c', ';']]
    Sound items ∧ splitArguments items =
        [[free ['a'], nested [free ['x', ';']], free ['b']], [free ['\\', ';', 'c']]] ∧
      splitArguments (mergeFree items) = splitArguments items ∧
      ∀ argument ∈ splitArguments items, ∀ run, free run ∈ argument → ⟨false, ';'⟩ ∉ scan run := by
  intro items
  have sound : Sound items := by
    intro run member
    simp only [items, List.mem_cons, free.injEq, reduceCtorEq, List.not_mem_nil, false_or, or_false] at member
    rcases member with rfl | rfl | rfl <;> decide
  obtain ⟨merged, -, -, unseparated⟩ := splitArguments_by_stretch sound
  exact ⟨sound, rfl, merged, fun argument member => (unseparated argument member).2⟩

end Call

end BracketMarkup
