import BracketMarkup.Proofs.Calls
import BracketMarkup.Proofs.Spelling

namespace BracketMarkup

open Bracketed Call

namespace Bracketed

variable {α β : Type} {f : α → β} {isOpen isClose : α → Bool} {isOpen' isClose' : β → Bool}

theorem mapAll_eq_map (f : α → β) (trees : List (Bracketed α)) :
    mapAll f trees = trees.map (map f) := by
  induction trees with
  | nil => rfl
  | cons tree rest ih => rw [mapAll, ih, List.map_cons]

theorem countP_map_of_same {p : β → Bool} {q : α → Bool} (same : ∀ x, p (f x) = q x)
    (items : List α) : (items.map f).countP p = items.countP q := by
  have composed : p ∘ f = q := funext same
  rw [List.countP_map, composed]

section Delimiters

variable (opensSame : ∀ x, isOpen' (f x) = isOpen x) (closesSame : ∀ x, isClose' (f x) = isClose x)
include opensSame closesSame

theorem Spells.map {trees : List (Bracketed α)} {items : List α}
    (h : Spells isOpen isClose trees items) :
    Spells isOpen' isClose' (mapAll f trees) (items.map f) := by
  induction h with
  | nil => exact .nil
  | free notOpen notClose _ ih =>
    exact .free ((opensSame _).trans notOpen) ((closesSame _).trans notClose) ih
  | @nested opener closer children trees inner items opens notOpen closes _ _ inside ih =>
    have mapped := Spells.nested ((opensSame _).trans opens) ((opensSame _).trans notOpen)
      ((closesSame _).trans closes) inside ih
    simpa [mapAll, Bracketed.map] using mapped

theorem isCloser_map (x : α) : isCloser isOpen' isClose' (f x) = isCloser isOpen isClose x := by
  rw [isCloser, isCloser, opensSame, closesSame]

theorem overclosed_map (items : List α) :
    Overclosed isOpen' isClose' (items.map f) ↔ Overclosed isOpen isClose items := by
  have counts : ∀ front : List α,
      (front.map f).countP isOpen' < (front.map f).countP (isCloser isOpen' isClose') ↔
        front.countP isOpen < front.countP (isCloser isOpen isClose) := by
    intro front
    rw [countP_map_of_same opensSame, countP_map_of_same (isCloser_map opensSame closesSame)]
  constructor
  · rintro ⟨mapped, before, more⟩
    obtain ⟨front, shorter, rfl⟩ := List.prefix_map_iff.mp before
    exact ⟨front, shorter, (counts front).mp more⟩
  · rintro ⟨front, before, more⟩
    exact ⟨front.map f, before.map f, (counts front).mpr more⟩

end Delimiters

end Bracketed

def bareText (text : List Char) : List Char := restore ((scan text).map Scanned.bare)

theorem scan_bareText (text : List Char) : scan (bareText text) = (scan text).map Scanned.bare := by
  apply scan_restore_of_dropLast
  rw [← List.map_dropLast, bareMark_mem_map_bare]
  exact bareMark_notMem_scan text

theorem bareText_restore {pairs : List Scanned} (clean : bareMark ∉ pairs) :
    bareText (restore pairs) = restore (pairs.map Scanned.bare) := by
  rw [bareText, scan_restore clean]

theorem unescape_bareText (text : List Char) : unescape (bareText text) = unescape text := by
  rw [unescape, scan_bareText, map_char_bare, unescape]

theorem bareText_write_append {p : Scanned} (proper : p ≠ bareMark) (rest : List Char) :
    bareText (p.write ++ rest) = p.bare.write ++ bareText rest := by
  rw [bareText, scan_write_append proper, List.map_cons, restore_cons, bareText]

theorem bareText_write (p : Scanned) : bareText p.write = p.bare.write := by
  by_cases marked : p = bareMark
  · rw [marked]
    rfl
  · simpa [bareText] using bareText_write_append marked []

def Call.Glyph.bare : Glyph → Glyph
  | .char p => .char p.bare
  | .pair children => .pair (mapAll bareText children)

namespace Call

theorem is_bare {c : Char} (mark : c ∈ marks) (g : Glyph) : g.bare.is c = g.is c := by
  cases g with
  | pair children => rfl
  | char p =>
    have same := bare_eq_iff (p := p) (q := ⟨false, c⟩) (isOrdinary_of_mark mark)
    simp only [Glyph.bare, Glyph.is, Bool.beq_eq_decide_eq, same]

theorem blank_bare (g : Glyph) : g.bare.blank = g.blank := by
  cases g with
  | pair children => rfl
  | char p => exact isUnescaped_blank_bare p

theorem inHead_glyph_bare (g : Glyph) : g.bare.inHead = g.inHead := by
  cases g with
  | pair children => rfl
  | char p => exact inHead_bare p

theorem consGlyph_bare {g : Glyph} (proper : g ≠ .char bareMark) (items : List Tree) :
    mapAll bareText (consGlyph g items) = consGlyph g.bare (mapAll bareText items) := by
  cases g with
  | pair children => rfl
  | char p =>
    have unmarked : p ≠ bareMark := fun same => proper (congrArg Glyph.char same)
    cases items with
    | nil => simp [consGlyph, Glyph.bare, mapAll, Bracketed.map, bareText_write]
    | cons item rest =>
      cases item with
      | free run =>
        simp [consGlyph, Glyph.bare, mapAll, Bracketed.map, bareText_write_append unmarked]
      | nested children => simp [consGlyph, Glyph.bare, mapAll, Bracketed.map, bareText_write]

theorem mapAll_pack {gs : List Glyph} (h : .char bareMark ∉ gs.dropLast) :
    mapAll bareText (pack gs) = pack (gs.map Glyph.bare) := by
  induction gs with
  | nil => rfl
  | cons g gs ih =>
    cases gs with
    | nil =>
      cases g with
      | pair children => rfl
      | char p => simp [consGlyph, Glyph.bare, mapAll, Bracketed.map, bareText_write]
    | cons next gs =>
      rw [List.dropLast_cons_cons, List.mem_cons, not_or] at h
      rw [pack_cons, consGlyph_bare (Ne.symm h.1), ih h.2]
      rfl

theorem Clean.dropLast {gs : List Glyph} (clean : Clean gs) : .char bareMark ∉ gs.dropLast :=
  fun member => clean ((List.dropLast_sublist gs).subset member)

theorem Clean.subset {gs part : List Glyph} (clean : Clean gs) (h : part ⊆ gs) : Clean part :=
  fun member => clean (h member)

theorem leading_bare (gs : List Glyph) :
    leading (gs.map Glyph.bare) = (leading gs).map Scanned.bare := by
  induction gs with
  | nil => rfl
  | cons g gs ih =>
    cases g with
    | pair children => rfl
    | char p => exact congrArg (p.bare :: ·) ih

theorem blockDepth_bare (depth : Nat) (g : Glyph) : blockDepth depth g.bare = blockDepth depth g := by
  rw [blockDepth, blockDepth, is_bare (by decide), is_bare (by decide)]

theorem splitBlock_bare (depth : Nat) (gs : List Glyph) :
    splitBlock depth (gs.map Glyph.bare) =
      ((splitBlock depth gs).1.map Glyph.bare, (splitBlock depth gs).2.map Glyph.bare) := by
  induction gs generalizing depth with
  | nil => rfl
  | cons g gs ih =>
    rw [List.map_cons, splitBlock, splitBlock, is_bare (by decide), blockDepth_bare, ih]
    split <;> rfl

theorem splitBlock_sublist (depth : Nat) (gs : List Glyph) :
    (splitBlock depth gs).1.Sublist gs ∧ (splitBlock depth gs).2.Sublist gs := by
  induction gs generalizing depth with
  | nil => exact ⟨List.Sublist.refl _, List.Sublist.refl _⟩
  | cons g gs ih =>
    rw [splitBlock]
    split
    · exact ⟨List.nil_sublist _, List.sublist_cons_self _ _⟩
    · exact ⟨(ih _).1.cons_cons g, (ih _).2.cons g⟩

theorem behindHead_sublist (gs : List Glyph) : (behindHead gs).2.Sublist gs := by
  cases gs with
  | nil => exact List.Sublist.refl _
  | cons g gs =>
    cases g with
    | pair children => exact List.Sublist.refl _
    | char p =>
      rw [behindHead]
      split
      · exact (splitBlock_sublist 0 gs).2.cons _
      · exact List.sublist_cons_self _ _

theorem behindName_suffix (gs : List Glyph) :
    (gs.dropWhile Glyph.blank).dropWhile Glyph.inHead <:+ gs :=
  (List.dropWhile_suffix _).trans (List.dropWhile_suffix _)

/-- What brackets hold, at every depth, without a mark that would escape the closer. -/
inductive Sealed : List Tree → Prop where
  | pack {gs : List Glyph} (clean : Clean gs)
      (inner : ∀ children, .pair children ∈ gs → Sealed children) : Sealed (pack gs)

def written (items : List Tree) : List Char := (flattenAll ['['] [']'] items).flatten

theorem written_pack (gs : List Glyph) : written (pack gs) = writeAll gs := by
  induction gs with
  | nil => rfl
  | cons g gs ih =>
    rw [pack_cons, writeAll, List.flatMap_cons, ← writeAll, ← ih]
    cases g with
    | pair children => simp [consGlyph, written, flattenAll, Glyph.write]
    | char p =>
      rw [consGlyph_char]
      cases pack gs with
      | nil => simp [consRun, written, flattenAll, flatten, Glyph.write]
      | cons item rest =>
        cases item <;> simp [consRun, written, flattenAll, flatten, Glyph.write]

theorem write_pair (children : List Tree) :
    (Glyph.pair children).write = '[' :: (written children ++ [']']) := by
  simp [Glyph.write, flatten, written]

theorem writeAll_bare {gs : List Glyph} (clean : Clean gs)
    (inner : ∀ children, .pair children ∈ gs → ∃ pairs, bareMark ∉ pairs ∧
      written children = restore pairs ∧
      written (mapAll bareText children) = restore (pairs.map Scanned.bare)) :
    ∃ pairs, bareMark ∉ pairs ∧ writeAll gs = restore pairs ∧
      writeAll (gs.map Glyph.bare) = restore (pairs.map Scanned.bare) := by
  induction gs with
  | nil => exact ⟨[], by simp, rfl, rfl⟩
  | cons g gs ih =>
    simp only [Clean, List.mem_cons, not_or] at clean
    obtain ⟨pairs, unmarked, shown, bared⟩ :=
      ih clean.2 fun children member => inner children (List.mem_cons_of_mem g member)
    -- A glyph is written as some characters, each of which loses its own mark.
    have step : ∀ (front : List Scanned), bareMark ∉ front → g.write = restore front →
        g.bare.write = restore (front.map Scanned.bare) →
        ∃ pairs, bareMark ∉ pairs ∧ writeAll (g :: gs) = restore pairs ∧
          writeAll ((g :: gs).map Glyph.bare) = restore (pairs.map Scanned.bare) := by
      intro front proper first firstBared
      refine ⟨front ++ pairs, by simp [proper, unmarked], ?_, ?_⟩
      · rw [restore_append, ← first, ← shown]
        rfl
      · rw [List.map_append, restore_append, ← firstBared, ← bared]
        rfl
    cases g with
    | char p =>
      have proper : bareMark ≠ p := fun same => clean.1 (congrArg Glyph.char same)
      exact step [p] (by simpa using proper) (by simp [Glyph.write]) (by simp [Glyph.write, Glyph.bare])
    | pair children =>
      obtain ⟨within, proper, inside, insideBared⟩ := inner children (by simp)
      refine step (⟨false, '['⟩ :: (within ++ [⟨false, ']'⟩])) ?_ ?_ ?_
      · have opener : bareMark ≠ ⟨false, '['⟩ := by decide
        have closer : bareMark ≠ ⟨false, ']'⟩ := by decide
        simp [proper, opener, closer]
      · rw [write_pair, inside]
        simp
      · rw [Glyph.bare, write_pair, insideBared]
        simp [bare_plain]

theorem Sealed.written_bare {children : List Tree} (h : Sealed children) :
    ∃ pairs, bareMark ∉ pairs ∧ written children = restore pairs ∧
      written (mapAll bareText children) = restore (pairs.map Scanned.bare) := by
  induction h with
  | @pack gs clean inner ih =>
    rw [mapAll_pack clean.dropLast, written_pack, written_pack]
    exact writeAll_bare clean ih

theorem behindHead_bare {gs : List Glyph} (clean : Clean gs)
    (inner : ∀ children, .pair children ∈ gs → Sealed children) :
    behindHead (gs.map Glyph.bare) = ((behindHead gs).1, (behindHead gs).2.map Glyph.bare) := by
  cases gs with
  | nil => rfl
  | cons g gs =>
    cases g with
    | pair children => rfl
    | char p =>
      rw [List.map_cons, Glyph.bare, behindHead, behindHead]
      by_cases brace : p = ⟨false, '\x7b'⟩
      · have block : (splitBlock 0 gs).1 ⊆ gs := (splitBlock_sublist 0 gs).1.subset
        have cleanBlock : Clean (splitBlock 0 gs).1 :=
          clean.subset fun g member => List.mem_cons_of_mem _ (block member)
        obtain ⟨pairs, unmarked, shown, bared⟩ := writeAll_bare cleanBlock
          fun children member => (inner children (List.mem_cons_of_mem _ (block member))).written_bare
        rw [if_pos brace, brace, bare_plain, if_pos rfl, splitBlock_bare, bared, shown,
          attributes_bare unmarked]
      · have other : p.bare ≠ ⟨false, '\x7b'⟩ := by
          rwa [Ne, bare_eq_iff (isOrdinary_of_mark (by decide))]
        rw [if_neg brace, if_neg other]

theorem trimFront_bare {items : List Tree} (sound : Sound items) :
    trimFront (mapAll bareText items) = mapAll bareText (trimFront items) := by
  cases items with
  | nil => rfl
  | cons item rest =>
    cases item with
    | nested children => rfl
    | free run =>
      have clean : bareMark ∉ scan run := sound run (by simp)
      have kept : bareMark ∉ ((scan run).dropWhile (isUnescaped isBlank)).filter (!·.isGuard) :=
        fun member => dropWhile_clean clean _ (List.mem_filter.mp member).1
      have same : dropGuards (trimStart (bareText run)) =
          bareText (dropGuards (trimStart run)) := by
        have plain := dropGuards_trimStart_restore clean
        rw [restore_scan] at plain
        rw [plain, bareText_restore kept, bareText,
          dropGuards_trimStart_restore (mt bareMark_mem_map_bare.mp clean), frontDropped_bare]
      simp only [mapAll, Bracketed.map, trimFront, same]

theorem segments_bare {gs : List Glyph} (clean : Clean gs) :
    segments (gs.map Glyph.bare) = (segments gs).map (mapAll bareText) := by
  rw [segments, segments, splitItems_map (is_bare (by decide)), List.map_map, List.map_map]
  apply List.map_congr_left
  intro part member
  have inside : Clean part := by
    rw [splitItems_unlimited] at member
    exact clean.subset fun g found => (mem_of_mem_cuts (mem_of_mem_dropEmptyEnd member) found).1
  simp only [Function.comp_apply, ← mapAll_pack inside.dropLast, trimFront_bare (sound_pack inside)]

def Pending.bare (pending : Pending) : Pending :=
  { pending with segments := pending.segments.map (mapAll bareText) }

end Call

inductive ErrorKind where
  | badMetadata
  | unopened
  | unclosed
  | emptyBody
  | notIdentifier
  deriving DecidableEq, Repr

def ParseError.kind : ParseError → ErrorKind
  | badMetadata _ _ => .badMetadata
  | unopened => .unopened
  | unclosed _ => .unclosed
  | emptyCall => .emptyBody
  | nestedHead | nameless _ => .notIdentifier

namespace Call

theorem pendingOf_bare {header header' head : List Scanned} {gs : List Glyph} (clean : Clean gs)
    (inner : ∀ children, .pair children ∈ gs → Sealed children) :
    (pendingOf header' (head.map Scanned.bare) (gs.map Glyph.bare)).mapError ParseError.kind =
      ((pendingOf header head gs).map Pending.bare).mapError ParseError.kind := by
  have arguments : Clean (behindHead gs).2 := clean.subset (behindHead_sublist gs).subset
  have backend : ((backendOf (head.map Scanned.bare)).map fun part => part.map (·.char)) =
      (backendOf head).map fun part => part.map (·.char) := by
    rw [backendOf_bare, Option.map_map]
    congr 1
    funext part
    exact map_char_bare part
  simp only [pendingOf, nameOf_bare, List.map_eq_nil_iff, backend, map_char_bare,
    behindHead_bare clean inner, segments_bare arguments]
  split <;> rfl

theorem read_bare {children : List Tree} (h : Sealed children) :
    (read (mapAll bareText children)).mapError ParseError.kind =
      ((read children).map Pending.bare).mapError ParseError.kind := by
  obtain ⟨clean, inner⟩ := h
  rename_i gs
  have cleanBare : Clean (gs.map Glyph.bare) := by
    intro member
    obtain ⟨g, found, same⟩ := List.mem_map.mp member
    cases g with
    | pair children => cases same
    | char p =>
      have marked : p = bareMark := bare_eq_bareMark_iff.mp (Glyph.char.inj same)
      exact clean (marked ▸ found)
  have behind := (behindName_suffix gs).subset
  rw [mapAll_pack clean.dropLast, read_pack cleanBare, read_pack clean, List.all_map,
    dropWhile_map_of_same blank_bare, dropWhile_map_of_same inHead_glyph_bare, leading_bare,
    leading_bare, takeWhile_map_of_same inHead_bare,
    show Glyph.blank ∘ Glyph.bare = Glyph.blank from funext blank_bare]
  simp only [List.map_eq_nil_iff]
  split
  · rfl
  · split
    · rfl
    · exact pendingOf_bare (clean.subset behind) fun children member => inner children (behind member)

theorem mem_filterMap_children {gs : List Glyph} {children : List Tree} :
    children ∈ gs.filterMap Glyph.children? ↔ .pair children ∈ gs := by
  rw [List.mem_filterMap]
  constructor
  · rintro ⟨g, member, isPair⟩
    cases g with
    | char p => cases isPair
    | pair other => cases isPair; exact member
  · exact fun member => ⟨_, member, rfl⟩

theorem mem_pack {gs : List Glyph} {children : List Tree} :
    nested children ∈ pack gs ↔ .pair children ∈ gs := by
  rw [← mem_filterMap_children, ← filterMap_pack, List.mem_filterMap]
  constructor
  · exact fun member => ⟨_, member, rfl⟩
  · rintro ⟨item, member, isNested⟩
    cases item with
    | free run => cases isNested
    | nested other => cases isNested; exact member

theorem sealed_segments {children : List Tree} (h : Sealed children) {pending : Pending}
    (header : read children = .ok pending) {inside : List Tree}
    (member : nested inside ∈ pending.segments.flatten) : Sealed inside := by
  obtain ⟨clean, inner⟩ := h
  rename_i gs
  rw [read_pack clean] at header
  split at header
  · cases header
  · split at header
    · cases header
    · rw [pendingOf] at header
      split at header
      · cases header
      · cases header
        have found : inside ∈ (segments (argumentGlyphs .front gs)).flatten.filterMap childrenOf? :=
          List.mem_filterMap.mpr ⟨_, member, rfl⟩
        rw [filterMap_segments, mem_filterMap_children] at found
        exact inner inside ((behindName_suffix gs).subset ((behindHead_sublist _).subset found))

end Call

section Kinds

variable {ε κ α β : Type} {kind : ε → κ}

theorem bind_of_ok (value : α) (next : α → Except ε β) : (Except.ok value >>= next) = next value := rfl

theorem mapError_bind_congr {first second : Except ε α} {next next' : α → Except ε β}
    (same : first.mapError kind = second.mapError kind)
    (later : ∀ value, second = .ok value → (next value).mapError kind = (next' value).mapError kind) :
    (first >>= next).mapError kind = (second >>= next').mapError kind := by
  cases first with
  | error fault =>
    cases second with
    | error other => exact congrArg Except.error (Except.error.inj same)
    | ok value => cases same
  | ok value =>
    cases second with
    | error other => cases same
    | ok other =>
      cases same
      exact later value rfl

theorem mapError_map_congr {first second : Except ε α} (f : α → β)
    (same : first.mapError kind = second.mapError kind) :
    (first.map f).mapError kind = (second.map f).mapError kind := by
  have bound : ∀ result : Except ε α, result.map f = result >>= fun value => .ok (f value) := by
    intro result
    cases result <;> rfl
  rw [bound, bound]
  exact mapError_bind_congr same fun _ _ => rfl

end Kinds

theorem ofTrees_bare {items : List Tree} (h : ∀ children, nested children ∈ items → Sealed children) :
    (Node.ofTrees (mapAll bareText items)).mapError ParseError.kind =
      (Node.ofTrees items).mapError ParseError.kind := by
  induction items using Node.ofTrees.induct with
  | case1 => rfl
  | case2 run rest ih =>
    have later := ih fun children member => h children (List.mem_cons_of_mem _ member)
    rw [mapAll, Bracketed.map, ofTrees_free, ofTrees_free, unescape_bareText]
    exact mapError_map_congr _ later
  | case3 children rest fault failed =>
    have header := read_bare (h children (by simp))
    rw [failed] at header
    cases found : read (mapAll bareText children) with
    | ok pending => rw [found] at header; cases header
    | error other =>
      rw [found] at header
      rw [mapAll, Bracketed.map, ofTrees_nested, ofTrees_nested, failed, found]
      exact congrArg Except.error (Except.error.inj header)
  | case4 children rest pending header ihArguments ihRest =>
    have same := read_bare (h children (by simp))
    have arguments := ihArguments fun inside member => sealed_segments (h children (by simp)) header member
    have later := ihRest fun children member => h children (List.mem_cons_of_mem _ member)
    have built : pending.bare.build.mapError ParseError.kind =
        pending.build.mapError ParseError.kind := by
      have whole : pending.bare.segments.flatten = mapAll bareText pending.segments.flatten := by
        rw [Pending.bare, mapAll_eq_map, List.map_flatten]
        congr 1
        apply List.map_congr_left
        intro segment _
        exact mapAll_eq_map bareText segment
      rw [Pending.build, whole, Pending.build]
      exact arguments
    have readBare : read (mapAll bareText children) = .ok pending.bare := by
      rw [header] at same
      cases found : read (mapAll bareText children) with
      | error fault => rw [found] at same; cases same
      | ok other => rw [found] at same; cases same; rfl
    rw [mapAll, Bracketed.map, ofTrees_nested, ofTrees_nested, header, readBare, bind_of_ok, bind_of_ok]
    exact mapError_bind_congr built fun _ _ => mapError_bind_congr later fun _ _ => rfl

theorem opens_bare (p : Scanned) : opens p.bare = opens p := by
  have same := bare_eq_iff (p := p) (q := ⟨false, '['⟩) (isOrdinary_of_mark (by decide))
  simp only [opens, Bool.beq_eq_decide_eq, same]

theorem closes_bare (p : Scanned) : closes p.bare = closes p := by
  have same := bare_eq_iff (p := p) (q := ⟨false, ']'⟩) (isOrdinary_of_mark (by decide))
  simp only [closes, Bool.beq_eq_decide_eq, same]

theorem glyphOf_bare {tokens : List Token} {pairs : List Scanned} (h : Balanced tokens pairs)
    (unmarked : bareMark ∉ pairs.dropLast) :
    (mapAll Scanned.bare tokens).map glyphOf = (tokens.map glyphOf).map Glyph.bare ∧
      ∀ children, .pair children ∈ tokens.map glyphOf → Sealed children := by
  induction h with
  | nil => exact ⟨rfl, by simp⟩
  | @free p tokens items _ _ _ ih =>
    obtain ⟨mapped, inner⟩ := ih (notMem_dropLast_tail unmarked)
    refine ⟨congrArg (Glyph.char p.bare :: ·) mapped, ?_⟩
    intro children member
    rcases List.mem_cons.mp member with same | member
    · cases same
    · exact inner children member
  | @nested opener closer children tokens inner items _ _ _ inside _ ihInner ih =>
    obtain ⟨proper, later⟩ := notMem_dropLast_pair unmarked
    obtain ⟨mapped, within⟩ := ih later
    obtain ⟨mappedInner, nestedInner⟩ :=
      ihInner fun member => proper ((List.dropLast_sublist _).subset member)
    have clean := Balanced.clean inside proper
    have bared : treesOf (mapAll Scanned.bare children) = mapAll bareText (treesOf children) := by
      rw [treesOf_eq_pack, treesOf_eq_pack, mappedInner, mapAll_pack clean.dropLast]
    constructor
    · rw [mapAll, List.map_cons, List.map_cons, List.map_cons, mapped, Bracketed.map, glyphOf, glyphOf,
        Glyph.bare, bared]
    · intro other member
      rcases List.mem_cons.mp member with same | member
      · cases same
        rw [treesOf_eq_pack]
        exact .pack clean nestedInner
      · exact within other member

theorem clean_dropLast {tokens : List Token} {pairs : List Scanned} (h : Balanced tokens pairs)
    (unmarked : bareMark ∉ pairs.dropLast) : .char bareMark ∉ (tokens.map glyphOf).dropLast := by
  induction h with
  | nil => simp
  | @free p tokens items _ _ spelled ih =>
    obtain ⟨later, inFront⟩ := @notMem_dropLast_append _ bareMark [p] items unmarked
    cases tokens with
    | nil => simp
    | cons token tokens =>
      have filled : items ≠ [] := by cases spelled <;> simp
      have proper : bareMark ≠ p := by simpa using inFront filled
      rw [List.map_cons, List.map_cons, List.dropLast_cons_cons, List.mem_cons, not_or]
      exact ⟨fun same => proper (Glyph.char.inj same), ih later⟩
  | @nested opener closer children tokens inner items _ _ _ _ _ _ ih =>
    obtain ⟨-, later⟩ := notMem_dropLast_pair unmarked
    cases tokens with
    | nil => simp
    | cons token tokens =>
      rw [List.map_cons, List.map_cons, List.dropLast_cons_cons, List.mem_cons, not_or]
      exact ⟨by simp [glyphOf], ih later⟩

theorem groupText_bareText (text : List Char) :
    (groupText (bareText text) >>= Node.ofTrees).mapError ParseError.kind =
      (groupText text >>= Node.ofTrees).mapError ParseError.kind := by
  have overclosed := overclosed_map opens_bare closes_bare (scan text)
  have openers := countP_map_of_same opens_bare (scan text)
  have closers := countP_map_of_same (isCloser_map opens_bare closes_bare) (scan text)
  rw [← scan_bareText] at overclosed openers closers
  rcases groupText_cases text with
    ⟨tokens, balanced, grouped⟩ | ⟨closed, grouped⟩ | ⟨excess, ⟨closed, positive, counts⟩, grouped⟩
  · have unmarked := bareMark_notMem_scan text
    obtain ⟨mapped, inner⟩ := glyphOf_bare balanced unmarked
    have other : Balanced (mapAll Scanned.bare tokens) (scan (bareText text)) := by
      rw [scan_bareText]
      exact Spells.map opens_bare closes_bare balanced
    rw [grouped, groupText_of_balanced other, treesOf_eq_pack, treesOf_eq_pack, mapped,
      ← mapAll_pack (clean_dropLast balanced unmarked)]
    exact ofTrees_bare fun children member => inner children (mem_pack.mp member)
  · rw [grouped, groupText_error ((group_closer_iff _).mpr (overclosed.mpr closed))]
    rfl
  · have remain : ¬ Overclosed opens closes (scan (bareText text)) := mt overclosed.mp closed
    rw [← openers, ← closers] at counts
    rw [grouped, groupText_error ((group_openers_iff _ _).mpr ⟨remain, positive, counts⟩)]
    rfl

end BracketMarkup
