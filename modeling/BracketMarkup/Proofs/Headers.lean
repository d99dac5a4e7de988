import BracketMarkup.Proofs.Arguments
import Mathlib.Data.List.TakeWhile

namespace BracketMarkup

theorem cutFirst?_none {pairs : List Scanned} (clean : bareMark ∉ pairs) {wanted : Char → Bool}
    (h : pairs.dropWhile (!isUnescaped wanted ·) = []) : cutFirst? wanted (restore pairs) = none := by
  rw [cutFirst?, scan_restore clean, h]

theorem cutFirst?_some {pairs : List Scanned} (clean : bareMark ∉ pairs) {wanted : Char → Bool}
    {p : Scanned} {after : List Scanned} (h : pairs.dropWhile (!isUnescaped wanted ·) = p :: after) :
    cutFirst? wanted (restore pairs) =
      some ⟨restore (pairs.takeWhile (!isUnescaped wanted ·)), p.char, restore after⟩ := by
  rw [cutFirst?, scan_restore clean, h]

theorem before_cutFirst?_scan (wanted : Char → Bool) (s : List Char) :
    ((cutFirst? wanted s).map (·.before)).getD s =
      restore ((scan s).takeWhile (!isUnescaped wanted ·)) := by
  rw [cutFirst?]
  cases found : (scan s).dropWhile (!isUnescaped wanted ·) with
  | nil =>
    have whole := List.takeWhile_append_dropWhile (p := (!isUnescaped wanted ·)) (l := scan s)
    rw [found, List.append_nil] at whole
    rw [whole, restore_scan]
    rfl
  | cons p after => rfl

theorem dropWhile_and {α : Type} (p q : α → Bool) (l : List α) :
    l.dropWhile (fun x => p x && q x) = (l.takeWhile p).dropWhile q ++ l.dropWhile p := by
  induction l with
  | nil => rfl
  | cons x rest ih =>
    cases hp : p x <;> cases hq : q x <;> simp [hp, hq, ih]

theorem dropWhile_clean {pairs : List Scanned} (clean : bareMark ∉ pairs) (p : Scanned → Bool) :
    bareMark ∉ pairs.dropWhile p :=
  fun member => clean ((List.dropWhile_suffix p).subset member)

theorem trimStart_restore (pairs : List Scanned) :
    trimStart (restore pairs) = restore (pairs.dropWhile (isUnescaped isBlank)) := by
  induction pairs with
  | nil => rfl
  | cons p pairs ih =>
    obtain ⟨escaped, c⟩ := p
    cases escaped with
    | true =>
      have mark : isBlank escapeMark = false := by decide
      simp [trimStart, isUnescaped, mark]
    | false =>
      by_cases blank : isBlank c = true
      · simpa [trimStart, isUnescaped, blank] using ih
      · simp [trimStart, isUnescaped, blank]

theorem scan_trimStart {text : List Char} (clean : bareMark ∉ scan text) :
    scan (trimStart text) = (scan text).dropWhile (isUnescaped isBlank) := by
  have trimmed := trimStart_restore (scan text)
  rw [restore_scan] at trimmed
  rw [trimmed, scan_restore (dropWhile_clean clean _)]

theorem trimEnd_concat_dark (front : List Char) {c : Char} (dark : isBlank c = false) :
    trimEnd (front ++ [c]) = front ++ [c] := by
  simp [trimEnd, dark]

theorem trimEnd_concat_blank (front : List Char) {c : Char} (blank : isBlank c = true) :
    trimEnd (front ++ [c]) = trimEnd front := by
  simp [trimEnd, blank]

theorem restore_escaped_concat (text : List Char) (c : Char) :
    text ++ restore [⟨true, c⟩] = (text ++ [escapeMark]) ++ [c] := by
  simp

theorem all_isBlank_restore (pairs : List Scanned) :
    (restore pairs).all isBlank = pairs.all (isUnescaped isBlank) := by
  have mark : isBlank escapeMark = false := by decide
  induction pairs with
  | nil => rfl
  | cons p pairs ih =>
    obtain ⟨escaped, c⟩ := p
    cases escaped <;> simp [isUnescaped, mark, ← ih]

namespace Call

open Bracketed

def Glyph.write : Glyph → List Char
  | .char p => p.write
  | .pair children => (flatten ['['] [']'] (nested children)).flatten

def writeAll (gs : List Glyph) : List Char := gs.flatMap Glyph.write

theorem writeAll_map_char (pairs : List Scanned) : writeAll (pairs.map .char) = restore pairs := by
  simp [writeAll, restore, List.flatMap_map, Glyph.write]

theorem writeAll_append (left right : List Glyph) :
    writeAll (left ++ right) = writeAll left ++ writeAll right := List.flatMap_append

/-- How many blocks besides the first are open after a glyph. -/
def blockDepth (depth : Nat) (g : Glyph) : Nat :=
  if g.is '\x7b' then depth + 1 else if g.is '\x7d' then depth - 1 else depth

/-- The glyphs inside a block whose brace stands before them, and those after it. A block that is not
    closed takes all. -/
def splitBlock (depth : Nat) : List Glyph → List Glyph × List Glyph
  | [] => ([], [])
  | g :: rest =>
    if g.is '\x7d' && depth == 0 then ([], rest)
    else (g :: (splitBlock (blockDepth depth g) rest).1, (splitBlock (blockDepth depth g) rest).2)

theorem closeBlock_closer (rest : List Scanned) :
    closeBlock 1 (⟨false, '\x7d'⟩ :: rest) = .inl ([], rest) := by
  simp [closeBlock]

theorem closeBlock_cons {p : Scanned} {depth : Nat}
    (h : ¬ ((Glyph.char p).is '\x7d' = true ∧ depth = 0)) (rest : List Scanned) :
    closeBlock (depth + 1) (p :: rest) =
      match closeBlock (blockDepth depth (.char p) + 1 : Nat) rest with
      | .inl (before, after) => .inl (p :: before, after)
      | .inr reached => .inr reached := by
  have goes : ¬ (p = ⟨false, '\x7d'⟩ ∧ (depth : Int) + 1 = 1) := by
    rintro ⟨rfl, bottom⟩
    exact h ⟨rfl, by omega⟩
  have next : ((blockDepth depth (.char p) + 1 : Nat) : Int) =
      if p = ⟨false, '\x7b'⟩ then (depth : Int) + 1 + 1
      else if p = ⟨false, '\x7d'⟩ then (depth : Int) + 1 - 1 else depth + 1 := by
    simp only [blockDepth, Glyph.is, beq_iff_eq]
    split
    · rfl
    · split
      · have positive : depth ≠ 0 := by
          rintro rfl
          simp_all
        omega
      · rfl
  let behind (reached : Int) : (List Scanned × List Scanned) ⊕ Int :=
    match closeBlock reached rest with
    | .inl (before, after) => .inl (p :: before, after)
    | .inr reached => .inr reached
  exact (if_neg goes).trans (congrArg behind next.symm)

theorem closeBlock_eq (depth : Nat) (pairs : List Scanned) (rest : List Glyph) :
    match closeBlock (depth + 1) pairs with
    | .inl (before, after) => pairs = before ++ ⟨false, '\x7d'⟩ :: after ∧
        splitBlock depth (pairs.map .char ++ rest) = (before.map .char, after.map .char ++ rest)
    | .inr reached => ∃ further : Nat, reached = further + 1 ∧
        splitBlock depth (pairs.map .char ++ rest) =
          (pairs.map .char ++ (splitBlock further rest).1, (splitBlock further rest).2) := by
  induction pairs generalizing depth with
  | nil => exact ⟨depth, rfl, rfl⟩
  | cons p pairs ih =>
    by_cases ends : (Glyph.char p).is '\x7d' = true ∧ depth = 0
    · obtain ⟨closes, rfl⟩ := ends
      have same : p = ⟨false, '\x7d'⟩ := by simpa [Glyph.is] using closes
      subst same
      rw [Int.natCast_zero, Int.zero_add, closeBlock_closer]
      exact ⟨rfl, by simp [splitBlock, Glyph.is]⟩
    · have inside := ih (blockDepth depth (.char p))
      have step : splitBlock depth (Glyph.char p :: (pairs.map .char ++ rest)) =
          (.char p :: (splitBlock (blockDepth depth (.char p)) (pairs.map .char ++ rest)).1,
            (splitBlock (blockDepth depth (.char p)) (pairs.map .char ++ rest)).2) := by
        rw [splitBlock, if_neg (by simpa using ends)]
      rw [closeBlock_cons ends, List.map_cons, List.cons_append, step]
      push_cast
      revert inside
      cases closeBlock (blockDepth depth (.char p) + 1) pairs with
      | inl parts =>
        rintro ⟨rfl, split⟩
        exact ⟨rfl, by rw [split]; rfl⟩
      | inr reached =>
        rintro ⟨further, rfl, split⟩
        exact ⟨further, rfl, by rw [split]; rfl⟩

theorem splitBlock_inside {g : Glyph} {depth : Nat} (h : ¬ (g.is '\x7d' = true ∧ depth = 0))
    (rest : List Glyph) : splitBlock depth (g :: rest) =
      (g :: (splitBlock (blockDepth depth g) rest).1, (splitBlock (blockDepth depth g) rest).2) := by
  rw [splitBlock, if_neg (by simpa using h)]

theorem readBlock_eq (depth : Nat) {items : List Tree} (sound : Sound items) :
    (readBlock (depth + 1) items).1 = writeAll (splitBlock depth (glyphs items)).1 ∧
      glyphs (readBlock (depth + 1) items).2 = (splitBlock depth (glyphs items)).2 ∧
      Sound (readBlock (depth + 1) items).2 := by
  induction items generalizing depth with
  | nil => exact ⟨rfl, rfl, sound⟩
  | cons item rest ih =>
    have later : Sound rest := fun run member => sound run (List.mem_cons_of_mem _ member)
    cases item with
    | nested children =>
      obtain ⟨text, following, stays⟩ := ih depth later
      have step : splitBlock depth (.pair children :: glyphs rest) =
          (.pair children :: (splitBlock depth (glyphs rest)).1, (splitBlock depth (glyphs rest)).2) :=
        splitBlock_inside (by simp [Glyph.is]) (glyphs rest)
      rw [glyphs_nested, step]
      refine ⟨?_, following, stays⟩
      change (flatten ['['] [']'] (nested children)).flatten ++ (readBlock (depth + 1) rest).1 = _
      rw [text]
      rfl
    | free run =>
      have clean := sound run (by simp)
      have cut := closeBlock_eq depth (scan run) (glyphs rest)
      rw [glyphs_free]
      cases found : closeBlock (depth + 1) (scan run) with
      | inl parts =>
        obtain ⟨before, after⟩ := parts
        rw [found] at cut
        obtain ⟨whole, split⟩ := cut
        rw [split, writeAll_map_char]
        cases after with
        | nil => simp only [readBlock, found]; exact ⟨trivial, rfl, later⟩
        | cons p after =>
          have tail : bareMark ∉ p :: after := fun member => clean (by rw [whole]; simp [member])
          have scanned := scan_restore tail
          simp only [readBlock, found]
          refine ⟨trivial, by rw [glyphs_free, scanned], ?_⟩
          intro other member
          rcases List.mem_cons.mp member with same | member
          · cases same; rwa [scanned]
          · exact later other member
      | inr reached =>
        rw [found] at cut
        obtain ⟨further, rfl, split⟩ := cut
        obtain ⟨text, following, stays⟩ := ih further later
        simp only [readBlock, found]
        rw [split]
        refine ⟨?_, following, stays⟩
        rw [text, writeAll_append, writeAll_map_char, restore_scan]

theorem takeBlock_brace (items : List Tree) :
    takeBlock (free ['\x7b'] :: items) = readBlock ((0 : Nat) + 1) items := by
  have opened : closeBlock 0 (scan ['\x7b']) = .inr 1 := by decide
  simp [takeBlock, readBlock, opened]

theorem takeBlock_eq {items : List Tree} (sound : Sound items) :
    (takeBlock (free ['\x7b'] :: items)).1 = writeAll (splitBlock 0 (glyphs items)).1 ∧
      glyphs (takeBlock (free ['\x7b'] :: items)).2 = (splitBlock 0 (glyphs items)).2 ∧
      Sound (takeBlock (free ['\x7b'] :: items)).2 := by
  rw [takeBlock_brace]
  exact readBlock_eq 0 sound

def nameOf (head : List Scanned) : List Scanned :=
  (head.reverse.takeWhile (!isUnescaped (· == '@') ·)).reverse

def backendOf (head : List Scanned) : Option (List Scanned) :=
  match head.reverse.dropWhile (!isUnescaped (· == '@') ·) with
  | [] => none
  | _ :: before => some before.reverse

theorem backendAndName_restore {head : List Scanned} (clean : bareMark ∉ head) :
    backendAndName (restore head) =
      ((backendOf head).map fun backend => backend.map (·.char), restore (nameOf head)) := by
  rw [backendAndName, cutLast?, scan_restore clean, backendOf, nameOf]
  cases found : head.reverse.dropWhile (!isUnescaped (· == '@') ·) with
  | nil =>
    have whole := List.takeWhile_append_dropWhile (p := (!isUnescaped (· == '@') ·)) (l := head.reverse)
    rw [found, List.append_nil] at whole
    rw [whole, List.reverse_reverse]
    rfl
  | cons p before =>
    have inside : bareMark ∉ before.reverse := by
      intro member
      have suffix := List.dropWhile_suffix (l := head.reverse) (!isUnescaped (· == '@') ·)
      rw [found] at suffix
      exact clean (List.mem_reverse.mp (suffix.subset (by simpa using .inr (List.mem_reverse.mp member))))
    simp [unescape_restore inside]

/-- What a head is made of: the characters before the first brace or blank. -/
def inHead (p : Scanned) : Bool := !isUnescaped (· == '\x7b') p && !isUnescaped isBlank p

/-- The attributes and the arguments that stand behind a head. -/
def behindHead : List Glyph → List (List Char × List Char) × List Glyph
  | .char p :: after =>
    if p = ⟨false, '\x7b'⟩ then
      (attributes (writeAll (splitBlock 0 after).1), (splitBlock 0 after).2)
    else ([], after)
  | gs => ([], gs)

def pendingOf (header head : List Scanned) (behind : List Glyph) : Except ParseError Pending :=
  if nameOf head = [] then .error (.nameless (restore header))
  else .ok ⟨⟨(backendOf head).map fun backend => backend.map (·.char), (nameOf head).map (·.char),
    (behindHead behind).1⟩, segments (behindHead behind).2⟩

theorem before_cutFirst? {pairs : List Scanned} (clean : bareMark ∉ pairs) (wanted : Char → Bool) :
    ((cutFirst? wanted (restore pairs)).map (·.before)).getD (restore pairs) =
      restore (pairs.takeWhile (!isUnescaped wanted ·)) := by
  rw [before_cutFirst?_scan, scan_restore clean]

theorem sound_free {pairs : List Scanned} (clean : bareMark ∉ pairs) {rest : List Tree}
    (sound : Sound rest) : Sound (free (restore pairs) :: rest) := by
  intro run member
  rcases List.mem_cons.mp member with same | member
  · cases same; rwa [scan_restore clean]
  · exact sound run member

theorem glyphs_afterBrace {after : List Scanned} (clean : bareMark ∉ after) {rest : List Tree}
    (sound : Sound rest) :
    glyphs ((if restore after = [] then [] else [free (restore after)]) ++ rest) =
        after.map .char ++ glyphs rest ∧
      Sound ((if restore after = [] then [] else [free (restore after)]) ++ rest) := by
  split
  · rename_i empty
    rw [restore_eq_nil.mp empty]
    exact ⟨rfl, sound⟩
  · rw [List.singleton_append, glyphs_free, scan_restore clean]
    exact ⟨rfl, sound_free clean sound⟩

theorem wanted_of_dropWhile {wanted : Char → Bool} {pairs after : List Scanned} {p : Scanned}
    (h : pairs.dropWhile (!isUnescaped wanted ·) = p :: after) : isUnescaped wanted p = true := by
  have first := List.head_dropWhile_not (!isUnescaped wanted ·) (l := pairs) (by simp [h])
  simpa [h] using first

theorem behindHead_apart {rest : List Tree} (apart : ∀ run more, rest ≠ free run :: more) :
    behindHead (glyphs rest) = ([], glyphs rest) := by
  cases rest with
  | nil => rfl
  | cons item more => cases item with
    | free run => exact absurd rfl (apart run more)
    | nested children => rfl

theorem behindHead_blank {p : Scanned} (blank : isUnescaped isBlank p = true) (gs : List Glyph) :
    behindHead (.char p :: gs) = ([], gs) := by
  have other : p ≠ ⟨false, '\x7b'⟩ := by
    rintro rfl
    exact absurd blank (by decide)
  rw [behindHead, if_neg other]

theorem ofHeader_restore {pairs : List Scanned} (clean : bareMark ∉ pairs) {rest : List Tree}
    (sound : Sound rest) (apart : ∀ run more, rest ≠ free run :: more) :
    ofHeader (restore pairs) rest =
      pendingOf pairs (pairs.takeWhile inHead) ((pairs.dropWhile inHead).map .char ++ glyphs rest) := by
  have inFront : bareMark ∉ pairs.takeWhile (!isUnescaped (· == '\x7b') ·) :=
    fun member => clean ((List.takeWhile_sublist _).subset member)
  have heads : pairs.takeWhile inHead =
      (pairs.takeWhile (!isUnescaped (· == '\x7b') ·)).takeWhile (!isUnescaped isBlank ·) := by
    rw [List.takeWhile_takeWhile]
    congr 1
    funext p
    simp [inHead, Bool.and_comm]
  have behind : pairs.dropWhile inHead =
      (pairs.takeWhile (!isUnescaped (· == '\x7b') ·)).dropWhile (!isUnescaped isBlank ·) ++
        pairs.dropWhile (!isUnescaped (· == '\x7b') ·) := dropWhile_and _ _ pairs
  have headClean : bareMark ∉ pairs.takeWhile inHead :=
    fun member => clean ((List.takeWhile_sublist _).subset member)
  have nameClean : bareMark ∉ nameOf (pairs.takeWhile inHead) := by
    intro member
    have found := (List.takeWhile_sublist _).subset (List.mem_reverse.mp member)
    exact headClean (List.mem_reverse.mp found)
  have tailClean : ∀ {front : List Scanned} {p after}, front <:+ pairs → front = p :: after →
      bareMark ∉ after := by
    rintro front p after suffix rfl member
    exact clean (suffix.subset (List.mem_cons_of_mem _ member))
  simp only [ofHeader, before_cutFirst? clean, before_cutFirst? inFront, ← heads,
    backendAndName_restore headClean, pendingOf, restore_eq_nil, unescape_restore nameClean]
  split
  · rfl
  · rw [behind]
    -- The cut at a blank is looked for in front of the first brace only.
    cases blank : (pairs.takeWhile (!isUnescaped (· == '\x7b') ·)).dropWhile
        (!isUnescaped isBlank ·) with
    | nil =>
      rw [cutFirst?_none inFront blank]
      cases brace : pairs.dropWhile (!isUnescaped (· == '\x7b') ·) with
      | nil =>
        rw [cutFirst?_none clean brace]
        simp only [List.append_nil, List.map_nil, List.nil_append, behindHead_apart apart,
          splitArguments_eq sound]
      | cons p after =>
        rw [cutFirst?_some clean brace]
        have opener := eq_of_isUnescaped (wanted_of_dropWhile brace)
        subst opener
        obtain ⟨written, sound'⟩ :=
          glyphs_afterBrace (tailClean (List.dropWhile_suffix _) brace) sound
        obtain ⟨text, following, stays⟩ := takeBlock_eq sound'
        simp only [List.cons_append, splitArguments_eq stays, text, following, written]
        simp [behindHead]
    | cons p after =>
      rw [cutFirst?_some inFront blank]
      have afterClean : bareMark ∉ after := by
        intro member
        have inBlank := (List.dropWhile_suffix _).subset (blank ▸ List.mem_cons_of_mem p member)
        exact inFront inBlank
      rw [List.cons_append, List.map_cons, List.cons_append,
        behindHead_blank (wanted_of_dropWhile blank), List.map_append, List.append_assoc]
      cases brace : pairs.dropWhile (!isUnescaped (· == '\x7b') ·) with
      | nil =>
        rw [cutFirst?_none clean brace]
        simp only [List.nil_append, splitArguments_eq (sound_free afterClean sound), glyphs_free,
          scan_restore afterClean, List.map_nil]
      | cons q later =>
        rw [cutFirst?_some clean brace]
        have opener := eq_of_isUnescaped (wanted_of_dropWhile brace)
        subst opener
        obtain ⟨written, sound'⟩ :=
          glyphs_afterBrace (tailClean (List.dropWhile_suffix _) brace) sound
        have braced : Sound (free ['\x7b'] ::
            ((if restore later = [] then [] else [free (restore later)]) ++ rest)) :=
          sound_free (show bareMark ∉ [⟨false, '\x7b'⟩] by decide) sound'
        simp only [List.cons_append, splitArguments_eq (sound_free afterClean braced), glyphs_free,
          scan_restore afterClean, written]
        rfl

def Glyph.blank : Glyph → Bool
  | .char p => isUnescaped isBlank p
  | .pair _ => false

def Glyph.inHead : Glyph → Bool
  | .char p => Call.inHead p
  | .pair _ => false

def leading : List Glyph → List Scanned
  | .char p :: rest => p :: leading rest
  | _ => []

def beyond : List Glyph → List Glyph
  | .char _ :: rest => beyond rest
  | gs => gs

theorem leading_append_beyond (gs : List Glyph) : (leading gs).map .char ++ beyond gs = gs := by
  fun_induction leading gs with
  | case1 p rest ih => simpa [beyond] using ih
  | case2 gs other => cases gs with
    | nil => rfl
    | cons g gs => cases g with
      | char p => exact absurd rfl (other p gs)
      | pair children => rfl

theorem pack_beyond_apart (gs : List Glyph) (run : List Char) (more : List Tree) :
    pack (beyond gs) ≠ free run :: more := by
  fun_induction beyond gs with
  | case1 p rest ih => exact ih
  | case2 gs other => cases gs with
    | nil => simp
    | cons g gs => cases g with
      | char p => exact absurd rfl (other p gs)
      | pair children => simp [consGlyph]

theorem consRun_apart {run : List Char} {items : List Tree} (apart : ∀ f more, items ≠ free f :: more) :
    consRun run items = free run :: items := by
  cases items with
  | nil => rfl
  | cons item rest => cases item with
    | free f => exact absurd rfl (apart f rest)
    | nested children => rfl

theorem pack_leading {gs : List Glyph} (h : leading gs ≠ []) :
    pack gs = free (restore (leading gs)) :: pack (beyond gs) := by
  have whole := congrArg pack (leading_append_beyond gs)
  rw [pack_append, foldr_consGlyph_run h, consRun_apart (pack_beyond_apart gs)] at whole
  exact whole.symm

theorem all_isBlankItem_pack (gs : List Glyph) : (pack gs).all isBlankItem = gs.all Glyph.blank := by
  have marks : ∀ p : Scanned, p.write.all isBlank = isUnescaped isBlank p := by
    intro p
    simpa using all_isBlank_restore [p]
  induction gs with
  | nil => rfl
  | cons g gs ih =>
    rw [pack_cons, List.all_cons, ← ih]
    cases g with
    | pair children => rfl
    | char p =>
      rw [consGlyph_char, Glyph.blank, ← marks]
      cases pack gs with
      | nil => rfl
      | cons item rest => cases item with
        | free run => simp [consRun, isBlankItem, Bool.and_assoc]
        | nested children => rfl

theorem leading_dropWhile_blank (gs : List Glyph) :
    leading (gs.dropWhile Glyph.blank) = (leading gs).dropWhile (isUnescaped isBlank) ∧
      beyond (gs.dropWhile Glyph.blank) = beyond gs := by
  induction gs with
  | nil => exact ⟨rfl, rfl⟩
  | cons g gs ih =>
    cases g with
    | pair children => exact ⟨rfl, rfl⟩
    | char p =>
      by_cases blank : isUnescaped isBlank p = true
      · simpa [Glyph.blank, leading, beyond, blank] using ih
      · simp [Glyph.blank, leading, beyond, blank]

theorem dropWhile_inHead (gs : List Glyph) : gs.dropWhile Glyph.inHead =
    ((leading gs).dropWhile inHead).map .char ++ beyond gs := by
  induction gs with
  | nil => rfl
  | cons g gs ih =>
    cases g with
    | pair children => rfl
    | char p =>
      by_cases inside : inHead p = true
      · simpa [Glyph.inHead, leading, beyond, inside] using ih
      · simp [Glyph.inHead, leading, beyond, inside, leading_append_beyond]

theorem clean_leading {gs : List Glyph} (clean : Clean gs) :
    bareMark ∉ leading gs ∧ Clean (beyond gs) := by
  rw [← leading_append_beyond gs] at clean
  exact mem_clean_map.mp clean

theorem sound_consRun {run : List Char} (clean : bareMark ∉ scan run) {items : List Tree}
    (sound : Sound items) : Sound (consRun run items) := by
  intro other member
  cases items with
  | nil =>
    cases List.mem_singleton.mp member
    exact clean
  | cons item rest =>
    cases item with
    | free following =>
      rcases List.mem_cons.mp member with same | member
      · cases same
        rw [scan_append_of_complete clean, List.mem_append, not_or]
        exact ⟨clean, sound following (by simp)⟩
      · exact sound other (List.mem_cons_of_mem _ member)
    | nested children =>
      rcases List.mem_cons.mp member with same | member
      · cases same
        exact clean
      · exact sound other member

theorem sound_pack {gs : List Glyph} (clean : Clean gs) : Sound (pack gs) := by
  induction gs with
  | nil => intro run member; simp at member
  | cons g gs ih =>
    simp only [Clean, List.mem_cons, not_or] at clean
    have later := ih clean.2
    cases g with
    | char p =>
      have alone : scan p.write = [p] := by
        simpa using scan_write_append (fun same => clean.1 (congrArg Glyph.char same.symm)) []
      rw [pack_cons, consGlyph_char]
      refine sound_consRun ?_ later
      rw [alone, List.mem_singleton]
      exact fun same => clean.1 (congrArg Glyph.char same)
    | pair children =>
      intro run member
      rcases List.mem_cons.mp member with same | member
      · cases same
      · exact later run member

theorem read_restore {pairs : List Scanned} (clean : bareMark ∉ pairs) {rest : List Tree}
    (sound : Sound rest) (apart : ∀ run more, rest ≠ free run :: more)
    (filled : ¬ (free (restore pairs) :: rest).all isBlankItem = true) :
    read (free (restore pairs) :: rest) =
      pendingOf (pairs.dropWhile (isUnescaped isBlank))
        ((pairs.dropWhile (isUnescaped isBlank)).takeWhile inHead)
        (((pairs.dropWhile (isUnescaped isBlank)).dropWhile inHead).map .char ++ glyphs rest) := by
  unfold read
  rw [if_neg filled]
  simp only [trimStart_restore]
  rw [ofHeader_restore (dropWhile_clean clean _) sound apart]

theorem read_pack {gs : List Glyph} (clean : Clean gs) :
    read (pack gs) =
      if gs.all Glyph.blank then .error .emptyCall
      else if leading gs = [] then .error .nestedHead
      else pendingOf (leading (gs.dropWhile Glyph.blank))
        ((leading (gs.dropWhile Glyph.blank)).takeWhile inHead)
        ((gs.dropWhile Glyph.blank).dropWhile Glyph.inHead) := by
  by_cases allBlank : gs.all Glyph.blank = true
  · unfold read
    rw [all_isBlankItem_pack, if_pos allBlank, if_pos allBlank]
  rw [if_neg allBlank]
  rw [← all_isBlankItem_pack] at allBlank
  by_cases empty : leading gs = []
  · have whole := leading_append_beyond gs
    rw [empty, List.map_nil, List.nil_append] at whole
    have first := pack_beyond_apart gs
    rw [whole] at first
    unfold read
    rw [if_neg allBlank, if_pos empty]
    cases items : pack gs with
    | nil => rfl
    | cons item rest => cases item with
      | free run => exact absurd items (first run rest)
      | nested children => rfl
  · obtain ⟨inFront, after⟩ := clean_leading clean
    obtain ⟨front, rest⟩ := leading_dropWhile_blank gs
    rw [pack_leading empty] at allBlank
    rw [if_neg empty, pack_leading empty,
      read_restore inFront (sound_pack after) (pack_beyond_apart gs) allBlank, glyphs_pack after,
      dropWhile_inHead, front, rest]

end Call

end BracketMarkup
