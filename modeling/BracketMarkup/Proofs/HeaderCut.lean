import BracketMarkup.Proofs.AttributeBlock
import BracketMarkup.Proofs.Calls

namespace BracketMarkup

open Bracketed Call Template

/-- What stands between the brackets of some pair among items, at any depth. -/
inductive PairIn (children : List Tree) : List Tree → Prop where
  | here {rest : List Tree} : PairIn children (nested children :: rest)
  | deeper {inner rest : List Tree} : PairIn children inner → PairIn children (nested inner :: rest)
  | later {item : Tree} {rest : List Tree} : PairIn children rest → PairIn children (item :: rest)

/-- The backend and the name in a head: what stands before and after its last at-sign. -/
inductive NamedBy : List Scanned → Option (List Scanned) → List Scanned → Prop where
  | alone {name : List Scanned} : ⟨false, '@'⟩ ∉ name → NamedBy name none name
  | backed {backend name : List Scanned} : ⟨false, '@'⟩ ∉ name →
      NamedBy (backend ++ ⟨false, '@'⟩ :: name) (some backend) name

/-- The attributes and the arguments of a call that goes on behind its head with some characters and
    then with `rest`. Only a brace right behind the head opens an attribute block. -/
inductive GoesOn (rest : List Tree) :
    List Scanned → List (List Char × List Char) → List (List Tree) → Prop where
  | atPair : GoesOn rest [] [] (splitArguments rest)
  | blank {c : Char} {after : List Char} : isBlank c = true →
      GoesOn rest (⟨false, c⟩ :: scan after) [] (splitArguments (free after :: rest))
  | block {after text : List Char} {following : List Tree} :
      BlockOf (free after :: rest) text following →
      GoesOn rest (⟨false, '\x7b'⟩ :: scan after) (attributes text) (splitArguments following)

theorem namedBy_nameOf (head : List Scanned) : NamedBy head (backendOf head) (nameOf head) := by
  have whole := List.takeWhile_append_dropWhile (p := (!isUnescaped (· == '@') ·)) (l := head.reverse)
  have free : ⟨false, '@'⟩ ∉ nameOf head := by
    intro member
    have passed := List.mem_takeWhile_imp (List.mem_reverse.mp member)
    exact absurd passed (by decide)
  cases found : head.reverse.dropWhile (!isUnescaped (· == '@') ·) with
  | nil =>
    rw [found, List.append_nil] at whole
    have same : nameOf head = head := by rw [nameOf, whole, List.reverse_reverse]
    rw [backendOf, found, same]
    rw [same] at free
    exact .alone free
  | cons p before =>
    have sign := eq_of_isUnescaped (wanted_of_dropWhile found)
    subst sign
    rw [found] at whole
    have shape : head = before.reverse ++ ⟨false, '@'⟩ :: nameOf head := by
      have turned := congrArg List.reverse whole
      rw [List.reverse_append, List.reverse_cons, List.append_assoc, List.reverse_reverse] at turned
      exact turned.symm
    have backed : NamedBy (before.reverse ++ ⟨false, '@'⟩ :: nameOf head) (some before.reverse)
        (nameOf head) := .backed free
    rw [← shape] at backed
    rw [backendOf, found]
    exact backed

theorem pairIn_consRun {run : List Char} {items children : List Tree}
    (h : PairIn children (consRun run items)) : PairIn children items := by
  cases items with
  | nil =>
    cases h with
    | later inside => exact inside
  | cons item rest =>
    cases item with
    | free following =>
      cases h with
      | later inside => exact .later inside
    | nested inner =>
      cases h with
      | later inside => exact inside

theorem exists_pack_of_pairIn {tokens : List Token} {pairs : List Scanned} (h : Balanced tokens pairs)
    (unmarked : bareMark ∉ pairs.dropLast) {children : List Tree}
    (inside : PairIn children (treesOf tokens)) : ∃ gs, Clean gs ∧ children = pack gs := by
  induction h generalizing children with
  | nil => cases inside
  | @free p tokens items _ _ _ ih =>
    have joined : treesOf (free p :: tokens) = consRun p.write (treesOf tokens) :=
      mapAll_consFree p (gather tokens)
    rw [joined] at inside
    exact ih (notMem_dropLast_tail unmarked) (pairIn_consRun inside)
  | @nested opener closer inner tokens front items _ _ _ spelled _ ihInner ih =>
    obtain ⟨within, later⟩ := notMem_dropLast_pair unmarked
    have joined : treesOf (nested inner :: tokens) = nested (treesOf inner) :: treesOf tokens := rfl
    rw [joined] at inside
    cases inside with
    | here => exact ⟨_, Balanced.clean spelled within, treesOf_eq_pack inner⟩
    | deeper found => exact ihInner (fun member => within ((List.dropLast_sublist _).subset member)) found
    | later found => exact ih later found

theorem exists_pack_of_grouped {text : List Char} {trees children : List Tree}
    (grouped : groupText text = .ok trees) (inside : PairIn children trees) :
    ∃ gs, Clean gs ∧ children = pack gs := by
  rcases groupText_cases text with ⟨tokens, balanced, found⟩ | ⟨-, found⟩ | ⟨excess, -, found⟩
  · cases grouped.symm.trans found
    exact exists_pack_of_pairIn balanced (bareMark_notMem_scan text) inside
  · cases grouped.symm.trans found
  · cases grouped.symm.trans found

theorem apart_of_pack {gs : List Glyph} {run : List Char} {rest : List Tree}
    (h : pack gs = free run :: rest) (next : List Char) (more : List Tree) : rest ≠ free next :: more := by
  have filled : leading gs ≠ [] := by
    intro empty
    have whole := leading_append_beyond gs
    rw [empty, List.map_nil, List.nil_append] at whole
    have first := pack_beyond_apart gs run rest
    rw [whole] at first
    exact first h
  rw [pack_leading filled] at h
  obtain ⟨-, rfl⟩ := List.cons.inj h
  exact pack_beyond_apart gs next more

theorem goesOn_behindHead {pairs : List Scanned} (clean : bareMark ∉ pairs) {rest : List Tree}
    (sound : Sound rest) (apart : ∀ run more, rest ≠ free run :: more) :
    GoesOn rest (pairs.dropWhile inHead)
      (behindHead ((pairs.dropWhile inHead).map .char ++ glyphs rest)).1
      (segments (behindHead ((pairs.dropWhile inHead).map .char ++ glyphs rest)).2) := by
  cases behind : pairs.dropWhile inHead with
  | nil =>
    rw [List.map_nil, List.nil_append, behindHead_apart apart, ← splitArguments_eq sound]
    exact .atPair
  | cons p after =>
    have suffix := List.dropWhile_suffix (l := pairs) inHead
    rw [behind] at suffix
    have cleanAfter : bareMark ∉ after :=
      fun member => clean (suffix.subset (List.mem_cons_of_mem p member))
    have soundAfter := sound_free cleanAfter sound
    have written : glyphs (free (restore after) :: rest) = after.map .char ++ glyphs rest := by
      rw [glyphs_free, scan_restore cleanAfter]
    -- What follows the character at the cut is read as one more run in front of the rest.
    rw [List.map_cons, List.cons_append, ← written]
    by_cases brace : p = ⟨false, '\x7b'⟩
    · subst brace
      obtain ⟨text, following, block, inside, beyond⟩ := blockOf_splitBlock soundAfter
      have opened := GoesOn.block block
      rw [scan_restore cleanAfter, ← inside, ← beyond] at opened
      exact opened
    · have ends : inHead p = false := by
        have first := List.head_dropWhile_not inHead (l := pairs) (by simp [behind])
        simpa [behind] using first
      obtain ⟨escaped, c⟩ := p
      have blank : escaped = false ∧ isBlank c = true := by
        cases escaped with
        | true => simp [inHead, isUnescaped] at ends
        | false =>
          have other : c ≠ '\x7b' := fun same => brace (congrArg (Scanned.mk false) same)
          simpa [inHead, isUnescaped, other] using ends
      obtain ⟨rfl, blank⟩ := blank
      rw [behindHead_blank (by simp [isUnescaped, blank]), ← splitArguments_eq soundAfter]
      have gap : GoesOn rest (⟨false, c⟩ :: scan (restore after)) []
          (splitArguments (free (restore after) :: rest)) := .blank blank
      rw [scan_restore cleanAfter] at gap
      exact gap

/-- The front of a call is cut once, at its first brace or blank. What stands before the cut names the
    call, and the character at the cut decides whether attributes or arguments follow. -/
theorem header_cut {text : List Char} {trees : List Tree} {run : List Char} {rest : List Tree}
    (grouped : groupText text = .ok trees) (inside : PairIn (free run :: rest) trees)
    (filled : (free run :: rest).all isBlankItem = false) :
    ∃ backend name, NamedBy ((scan (trimStart run)).takeWhile inHead) backend name ∧
      ((∃ fault, read (free run :: rest) = .error fault) ↔ name = []) ∧
      (name = [] → read (free run :: rest) = .error (.nameless (trimStart run))) ∧
      ∀ pending, read (free run :: rest) = .ok pending →
        pending.head.backend = backend.map (·.map (·.char)) ∧
        pending.head.name = name.map (·.char) ∧
        GoesOn rest ((scan (trimStart run)).dropWhile inHead) pending.head.attributes pending.segments := by
  obtain ⟨gs, cleanGlyphs, packed⟩ := exists_pack_of_grouped grouped inside
  have apart := apart_of_pack packed.symm
  have sound : Sound (free run :: rest) := packed ▸ sound_pack cleanGlyphs
  have soundRest : Sound rest := fun other member => sound other (List.mem_cons_of_mem _ member)
  have inRun : bareMark ∉ scan run := sound run (by simp)
  have clean : bareMark ∉ scan (trimStart run) := by
    rw [scan_trimStart inRun]
    exact dropWhile_clean inRun _
  have result := read_restore inRun soundRest apart (by simp [filled])
  rw [restore_scan, ← scan_trimStart inRun] at result
  refine ⟨_, _, namedBy_nameOf _, ?_⟩
  by_cases nameless : nameOf ((scan (trimStart run)).takeWhile inHead) = []
  · have failed : read (free run :: rest) = .error (.nameless (trimStart run)) := by
      rw [result, pendingOf, if_pos nameless, restore_scan]
    refine ⟨⟨fun _ => nameless, fun _ => ⟨_, failed⟩⟩, fun _ => failed, ?_⟩
    intro pending found
    cases failed.symm.trans found
  · rw [result, pendingOf, if_neg nameless]
    refine ⟨⟨?_, fun wrong => absurd wrong nameless⟩, fun wrong => absurd wrong nameless, ?_⟩
    · intro wrong
      obtain ⟨fault, failed⟩ := wrong
      cases failed
    · intro pending found
      cases found
      exact ⟨rfl, rfl, goesOn_behindHead clean soundRest apart⟩

theorem header_cut_block :
    groupText ['[', 'b', '@', 'p', '\x7b', 'x', '=', '[', 'y', ']', '\x7d', ' ', 'a', ';', 'c', ']'] =
        .ok [nested [free ['b', '@', 'p', '\x7b', 'x', '='], nested [free ['y']],
          free ['\x7d', ' ', 'a', ';', 'c']]] ∧
      ∃ pending, read [free ['b', '@', 'p', '\x7b', 'x', '='], nested [free ['y']],
          free ['\x7d', ' ', 'a', ';', 'c']] = .ok pending ∧
        GoesOn [nested [free ['y']], free ['\x7d', ' ', 'a', ';', 'c']]
          [⟨false, '\x7b'⟩, ⟨false, 'x'⟩, ⟨false, '='⟩] pending.head.attributes pending.segments := by
  have grouped : groupText
      ['[', 'b', '@', 'p', '\x7b', 'x', '=', '[', 'y', ']', '\x7d', ' ', 'a', ';', 'c', ']'] =
      .ok [nested [free ['b', '@', 'p', '\x7b', 'x', '='], nested [free ['y']],
        free ['\x7d', ' ', 'a', ';', 'c']]] := rfl
  obtain ⟨backend, name, -, -, -, reads⟩ := header_cut grouped .here rfl
  have found : read [free ['b', '@', 'p', '\x7b', 'x', '='], nested [free ['y']],
      free ['\x7d', ' ', 'a', ';', 'c']] =
      .ok ⟨⟨some ['b'], ['p'], [(['x'], ['[', 'y', ']'])]⟩, [[free ['a']], [free ['c']]]⟩ := rfl
  exact ⟨grouped, _, found, (reads _ found).2.2⟩

theorem header_cut_nested_brace :
    groupText ['[', 'p', '\x7b', 'a', '=', '[', '\x7b', ']', '\x7d', 'b', ']'] =
        .ok [nested [free ['p', '\x7b', 'a', '='], nested [free ['\x7b']], free ['\x7d', 'b']]] ∧
      rejoined [free ['a', '='], nested [free ['\x7b']], free ['\x7d', 'b']] =
        ['a', '=', '[', '\x7b', ']', '\x7d', 'b'] ∧
      (∀ inside rest, ¬ Encloses '\x7b' '\x7d' ['a', '=', '[', '\x7b', ']', '\x7d', 'b'] inside rest) ∧
      attributes ['a', '=', '[', '\x7b', ']', '\x7d', 'b'] =
        [(['a'], ['[', '\x7b', ']', '\x7d', 'b'])] ∧
      read [free ['p', '\x7b', 'a', '='], nested [free ['\x7b']], free ['\x7d', 'b']] =
        .ok ⟨⟨none, ['p'], [(['a'], ['[', '\x7b', ']'])]⟩, [[free ['b']]]⟩ := by
  refine ⟨rfl, rfl, ?_, by decide, rfl⟩
  intro inside rest enclosed
  have found := (enclosed?_cons_iff (by decide) (by decide) _ _ _).mpr enclosed
  have missing : enclosed? '\x7b' '\x7d' ('\x7b' :: ['a', '=', '[', '\x7b', ']', '\x7d', 'b']) = none := by
    decide
  rw [missing] at found
  cases found

end BracketMarkup
