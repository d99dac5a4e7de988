import BracketMarkup.Proofs.AttributeBlock
import BracketMarkup.Proofs.Calls

namespace BracketMarkup

open Bracketed Call Template

namespace Call

/-- What is left of a run, in front of the items after it. Of a run that is used up nothing is left. -/
def leftover (after : List Char) (later : List Tree) : List Tree :=
  if after = [] then later else free after :: later

/-- The same item with other ones between its brackets, if it is a pair. -/
def refill (inner : List Tree → List Tree) : Tree → Tree
  | free run => free run
  | nested children => nested (inner children)

theorem rejoined_append (front later : List Tree) :
    rejoined (front ++ later) = rejoined front ++ rejoined later := by
  induction front with
  | nil => rfl
  | cons item front ih => rw [List.cons_append, rejoined_cons, rejoined_cons, ih, List.append_assoc]

theorem rejoined_leftover (after : List Char) (later : List Tree) :
    rejoined (leftover after later) = after ++ rejoined later := by
  rw [leftover]
  split
  · rename_i empty
    rw [empty, List.nil_append]
  · exact rejoined_free after later

theorem readBlock_nested (depth : Int) (children rest : List Tree) :
    readBlock depth (nested children :: rest) =
      ((flatten ['['] [']'] (nested children)).flatten ++ (readBlock depth rest).1,
        (readBlock depth rest).2) := rfl

theorem readBlock_closed {depth : Int} {run : List Char} {before after : List Scanned}
    (closed : closeBlock depth (scan run) = .inl (before, after)) (rest : List Tree) :
    readBlock depth (free run :: rest) = (restore before, leftover (restore after) rest) := by
  cases after with
  | nil => simp only [readBlock, closed, leftover, restore_nil, if_true]
  | cons p after =>
    have filled : restore (p :: after) ≠ [] := mt restore_eq_nil.mp (List.cons_ne_nil p after)
    simp only [readBlock, closed, leftover, if_neg filled]

theorem readBlock_open {depth reached : Int} {run : List Char}
    (passed : closeBlock depth (scan run) = .inr reached) (rest : List Tree) :
    readBlock depth (free run :: rest) =
      (run ++ (readBlock reached rest).1, (readBlock reached rest).2) := by
  simp only [readBlock, passed]

theorem readBlock_cases (depth : Nat) (items : List Tree) :
    (∃ front run later before after, items = front ++ free run :: later ∧
      scan run = before ++ ⟨false, '\x7d'⟩ :: after ∧
      splitBlock depth (glyphs items) =
        (glyphs front ++ before.map .char, after.map .char ++ glyphs later) ∧
      readBlock (depth + 1) items = (rejoined front ++ restore before, leftover (restore after) later)) ∨
    splitBlock depth (glyphs items) = (glyphs items, []) ∧
      readBlock (depth + 1) items = (rejoined items, []) := by
  induction items generalizing depth with
  | nil => exact .inr ⟨rfl, rfl⟩
  | cons item rest ih =>
    cases item with
    | nested children =>
      have inside : ¬ ((Glyph.pair children).is '\x7d' = true ∧ depth = 0) := by simp [Glyph.is]
      have step := splitBlock_inside inside (glyphs rest)
      rw [blockDepth_pair] at step
      rcases ih depth with ⟨front, run, later, before, after, rfl, scanned, split, read⟩ | ⟨split, read⟩
      · refine .inl ⟨nested children :: front, run, later, before, after, rfl, scanned, ?_, ?_⟩
        · rw [glyphs_nested, step, split]
          rfl
        · rw [readBlock_nested, read, rejoined_cons, List.append_assoc]
      · refine .inr ⟨?_, ?_⟩
        · rw [glyphs_nested, step, split]
        · rw [readBlock_nested, read, rejoined_cons]
    | free run =>
      have cut := closeBlock_eq depth (scan run) (glyphs rest)
      cases found : closeBlock (depth + 1) (scan run) with
      | inl parts =>
        obtain ⟨before, after⟩ := parts
        rw [found] at cut
        exact .inl ⟨[], run, rest, before, after, rfl, cut.1, cut.2, readBlock_closed found rest⟩
      | inr reached =>
        rw [found] at cut
        -- The block goes on behind this run, at the depth that the run leads to.
        obtain ⟨further, rfl, step⟩ := cut
        rcases ih further with ⟨front, run', later, before, after, rfl, scanned, split, read⟩ | ⟨split, read⟩
        · refine .inl ⟨free run :: front, run', later, before, after, rfl, scanned, ?_, ?_⟩
          · rw [glyphs_free, step, split, glyphs_free, List.append_assoc]
          · rw [readBlock_open found, read, rejoined_free, List.append_assoc]
        · refine .inr ⟨?_, ?_⟩
          · rw [glyphs_free, step, split]
          · rw [readBlock_open found, read, rejoined_free]

theorem readBlock_refill (inner : List Tree → List Tree) (depth : Int) (items : List Tree) :
    (readBlock depth (items.map (refill inner))).2 =
      (readBlock depth items).2.map (refill inner) := by
  induction items generalizing depth with
  | nil => rfl
  | cons item rest ih =>
    cases item with
    | nested children => exact ih depth
    | free run =>
      have mapped : (free run :: rest).map (refill inner) = free run :: rest.map (refill inner) := rfl
      rw [mapped]
      cases found : closeBlock depth (scan run) with
      | inl parts =>
        rw [readBlock_closed found, readBlock_closed found, leftover, leftover]
        split <;> rfl
      | inr reached =>
        rw [readBlock_open found, readBlock_open found]
        exact ih reached

theorem ends_of_splitBlock {depth : Nat} {inside after : List Glyph}
    (split : splitBlock depth (inside ++ .char ⟨false, '\x7d'⟩ :: after) = (inside, after)) :
    Ends '\x7b' '\x7d' depth (inside.filterMap Glyph.char?) := by
  rcases splitBlock_cases depth (inside ++ .char ⟨false, '\x7d'⟩ :: after) with
    ⟨front, rest, -, closed, same⟩ | ⟨-, same⟩
  · cases same.symm.trans split
    exact closed
  · have sizes := congrArg (·.1.length) (same.symm.trans split)
    simp at sizes

theorem not_ends_of_splitBlock {depth : Nat} {gs : List Glyph} (split : splitBlock depth gs = (gs, []))
    (inside after : List Scanned) (found : gs.filterMap Glyph.char? = inside ++ ⟨false, '\x7d'⟩ :: after) :
    ¬ Ends '\x7b' '\x7d' depth inside := by
  rcases splitBlock_cases depth gs with ⟨front, rest, whole, -, same⟩ | ⟨open', -⟩
  · have sizes := congrArg (·.1.length) (same.symm.trans split)
    rw [whole] at sizes
    simp at sizes
  · exact open' inside after found

/-- A block ends at the first brace of its runs that closes more than was opened in it, and takes all
    if there is none. Nothing is lost but the braces around it, and what stands in nested pairs does not
    move its end. -/
theorem takeBlock_to_match (items : List Tree) :
    ∃ text rest, takeBlock (free ['\x7b'] :: items) = (text, rest) ∧
      ((∃ front run later before after, items = front ++ free run :: later ∧
          scan run = scan before ++ ⟨false, '\x7d'⟩ :: scan after ∧
          Ends '\x7b' '\x7d' 0 (looseChars front ++ scan before) ∧
          text = rejoined front ++ before ∧ rest = leftover after later ∧
          rejoined (free ['\x7b'] :: items) = '\x7b' :: (text ++ '\x7d' :: rejoined rest)) ∨
        (∀ inside after, looseChars items = inside ++ ⟨false, '\x7d'⟩ :: after →
          ¬ Ends '\x7b' '\x7d' 0 inside) ∧
        rest = [] ∧ rejoined (free ['\x7b'] :: items) = '\x7b' :: text) ∧
      ∀ inner, (takeBlock (free ['\x7b'] :: items.map (refill inner))).2 = rest.map (refill inner) := by
  rcases taken : takeBlock (free ['\x7b'] :: items) with ⟨text, rest⟩
  have refilled : ∀ inner, (takeBlock (free ['\x7b'] :: items.map (refill inner))).2 =
      rest.map (refill inner) := by
    intro inner
    have same : (takeBlock (free ['\x7b'] :: items.map (refill inner))).2 =
        (takeBlock (free ['\x7b'] :: items)).2.map (refill inner) :=
      readBlock_refill inner 0 (free ['\x7b'] :: items)
    rw [same, taken]
  refine ⟨text, rest, rfl, ?_, refilled⟩
  rw [takeBlock_brace] at taken
  rw [rejoined_free, List.singleton_append]
  rcases readBlock_cases 0 items with
    ⟨front, run, later, before, after, rfl, scanned, split, read⟩ | ⟨split, read⟩
  · -- The pairs on both sides of the brace are the scans of what is written there.
    have marks := bareMark_notMem_scan run
    rw [scanned] at marks
    obtain ⟨behind, inFront⟩ := notMem_dropLast_append marks
    have scanBefore := scan_restore (inFront (List.cons_ne_nil _ _))
    have scanAfter := scan_restore_of_dropLast (notMem_dropLast_tail behind)
    have written : run = restore before ++ '\x7d' :: restore after := by
      rw [← restore_scan run, scanned, restore_append]
      rfl
    have closed : Ends '\x7b' '\x7d' 0 (looseChars front ++ before) := by
      have whole : glyphs (front ++ free run :: later) = (glyphs front ++ before.map .char) ++
          .char ⟨false, '\x7d'⟩ :: (after.map .char ++ glyphs later) := by
        simp [glyphs, glyphsOf, scanned]
      rw [whole] at split
      have ends := ends_of_splitBlock split
      rwa [List.filterMap_append, filterMap_glyphs, filterMap_char?] at ends
    cases taken.symm.trans read
    refine .inl ⟨front, run, later, restore before, restore after, rfl, ?_, ?_, rfl, rfl, ?_⟩
    · rw [scanBefore, scanAfter, scanned]
    · rwa [scanBefore]
    · rw [rejoined_append, rejoined_free, rejoined_leftover, written]
      simp
  · have open' := not_ends_of_splitBlock split
    rw [filterMap_glyphs] at open'
    cases taken.symm.trans read
    exact .inr ⟨open', rfl, rfl⟩

end Call

end BracketMarkup
