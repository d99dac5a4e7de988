import BracketMarkup.Proofs.Scanning
import BracketMarkup.Template.Pass
import Mathlib.Data.List.Basic

namespace BracketMarkup.Template

section Descent

variable {α : Type} [DecidableEq α] {opener closer x : α} {depth next : Nat}
  {items rest tail : List α}

/-- Items go down by `depth`: they hold so many more closers than openers, and no beginning of them
    holds even more. -/
def Descends (opener closer : α) (depth : Nat) (items : List α) : Prop :=
  items.count closer = items.count opener + depth ∧
    ∀ front, front <+: items → front.count closer ≤ front.count opener + depth

theorem Descends.cons_iff (total : [x].count closer + next = [x].count opener + depth) :
    Descends opener closer depth (x :: items) ↔ Descends opener closer next items := by
  have counts : ∀ front : List α,
      (x :: front).count closer = [x].count closer + front.count closer ∧
        (x :: front).count opener = [x].count opener + front.count opener := by
    intro front
    rw [← List.singleton_append, List.count_append, List.count_append]
    exact ⟨rfl, rfl⟩
  constructor
  · rintro ⟨whole, prefixes⟩
    refine ⟨?_, fun front shorter => ?_⟩
    · rw [(counts items).1, (counts items).2] at whole
      omega
    · have bounded := prefixes (x :: front) (List.cons_prefix_cons.mpr ⟨rfl, shorter⟩)
      rw [(counts front).1, (counts front).2] at bounded
      omega
  · rintro ⟨whole, prefixes⟩
    refine ⟨?_, fun front shorter => ?_⟩
    · rw [(counts items).1, (counts items).2]
      omega
    · rcases List.prefix_cons_iff.mp shorter with rfl | ⟨tail, rfl, before⟩
      · simp
      · have bounded := prefixes tail before
        rw [(counts tail).1, (counts tail).2]
        omega

theorem descends_goesOn (total : [x].count closer + next = [x].count opener + depth)
    (deeper : x = closer → depth ≠ 0) :
    (x :: rest = items ++ closer :: tail ∧ Descends opener closer depth items) ↔
      ∃ before, items = x :: before ∧ rest = before ++ closer :: tail ∧
        Descends opener closer next before := by
  constructor
  · rintro ⟨same, descends⟩
    cases items with
    | nil =>
      obtain ⟨rfl, -⟩ := List.cons.inj same
      exact absurd descends.1.symm (by simpa using deeper rfl)
    | cons y before =>
      obtain ⟨rfl, rfl⟩ := List.cons.inj same
      exact ⟨before, rfl, rfl, (Descends.cons_iff total).mp descends⟩
  · rintro ⟨before, rfl, rfl, descends⟩
    exact ⟨rfl, (Descends.cons_iff total).mpr descends⟩

theorem descends_closer (apart : opener ≠ closer) :
    (closer :: rest = items ++ closer :: tail ∧ Descends opener closer 0 items) ↔
      items = [] ∧ rest = tail := by
  constructor
  · rintro ⟨same, -, prefixes⟩
    cases items with
    | nil => exact ⟨rfl, (List.cons.inj same).2⟩
    | cons y before =>
      obtain ⟨rfl, -⟩ := List.cons.inj same
      have bounded := prefixes [closer] (List.cons_prefix_cons.mpr ⟨rfl, List.nil_prefix⟩)
      simp [Ne.symm apart] at bounded
  · rintro ⟨rfl, rfl⟩
    exact ⟨rfl, by simp, by simp⟩

end Descent

/-- A text has an end of its own: what stands before a closer that closes more than was opened, while
    nothing before it does so, with `depth` openers open at the start. -/
def Ends (opener closer : Char) (depth : Nat) (inside : List Scanned) : Prop :=
  inside.count ⟨false, closer⟩ = inside.count ⟨false, opener⟩ + depth ∧
    ∀ front, front <+: inside →
      front.count ⟨false, closer⟩ ≤ front.count ⟨false, opener⟩ + depth

/-- What follows an opener falls into the text up to its matching closer and the rest. Delimiters that
    are escaped do not count. -/
def Encloses (opener closer : Char) (after inside rest : List Char) : Prop :=
  ∃ pairs tail, scan after = pairs ++ ⟨false, closer⟩ :: tail ∧ Ends opener closer 0 pairs ∧
    inside = restore pairs ∧ rest = restore tail

theorem Ends.cons_iff {opener closer : Char} {depth next : Nat} {p : Scanned} {inside : List Scanned}
    (total : [p].count ⟨false, closer⟩ + next = [p].count ⟨false, opener⟩ + depth) :
    Ends opener closer depth (p :: inside) ↔ Ends opener closer next inside :=
  Descends.cons_iff total

theorem closeScan_goesOn {opener closer : Char} {depth next : Nat} {p : Scanned}
    {rest tail : List Scanned} (h : ∀ before, closeScan opener closer next rest = some (before, tail) ↔
      rest = before ++ ⟨false, closer⟩ :: tail ∧ Ends opener closer next before)
    (total : [p].count ⟨false, closer⟩ + next = [p].count ⟨false, opener⟩ + depth)
    (deeper : p = ⟨false, closer⟩ → depth ≠ 0) (inside : List Scanned) :
    (closeScan opener closer next rest).map (fun found => (p :: found.1, found.2)) =
        some (inside, tail) ↔
      p :: rest = inside ++ ⟨false, closer⟩ :: tail ∧ Ends opener closer depth inside := by
  refine Iff.trans ?_ (descends_goesOn total deeper).symm
  constructor
  · intro found
    obtain ⟨⟨before, after⟩, located, same⟩ := Option.map_eq_some_iff.mp found
    cases same
    exact ⟨before, rfl, (h before).mp located⟩
  · rintro ⟨before, rfl, split⟩
    rw [(h before).mpr split]
    rfl

theorem plain_ne {opener closer : Char} (apart : opener ≠ closer) :
    (⟨false, opener⟩ : Scanned) ≠ ⟨false, closer⟩ :=
  fun same => apart (congrArg Scanned.char same)

theorem closeScan_eq_some_iff {opener closer : Char} (apart : opener ≠ closer) (depth : Nat)
    (pairs inside tail : List Scanned) :
    closeScan opener closer depth pairs = some (inside, tail) ↔
      pairs = inside ++ ⟨false, closer⟩ :: tail ∧ Ends opener closer depth inside := by
  have other := plain_ne apart
  induction pairs generalizing depth inside with
  | nil => simp [closeScan]
  | cons p rest ih =>
    unfold closeScan
    dsimp only
    by_cases isOpener : p = ⟨false, opener⟩
    · subst isOpener
      rw [if_pos rfl]
      refine closeScan_goesOn (ih (depth + 1)) ?_ (fun same => absurd same other) inside
      simp [other, Nat.add_comm]
    · rw [if_neg isOpener]
      by_cases isCloser : p = ⟨false, closer⟩
      · subst isCloser
        rw [if_pos rfl]
        cases depth with
        | zero =>
          refine Iff.trans ?_ (descends_closer other).symm
          simp only [Option.some.injEq, Prod.mk.injEq, List.nil_eq]
        | succ depth =>
          refine closeScan_goesOn (ih depth) ?_ (fun _ => Nat.succ_ne_zero depth) inside
          simp [Ne.symm other, Nat.add_comm]
      · rw [if_neg isCloser]
        refine closeScan_goesOn (ih depth) ?_ (fun same => absurd same isCloser) inside
        simp [isOpener, isCloser]

theorem enclosed?_eq_some_iff {opener closer : Char} (apart : opener ≠ closer)
    (s inside rest : List Char) :
    enclosed? opener closer s = some (inside, rest) ↔
      ∃ pairs tail, scan s = ⟨false, opener⟩ :: (pairs ++ ⟨false, closer⟩ :: tail) ∧
        Ends opener closer 0 pairs ∧ inside = restore pairs ∧ rest = restore tail := by
  rw [enclosed?]
  cases scanned : scan s with
  | nil => simp
  | cons p following =>
    constructor
    · intro found
      simp only at found
      split at found
      · rename_i same
        subst same
        obtain ⟨⟨pairs, tail⟩, located, same⟩ := Option.map_eq_some_iff.mp found
        cases same
        obtain ⟨rfl, ends⟩ := (closeScan_eq_some_iff apart 0 _ _ _).mp located
        exact ⟨pairs, tail, rfl, ends, rfl, rfl⟩
      · cases found
    · rintro ⟨pairs, tail, shape, ends, rfl, rfl⟩
      obtain ⟨rfl, rfl⟩ := List.cons.inj shape
      simp [(closeScan_eq_some_iff apart 0 _ _ _).mpr ⟨rfl, ends⟩]

theorem enclosed?_cons_iff {opener closer : Char} (apart : opener ≠ closer)
    (plain : opener ≠ escapeMark) (after inside rest : List Char) :
    enclosed? opener closer (opener :: after) = some (inside, rest) ↔
      Encloses opener closer after inside rest := by
  rw [enclosed?_eq_some_iff apart, scan_plain_cons plain]
  simp only [List.cons.injEq, true_and]
  rfl

theorem head_of_enclosed? {opener closer : Char} {s inside rest : List Char}
    (h : enclosed? opener closer s = some (inside, rest)) : ∃ after, s = opener :: after := by
  rw [enclosed?] at h
  split at h
  · cases h
  · rename_i p tail scanned
    split at h
    · rename_i same
      subst same
      have written := restore_scan s
      rw [scanned] at written
      exact ⟨restore tail, written.symm⟩
    · cases h

theorem Encloses.text_eq {opener closer : Char} {after inside rest : List Char}
    (h : Encloses opener closer after inside rest) : after = inside ++ closer :: rest := by
  obtain ⟨pairs, tail, scanned, -, rfl, rfl⟩ := h
  rw [← restore_scan after, scanned, restore_append]
  rfl

/-- The bodies of blocks: texts in which every block that is opened is closed. -/
inductive BlockText : List Char → Prop where
  | nil : BlockText []
  | char {c : Char} {rest : List Char} :
      (c = '%' → rest.head? ≠ some '(' ∧ rest.head? ≠ some ')') → BlockText rest →
      BlockText (c :: rest)
  | block {inner rest : List Char} : BlockText inner → BlockText rest →
      BlockText (blockOpener ++ inner ++ blockCloser ++ rest)

def NoDelimiter (c : Char) (rest : List Char) : Prop :=
  c = '%' → rest.head? ≠ some '(' ∧ rest.head? ≠ some ')'

theorem NoDelimiter.take {c : Char} {rest : List Char} (h : NoDelimiter c rest) (size : Nat) :
    NoDelimiter c (rest.take size) := by
  intro same
  cases rest with
  | nil => simp
  | cons d rest =>
    cases size with
    | zero => simp
    | succ size => exact h same

theorem bodyLength?_opener (depth : Nat) (rest : List Char) :
    bodyLength? depth ('%' :: '(' :: rest) = (bodyLength? (depth + 1) rest).map (· + 2) := by
  simp [bodyLength?]

theorem bodyLength?_closer (depth : Nat) (rest : List Char) :
    bodyLength? (depth + 1) ('%' :: ')' :: rest) = (bodyLength? depth rest).map (· + 2) := by
  simp [bodyLength?]

theorem bodyLength?_char {c : Char} {rest : List Char} (h : NoDelimiter c rest) (depth : Nat) :
    bodyLength? depth (c :: rest) = (bodyLength? depth rest).map (· + 1) := by
  cases rest with
  | nil => simp [bodyLength?]
  | cons d rest =>
    rw [bodyLength?]
    · rintro after rfl same
      cases same
      exact (h rfl).1 rfl
    · rintro after rfl same
      cases same
      exact (h rfl).2 rfl

theorem bodyLength?_append {body : List Char} (h : BlockText body) (depth : Nat) (rest : List Char) :
    bodyLength? depth (body ++ (blockCloser ++ rest)) =
      (bodyLength? depth (blockCloser ++ rest)).map (· + body.length) := by
  induction h generalizing depth rest with
  | nil => simp
  | @char c following plain _ ih =>
    have still : NoDelimiter c (following ++ (blockCloser ++ rest)) := by
      intro same
      cases following with
      | nil => simp [blockCloser]
      | cons d following => exact plain same
    rw [List.cons_append, bodyLength?_char still, ih, Option.map_map]
    rfl
  | @block inner following _ _ ihInner ih =>
    have shape : blockOpener ++ inner ++ blockCloser ++ following ++ (blockCloser ++ rest) =
        '%' :: '(' :: (inner ++ (blockCloser ++ (following ++ (blockCloser ++ rest)))) := by
      simp [blockOpener]
    have closer : bodyLength? (depth + 1) (blockCloser ++ (following ++ (blockCloser ++ rest))) =
        (bodyLength? depth (following ++ (blockCloser ++ rest))).map (· + 2) :=
      bodyLength?_closer depth _
    rw [shape, bodyLength?_opener, ihInner, closer, ih, Option.map_map, Option.map_map, Option.map_map]
    congr 1
    funext length
    simp [blockOpener, blockCloser]
    omega

def OpenText : Nat → List Char → Prop
  | 0, text => BlockText text
  | depth + 1, text => ∃ inner rest, text = inner ++ blockCloser ++ rest ∧ BlockText inner ∧
      OpenText depth rest

theorem OpenText.char {depth : Nat} {c : Char} {text : List Char} (h : OpenText depth text)
    (plain : NoDelimiter c text) : OpenText depth (c :: text) := by
  cases depth with
  | zero => exact BlockText.char plain h
  | succ depth =>
    obtain ⟨inner, rest, rfl, block, further⟩ := h
    refine ⟨c :: inner, rest, rfl, .char ?_ block, further⟩
    intro same
    cases inner with
    | nil => exact ⟨by simp, by simp⟩
    | cons d inner => exact plain same

theorem OpenText.block {depth : Nat} {inner text : List Char} (h : OpenText depth text)
    (block : BlockText inner) : OpenText depth (blockOpener ++ inner ++ blockCloser ++ text) := by
  cases depth with
  | zero => exact BlockText.block block h
  | succ depth =>
    obtain ⟨first, rest, rfl, later, further⟩ := h
    exact ⟨blockOpener ++ inner ++ blockCloser ++ first, rest, by simp, .block block later, further⟩

theorem openText_of_bodyLength? {depth length : Nat} {text : List Char}
    (h : bodyLength? depth text = some length) :
    OpenText depth (text.take length) ∧ blockCloser <+: text.drop length := by
  fun_induction bodyLength? depth text generalizing length with
  | case1 => cases h
  | case2 depth rest ih =>
    obtain ⟨size, found, rfl⟩ := Option.map_eq_some_iff.mp h
    obtain ⟨⟨inner, following, shape, block, further⟩, closes⟩ := ih found
    refine ⟨?_, closes⟩
    rw [List.take_succ_cons, List.take_succ_cons, shape]
    exact further.block block
  | case3 rest =>
    cases h
    exact ⟨.nil, List.cons_prefix_cons.mpr ⟨rfl, List.cons_prefix_cons.mpr ⟨rfl, List.nil_prefix⟩⟩⟩
  | case4 rest depth ih =>
    obtain ⟨size, found, rfl⟩ := Option.map_eq_some_iff.mp h
    obtain ⟨further, closes⟩ := ih found
    refine ⟨⟨[], rest.take size, rfl, .nil, further⟩, closes⟩
  | case5 depth c rest notOpener notCloser ih =>
    obtain ⟨size, found, rfl⟩ := Option.map_eq_some_iff.mp h
    obtain ⟨further, closes⟩ := ih found
    have plain : NoDelimiter c rest := by
      intro same
      cases rest with
      | nil => simp
      | cons d rest =>
        constructor
        · rintro opener
          cases opener
          exact notOpener rest same rfl
        · rintro closer
          cases closer
          exact notCloser rest same rfl
    exact ⟨further.char (plain.take size), closes⟩

theorem bodyLength?_zero_iff (text : List Char) (length : Nat) :
    bodyLength? 0 text = some length ↔
      ∃ body rest, text = body ++ (blockCloser ++ rest) ∧ BlockText body ∧ body.length = length := by
  constructor
  · intro found
    obtain ⟨block, rest, closes⟩ := openText_of_bodyLength? found
    refine ⟨text.take length, rest, ?_, block, ?_⟩
    · rw [closes, List.take_append_drop]
    · have filled : text.drop length ≠ [] := by
        rw [← closes]
        exact List.cons_ne_nil _ _
      have inside : length < text.length := by
        rw [Ne, List.drop_eq_nil_iff] at filled
        omega
      rw [List.length_take]
      omega
  · rintro ⟨body, rest, rfl, block, rfl⟩
    have closes : bodyLength? 0 (blockCloser ++ rest) = some 0 := by
      simp [blockCloser, bodyLength?]
    rw [bodyLength?_append block, closes]
    simp

end BracketMarkup.Template
