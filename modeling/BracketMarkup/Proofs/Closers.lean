import BracketMarkup.Proofs.Delimiters
import BracketMarkup.Proofs.EscapePairs

namespace BracketMarkup.Template

def Encased {α : Type} [DecidableEq α] (opener closer : α) (items : List α) : Prop :=
  items.count opener = items.count closer ∧
    ∀ shorter, shorter <+: items → shorter ≠ [] → shorter ≠ items →
      shorter.count closer < shorter.count opener

/-- The opener at `index` is closed at `position`, in the scan that starts at the opener. -/
def ClosesAt (opener closer : Char) (text : List Char) (index position : Nat) : Prop :=
  text[index]? = some opener ∧
    ∃ front behind, scanFrom index (text.drop index) =
        front ++ (position, ⟨false, closer⟩) :: behind ∧
      Encased ⟨false, opener⟩ ⟨false, closer⟩ (front.map (·.2) ++ [⟨false, closer⟩])

theorem encased_iff {α : Type} [DecidableEq α] {opener closer : α} (apart : opener ≠ closer)
    (front : List α) :
    Encased opener closer (front ++ [closer]) ↔
      ∃ inside, front = opener :: inside ∧ Descends opener closer 0 inside := by
  constructor
  · rintro ⟨total, prefixes⟩
    cases front with
    | nil => simp [Ne.symm apart] at total
    | cons x inside =>
      -- The first item alone is a beginning, so that it can only be the opener.
      have first := prefixes [x] (by simp) (by simp) (by simp)
      have same : x = opener := by
        by_contra different
        simp [different] at first
      subst same
      refine ⟨inside, rfl, ?_, fun shorter before => ?_⟩
      · simp [apart, Ne.symm apart] at total
        omega
      · have different : x :: shorter ≠ x :: inside ++ [closer] := by
          intro same
          have lengths := congrArg List.length same
          have bound := before.length_le
          simp at lengths
          omega
        have bounded := prefixes (x :: shorter)
          (List.cons_prefix_cons.mpr ⟨rfl, before.trans (List.prefix_append _ _)⟩) (by simp) different
        simp [apart] at bounded
        omega
  · rintro ⟨inside, rfl, total, prefixes⟩
    refine ⟨?_, fun shorter before filled different => ?_⟩
    · simp [apart, Ne.symm apart, total]
    · rcases List.prefix_concat_iff.mp before with whole | before
      · exact absurd whole different
      · rcases List.prefix_cons_iff.mp before with rfl | ⟨shorter, rfl, within⟩
        · exact absurd rfl filled
        · have bounded := prefixes shorter within
          simp [apart]
          omega

theorem findClosing?_eq_some_iff {opener closer : Char} (apart : opener ≠ closer) (text : List Char)
    (index position : Nat) :
    findClosing? text index [opener] [closer] = some position ↔
      ClosesAt opener closer text index position := by
  rw [findClosing?, Option.map_eq_some_iff]
  constructor
  · rintro ⟨⟨inside, rest⟩, enclosed, rfl⟩
    obtain ⟨pairs, tail, scanned, ends, rfl, rfl⟩ := (enclosed?_eq_some_iff apart _ _ _).mp enclosed
    have written : index + 1 + (restore pairs).length =
        index + (restore (⟨false, opener⟩ :: pairs)).length := by
      simp
      omega
    obtain ⟨front, behind, place, same⟩ := scanFrom_place_iff.mpr ⟨tail, scanned, written⟩
    refine ⟨?_, front, behind, place, ?_⟩
    · obtain ⟨after, whole⟩ := head_of_enclosed? enclosed
      have first := congrArg (·[0]?) whole
      simpa using first
    · rw [same, encased_iff (plain_ne apart)]
      exact ⟨pairs, rfl, ends⟩
  · rintro ⟨-, front, behind, place, encased⟩
    obtain ⟨tail, scanned, rfl⟩ := scanFrom_place_iff.mp ⟨front, behind, place, rfl⟩
    obtain ⟨inside, opened, ends⟩ := (encased_iff (plain_ne apart) _).mp encased
    rw [opened] at scanned ⊢
    refine ⟨(restore inside, restore tail), ?_, ?_⟩
    · exact (enclosed?_eq_some_iff apart _ _ _).mpr ⟨inside, tail, scanned, ends, rfl, rfl⟩
    · simp
      omega

/-- What the end of a block is looked for among: the delimiters of blocks and all other characters. -/
inductive BlockToken where
  | opener
  | closer
  | char (c : Char)
  deriving DecidableEq

def BlockToken.text : BlockToken → List Char
  | opener => blockOpener
  | closer => blockCloser
  | char c => [c]

/-- The tokens of a text, from left to right. A sign before a delimiter is a character. -/
def blockTokens : List Char → List BlockToken
  | [] => []
  | '%' :: '(' :: rest => .opener :: blockTokens rest
  | '%' :: ')' :: rest => .closer :: blockTokens rest
  | c :: rest => .char c :: blockTokens rest

theorem flatMap_text_blockTokens (text : List Char) :
    (blockTokens text).flatMap BlockToken.text = text := by
  fun_induction blockTokens text with
  | case1 => rfl
  | case2 rest ih => rw [List.flatMap_cons, ih]; rfl
  | case3 rest ih => rw [List.flatMap_cons, ih]; rfl
  | case4 c rest notOpener notCloser ih => rw [List.flatMap_cons, ih]; rfl

/-- After `length` characters stands the closer of a block in which `depth` more blocks are open at the
    start, and not the closer of one of those. -/
def BlockEnds (depth : Nat) (tokens : List BlockToken) (length : Nat) : Prop :=
  ∃ before behind, tokens = before ++ .closer :: behind ∧ Descends .opener .closer depth before ∧
    length = (before.flatMap BlockToken.text).length

theorem bodyLength?_goesOn {depth next : Nat} {rest : List Char} (token : BlockToken)
    (h : ∀ size, bodyLength? next rest = some size ↔ BlockEnds next (blockTokens rest) size)
    (total : [token].count .closer + next = [token].count .opener + depth)
    (deeper : token = .closer → depth ≠ 0) (length : Nat) :
    (bodyLength? next rest).map (· + token.text.length) = some length ↔
      BlockEnds depth (token :: blockTokens rest) length := by
  rw [Option.map_eq_some_iff]
  constructor
  · rintro ⟨size, found, rfl⟩
    obtain ⟨before, behind, split, descends, rfl⟩ := (h size).mp found
    obtain ⟨whole, further⟩ := (descends_goesOn total deeper).mpr ⟨before, rfl, split, descends⟩
    exact ⟨token :: before, behind, whole, further, by simp [Nat.add_comm]⟩
  · rintro ⟨before, behind, whole, descends, rfl⟩
    obtain ⟨inner, rfl, split, further⟩ := (descends_goesOn total deeper).mp ⟨whole, descends⟩
    exact ⟨_, (h _).mpr ⟨inner, behind, split, further, rfl⟩, by simp [Nat.add_comm]⟩

theorem bodyLength?_eq_some_iff (depth : Nat) (text : List Char) (length : Nat) :
    bodyLength? depth text = some length ↔ BlockEnds depth (blockTokens text) length := by
  fun_induction bodyLength? depth text generalizing length with
  | case1 depth => simp [blockTokens, BlockEnds]
  | case2 depth rest ih =>
    exact bodyLength?_goesOn .opener ih (by simp [Nat.add_comm]) (by simp) length
  | case3 rest =>
    have first : ∀ before behind, (.closer :: blockTokens rest = before ++ .closer :: behind ∧
        Descends BlockToken.opener .closer 0 before) ↔ before = [] ∧ blockTokens rest = behind :=
      fun before behind => descends_closer (by decide)
    constructor
    · intro found
      cases found
      obtain ⟨whole, descends⟩ := (first [] _).mpr ⟨rfl, rfl⟩
      exact ⟨[], _, whole, descends, rfl⟩
    · rintro ⟨before, behind, whole, descends, rfl⟩
      obtain ⟨rfl, -⟩ := (first before behind).mp ⟨whole, descends⟩
      rfl
  | case4 rest depth ih =>
    exact bodyLength?_goesOn .closer ih (by simp [Nat.add_comm]) (fun _ => Nat.succ_ne_zero depth) length
  | case5 depth c rest notOpener notCloser ih =>
    rw [blockTokens]
    · exact bodyLength?_goesOn (.char c) ih (by simp) (by simp) length
    · exact notOpener
    · exact notCloser

/-- At `position` stands the first closer after `start` that closes no block opened after `start`: the
    blocks before it are all closed, and every closer before it closes one of them. -/
def BlockEndsAt (text : List Char) (start position : Nat) : Prop :=
  ∃ before behind, blockTokens (text.drop start) = before ++ .closer :: behind ∧
    Descends .opener .closer 0 before ∧ position = start + (before.flatMap BlockToken.text).length

theorem findBlockEnd?_eq_some_iff (text : List Char) (start position : Nat) :
    findBlockEnd? text start = some position ↔ BlockEndsAt text start position := by
  rw [findBlockEnd?, Option.map_eq_some_iff]
  constructor
  · rintro ⟨length, found, rfl⟩
    obtain ⟨before, behind, split, descends, rfl⟩ := (bodyLength?_eq_some_iff 0 _ _).mp found
    exact ⟨before, behind, split, descends, rfl⟩
  · rintro ⟨before, behind, split, descends, rfl⟩
    exact ⟨_, (bodyLength?_eq_some_iff 0 _ _).mpr ⟨before, behind, split, descends, rfl⟩, rfl⟩

theorem eq_none_iff_not_exists {α : Type} {found : Option α} {place : α → Prop}
    (h : ∀ x, found = some x ↔ place x) : found = none ↔ ¬ ∃ x, place x := by
  rw [Option.eq_none_iff_forall_ne_some, not_exists]
  exact forall_congr' fun x => not_congr (h x)

/-- The closer of an opener and the end of a block are found just where they stand, and nothing is found
    just if there is no such place. -/
theorem closers_found {opener closer : Char} (apart : opener ≠ closer) (text : List Char)
    (start : Nat) :
    (∀ position, findClosing? text start [opener] [closer] = some position ↔
        ClosesAt opener closer text start position) ∧
      (findClosing? text start [opener] [closer] = none ↔
        ¬ ∃ position, ClosesAt opener closer text start position) ∧
      (blockTokens text).flatMap BlockToken.text = text ∧
      (∀ position, findBlockEnd? text start = some position ↔ BlockEndsAt text start position) ∧
      (findBlockEnd? text start = none ↔ ¬ ∃ position, BlockEndsAt text start position) := by
  have closes := findClosing?_eq_some_iff apart text start
  have ends := findBlockEnd?_eq_some_iff text start
  exact ⟨closes, eq_none_iff_not_exists closes, flatMap_text_blockTokens text, ends,
    eq_none_iff_not_exists ends⟩

theorem closers_found_nested :
    let text := ['-', '(', '%', '(', '\\', ')', '%', ')', '%', '%', ')', ')']
    '(' ≠ ')' ∧ findClosing? text 1 ['('] [')'] = some 10 ∧ ClosesAt '(' ')' text 1 10 ∧
      findBlockEnd? text 1 = some 9 ∧ BlockEndsAt text 1 9 := by
  intro text
  have apart : '(' ≠ ')' := by decide
  obtain ⟨closes, -, -, ends, -⟩ := closers_found apart text 1
  exact ⟨apart, rfl, (closes 10).mp rfl, rfl, (ends 9).mp rfl⟩

end BracketMarkup.Template
