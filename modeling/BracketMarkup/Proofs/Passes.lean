import BracketMarkup.Proofs.Delimiters

namespace BracketMarkup.Template

variable {σ κ : Type}

/-- The first place where a trigger stands in a text, by what is before and after it. -/
def FirstAt (trigger text before after : List Char) : Prop :=
  text = before ++ (trigger ++ after) ∧
    ∀ front behind, text = front ++ (trigger ++ behind) → before.length ≤ front.length

/-- A pass goes over the suffixes of a text from left to right. It copies what stands before the first
    trigger. Of a well-formed call it gives the value and goes on behind the call; of another one it
    copies the trigger, reports what is missing and goes on behind the trigger. -/
structure FollowsSuffix (trigger : List Char) (WellFormed : List Char → κ → List Char → Prop)
    (Missing : List Char → Diagnostic → Prop) (evaluate : κ → Expansion σ (List Char))
    (pass : List Char → Expansion σ (List Char)) : Prop where
  plain : ∀ text, ¬ trigger <:+: text → pass text = pure text
  wellFormed : ∀ text before after call rest, FirstAt trigger text before after →
    WellFormed after call rest → pass text = do
      let value ← evaluate call
      let tail ← pass rest
      return before ++ value ++ tail
  malformed : ∀ text before after, FirstAt trigger text before after →
    (∀ call rest, ¬ WellFormed after call rest) → ∃ problem, Missing after problem ∧ pass text = do
      report problem
      let tail ← pass after
      return before ++ trigger ++ tail

/-- How a construct reads the text behind its trigger, said without how it is found. -/
structure Construct.Reads (construct : Construct κ) (WellFormed : List Char → κ → List Char → Prop)
    (Missing : List Char → Diagnostic → Prop) : Prop where
  call : ∀ after call rest, WellFormed after call rest ↔
    ∃ size, construct.read after = .ok (call, size) ∧ after.drop size = rest
  problem : ∀ after problem, construct.read after = .error problem → Missing after problem

theorem FirstAt.cons {trigger before after text : List Char} {c d : Char}
    (h : FirstAt trigger (d :: text) (c :: before) after) :
    c = d ∧ FirstAt trigger text before after ∧ trigger.isPrefixOf? (d :: text) = none := by
  obtain ⟨whole, earliest⟩ := h
  obtain ⟨rfl, rfl⟩ := List.cons.inj whole
  refine ⟨rfl, ⟨rfl, fun front behind same => ?_⟩, ?_⟩
  · have bounded := earliest (d :: front) behind (congrArg (d :: ·) same)
    exact Nat.le_of_succ_le_succ bounded
  · cases starts : trigger.isPrefixOf? (d :: (before ++ (trigger ++ after))) with
    | none => rfl
    | some behind =>
      have same := List.append_eq_of_isPrefixOf?_eq_some starts
      have bounded := earliest [] behind same.symm
      simp at bounded

theorem isPrefixOf?_append (trigger after : List Char) :
    trigger.isPrefixOf? (trigger ++ after) = some after := by
  simp

section Replace

variable (construct : Construct κ) (evaluate : κ → Expansion σ (List Char))

theorem pieces_skip (skip : Nat) (text : List Char) :
    construct.pieces skip text = construct.pieces 0 (text.drop skip) := by
  induction text generalizing skip with
  | nil => cases skip <;> rfl
  | cons c rest ih =>
    cases skip with
    | zero => rfl
    | succ skip => exact ih skip

theorem replace_nil : construct.replace evaluate [] = pure [] := by
  simp [Construct.replace, Construct.pieces]

theorem replace_of_pieces {text rest : List Char} {piece : Piece κ}
    (h : construct.pieces 0 text = piece :: construct.pieces 0 rest) :
    construct.replace evaluate text = do
      let value ← construct.value evaluate piece
      let tail ← construct.replace evaluate rest
      return value ++ tail := by
  simp only [Construct.replace, h, List.mapM_cons, bind_assoc, pure_bind, List.flatten_cons]

theorem replace_literal {c : Char} {rest : List Char}
    (h : construct.trigger.text.isPrefixOf? (c :: rest) = none) :
    construct.replace evaluate (c :: rest) = do
      let tail ← construct.replace evaluate rest
      return c :: tail := by
  have first : construct.pieces 0 (c :: rest) = .literal c :: construct.pieces 0 rest := by
    rw [Construct.pieces, h]
  rw [replace_of_pieces construct evaluate first, Construct.value, pure_bind]
  rfl

theorem replace_malformed {after : List Char} {problem : Diagnostic}
    (h : construct.read after = .error problem) :
    construct.replace evaluate (construct.trigger.text ++ after) = do
      report problem
      let tail ← construct.replace evaluate after
      return construct.trigger.text ++ tail := by
  have first : construct.pieces 0 (construct.trigger.text ++ after) =
      .malformed problem :: construct.pieces 0 after := by
    have found := isPrefixOf?_append construct.trigger.text after
    rw [Trigger.text, List.cons_append] at found ⊢
    simp only [Construct.pieces, Trigger.text, found, h]
    rw [pieces_skip, List.drop_left]
  rw [replace_of_pieces construct evaluate first, Construct.value]
  simp only [bind_assoc, pure_bind]

theorem replace_call {after : List Char} {call : κ} {size : Nat}
    (h : construct.read after = .ok (call, size)) :
    construct.replace evaluate (construct.trigger.text ++ after) = do
      let value ← evaluate call
      let tail ← construct.replace evaluate (after.drop size)
      return value ++ tail := by
  have first : construct.pieces 0 (construct.trigger.text ++ after) =
      .call call :: construct.pieces 0 (after.drop size) := by
    have found := isPrefixOf?_append construct.trigger.text after
    rw [Trigger.text, List.cons_append] at found ⊢
    simp only [Construct.pieces, Trigger.text, found, h]
    rw [pieces_skip, ← List.drop_drop, List.drop_left]
  rw [replace_of_pieces construct evaluate first, Construct.value]

theorem replace_plain {text : List Char} (h : ¬ construct.trigger.text <:+: text) :
    construct.replace evaluate text = pure text := by
  induction text with
  | nil => exact replace_nil construct evaluate
  | cons c rest ih =>
    have absent : construct.trigger.text.isPrefixOf? (c :: rest) = none := by
      cases starts : construct.trigger.text.isPrefixOf? (c :: rest) with
      | none => rfl
      | some behind =>
        have same := List.append_eq_of_isPrefixOf?_eq_some starts
        exact absurd (List.IsPrefix.isInfix ⟨behind, same⟩) h
    have later : ¬ construct.trigger.text <:+: rest :=
      fun inside => h (inside.trans (List.suffix_cons c rest).isInfix)
    rw [replace_literal construct evaluate absent, ih later, pure_bind]

theorem replace_before {text before after : List Char}
    (h : FirstAt construct.trigger.text text before after) :
    construct.replace evaluate text = do
      let tail ← construct.replace evaluate (construct.trigger.text ++ after)
      return before ++ tail := by
  induction before generalizing text with
  | nil =>
    rw [h.1]
    simp
  | cons c before ih =>
    cases text with
    | nil => exact absurd h.1 (by simp)
    | cons d text =>
      obtain ⟨rfl, later, absent⟩ := h.cons
      rw [replace_literal construct evaluate absent, ih later]
      simp only [bind_assoc, pure_bind, List.cons_append]

theorem followsSuffix_replace {WellFormed : List Char → κ → List Char → Prop}
    {Missing : List Char → Diagnostic → Prop} (reads : construct.Reads WellFormed Missing) :
    FollowsSuffix construct.trigger.text WellFormed Missing evaluate (construct.replace evaluate) where
  plain text absent := replace_plain construct evaluate absent
  wellFormed text before after call rest first formed := by
    obtain ⟨size, read, rfl⟩ := (reads.call after call rest).mp formed
    rw [replace_before construct evaluate first, replace_call construct evaluate read]
    simp only [bind_assoc, pure_bind, List.append_assoc]
  malformed text before after first ill := by
    cases read : construct.read after with
    | ok found =>
      obtain ⟨call, size⟩ := found
      exact absurd ((reads.call after call _).mpr ⟨size, read, rfl⟩) (ill call _)
    | error problem =>
      refine ⟨problem, reads.problem after problem read, ?_⟩
      rw [replace_before construct evaluate first, replace_malformed construct evaluate read]
      simp only [bind_assoc, pure_bind, List.append_assoc]

end Replace

/-- A name up to the brace that matches that of the trigger. -/
def VariableAt (after name rest : List Char) : Prop :=
  ∃ inside, Encloses '\x7b' '\x7d' after inside rest ∧ name = unescape inside

def CallAt (after arguments rest : List Char) : Prop :=
  ∃ opened, after = '(' :: opened ∧ Encloses '(' ')' opened arguments rest

/-- Arguments, perhaps blanks, and a body up to the closer that belongs to it. -/
def BlockAt (after : List Char) (block : Block) (rest : List Char) : Prop :=
  ∃ gap, (∀ c ∈ gap, isBlank c = true) ∧ BlockText block.body ∧ CallAt after block.arguments
    (gap ++ (blockOpener ++ (block.body ++ (blockCloser ++ rest))))

/-- What is missing where a block is not well-formed. -/
inductive BlockMissing (trigger after : List Char) : Diagnostic → Prop where
  | arguments : (∀ arguments rest, ¬ CallAt after arguments rest) →
      BlockMissing trigger after (.openBlock trigger)
  | body {arguments rest : List Char} : CallAt after arguments rest →
      ¬ blockOpener <+: trimStart rest → BlockMissing trigger after (.noBody trigger arguments)
  | closer {arguments rest opened : List Char} : CallAt after arguments rest →
      trimStart rest = blockOpener ++ opened →
      (∀ body behind, opened = body ++ (blockCloser ++ behind) → ¬ BlockText body) →
      BlockMissing trigger after (.openBody trigger arguments)

theorem enclosed?_call_iff (after arguments rest : List Char) :
    enclosed? '(' ')' after = some (arguments, rest) ↔ CallAt after arguments rest := by
  constructor
  · intro found
    obtain ⟨opened, rfl⟩ := head_of_enclosed? found
    exact ⟨opened, rfl, (enclosed?_cons_iff (by decide) (by decide) _ _ _).mp found⟩
  · rintro ⟨opened, rfl, enclosed⟩
    exact (enclosed?_cons_iff (by decide) (by decide) _ _ _).mpr enclosed

theorem CallAt.text_eq {after arguments rest : List Char} (h : CallAt after arguments rest) :
    after = '(' :: (arguments ++ ')' :: rest) := by
  obtain ⟨opened, rfl, enclosed⟩ := h
  rw [enclosed.text_eq]

theorem variableReference_reads : variableReference.Reads VariableAt (fun _ problem => problem = .openVariable) where
  call after name rest := by
    have plain : '\x7b' ≠ escapeMark := by decide
    have apart : '\x7b' ≠ '\x7d' := by decide
    unfold variableReference
    constructor
    · rintro ⟨inside, enclosed, rfl⟩
      refine ⟨inside.length + 1, ?_, ?_⟩
      · dsimp only
        rw [(enclosed?_cons_iff apart plain _ _ _).mpr enclosed]
      · rw [enclosed.text_eq, ← List.drop_drop, List.drop_left]
        rfl
    · rintro ⟨size, read, rfl⟩
      dsimp only at read
      split at read
      · rename_i inside behind found
        cases read
        have enclosed := (enclosed?_cons_iff apart plain _ _ _).mp found
        refine ⟨inside, ?_, rfl⟩
        have dropped : after.drop (inside.length + 1) = behind := by
          rw [enclosed.text_eq, ← List.drop_drop, List.drop_left]
          rfl
        rwa [dropped]
      · cases read
  problem after problem read := by
    unfold variableReference at read
    dsimp only at read
    split at read
    · cases read
    · cases read
      rfl

theorem CallAt.drop {after arguments rest : List Char} (h : CallAt after arguments rest) :
    after.drop (arguments.length + 2) = rest := by
  rw [h.text_eq, List.drop_succ_cons, ← List.drop_drop, List.drop_left]
  rfl

theorem inlineCall_reads (trigger : Trigger) : (inlineCall trigger).Reads CallAt
    (fun _ problem => problem = .openCall trigger.text) where
  call after arguments rest := by
    unfold inlineCall
    constructor
    · intro formed
      refine ⟨arguments.length + 2, ?_, formed.drop⟩
      dsimp only
      rw [(enclosed?_call_iff _ _ _).mpr formed]
    · rintro ⟨size, read, rfl⟩
      dsimp only at read
      split at read
      · rename_i inside behind found
        cases read
        have formed := (enclosed?_call_iff _ _ _).mp found
        rwa [formed.drop]
      · cases read
  problem after problem read := by
    unfold inlineCall at read
    dsimp only at read
    split at read
    · cases read
    · cases read
      rfl

theorem trimStart_gap {gap : List Char} (h : ∀ c ∈ gap, isBlank c = true) (opened : List Char) :
    trimStart (gap ++ (blockOpener ++ opened)) = blockOpener ++ opened := by
  have dark : ¬ isBlank '%' = true := by decide
  rw [trimStart, List.dropWhile_append_of_pos h]
  exact List.dropWhile_cons_of_neg dark

theorem exists_gap (rest : List Char) :
    ∃ gap, (∀ c ∈ gap, isBlank c = true) ∧ rest = gap ++ trimStart rest :=
  ⟨rest.takeWhile isBlank, fun _ member => List.all_eq_true.mp List.all_takeWhile _ member,
    List.takeWhile_append_dropWhile.symm⟩

theorem drop_block (front body rest : List Char) :
    (front ++ (body ++ (blockCloser ++ rest))).drop
      ((front ++ (body ++ (blockCloser ++ rest))).length - (body ++ (blockCloser ++ rest)).length +
        body.length + blockCloser.length) = rest := by
  rw [List.length_append, Nat.add_sub_cancel, ← List.drop_drop, ← List.drop_drop, List.drop_left,
    List.drop_left, List.drop_left]

def blockFront (arguments gap : List Char) : List Char :=
  '(' :: (arguments ++ ')' :: (gap ++ blockOpener))

theorem CallAt.front_eq {after arguments gap opened : List Char}
    (h : CallAt after arguments (gap ++ (blockOpener ++ opened))) :
    after = blockFront arguments gap ++ opened := by
  rw [h.text_eq, blockFront]
  simp

theorem read_opened {trigger : Trigger} {after arguments gap opened : List Char}
    (formed : CallAt after arguments (gap ++ (blockOpener ++ opened)))
    (blank : ∀ c ∈ gap, isBlank c = true) :
    (blockCall trigger).read after = (bodyLength? 0 opened).elim
      (.error (.openBody trigger.text arguments)) fun length => .ok (⟨arguments, opened.take length⟩,
        after.length - opened.length + length + blockCloser.length) := by
  unfold blockCall
  dsimp only
  rw [(enclosed?_call_iff _ _ _).mpr formed]
  dsimp only
  rw [trimStart_gap blank, isPrefixOf?_append]
  dsimp only
  cases bodyLength? 0 opened <;> rfl

theorem read_noArguments {trigger : Trigger} {after : List Char}
    (h : ∀ arguments rest, ¬ CallAt after arguments rest) :
    (blockCall trigger).read after = .error (.openBlock trigger.text) := by
  have absent : enclosed? '(' ')' after = none := by
    cases found : enclosed? '(' ')' after with
    | none => rfl
    | some parts => exact absurd ((enclosed?_call_iff _ _ _).mp found) (h parts.1 parts.2)
  unfold blockCall
  dsimp only
  rw [absent]

theorem read_noBody {trigger : Trigger} {after arguments rest : List Char}
    (formed : CallAt after arguments rest) (h : ¬ blockOpener <+: trimStart rest) :
    (blockCall trigger).read after = .error (.noBody trigger.text arguments) := by
  have absent : blockOpener.isPrefixOf? (trimStart rest) = none := by
    cases found : blockOpener.isPrefixOf? (trimStart rest) with
    | none => rfl
    | some opened => exact absurd ⟨opened, List.append_eq_of_isPrefixOf?_eq_some found⟩ h
  unfold blockCall
  dsimp only
  rw [(enclosed?_call_iff _ _ _).mpr formed]
  dsimp only
  rw [absent]

theorem block_cases (after : List Char) :
    (∀ arguments rest, ¬ CallAt after arguments rest) ∨
      (∃ arguments rest, CallAt after arguments rest ∧ ¬ blockOpener <+: trimStart rest) ∨
      ∃ arguments gap opened, CallAt after arguments (gap ++ (blockOpener ++ opened)) ∧
        ∀ c ∈ gap, isBlank c = true := by
  by_cases called : ∃ arguments rest, CallAt after arguments rest
  · obtain ⟨arguments, rest, formed⟩ := called
    by_cases opens : blockOpener <+: trimStart rest
    · obtain ⟨gap, blank, whole⟩ := exists_gap rest
      obtain ⟨opened, same⟩ := opens
      rw [whole, ← same] at formed
      exact .inr (.inr ⟨arguments, gap, opened, formed, blank⟩)
    · exact .inr (.inl ⟨arguments, rest, formed, opens⟩)
  · exact .inl fun arguments rest formed => called ⟨arguments, rest, formed⟩

theorem blockCall_reads (trigger : Trigger) :
    (blockCall trigger).Reads BlockAt (BlockMissing trigger.text) where
  call after block rest := by
    constructor
    · rintro ⟨gap, blank, text, formed⟩
      have length : bodyLength? 0 (block.body ++ (blockCloser ++ rest)) = some block.body.length :=
        (bodyLength?_zero_iff _ _).mpr ⟨_, _, rfl, text, rfl⟩
      have read := @read_opened trigger _ _ _ _ formed blank
      rw [length, Option.elim_some, List.take_left] at read
      refine ⟨_, read, ?_⟩
      rw [formed.front_eq, drop_block]
    · rintro ⟨size, read, rfl⟩
      rcases block_cases after with absent | ⟨arguments, rest, formed, absent⟩ |
        ⟨arguments, gap, opened, formed, blank⟩
      · rw [read_noArguments absent] at read
        cases read
      · rw [read_noBody formed absent] at read
        cases read
      · cases found : bodyLength? 0 opened with
        | none => rw [read_opened formed blank, found] at read; cases read
        | some length =>
          rw [read_opened formed blank, found] at read
          cases read
          obtain ⟨body, behind, rfl, text, rfl⟩ := (bodyLength?_zero_iff _ _).mp found
          have taken : (body ++ (blockCloser ++ behind)).take body.length = body := List.take_left
          refine ⟨gap, blank, ?_, ?_⟩
          · rw [taken]
            exact text
          · have dropped := drop_block (blockFront arguments gap) body behind
            rw [← formed.front_eq] at dropped
            rw [taken, dropped]
            exact formed
  problem after problem read := by
    rcases block_cases after with absent | ⟨arguments, rest, formed, absent⟩ |
      ⟨arguments, gap, opened, formed, blank⟩
    · rw [read_noArguments absent] at read
      cases read
      exact .arguments absent
    · rw [read_noBody formed absent] at read
      cases read
      exact .body formed absent
    · cases found : bodyLength? 0 opened with
      | some length => rw [read_opened formed blank, found] at read; cases read
      | none =>
        rw [read_opened formed blank, found] at read
        cases read
        refine .closer formed (trimStart_gap blank opened) ?_
        rintro body behind rfl text
        have length := (bodyLength?_zero_iff _ _).mpr ⟨body, behind, rfl, text, rfl⟩
        rw [found] at length
        cases length

def firstIndex? (trigger : List Char) : List Char → Option Nat
  | [] => none
  | c :: rest =>
    if (trigger.isPrefixOf? (c :: rest)).isSome then some 0 else (firstIndex? trigger rest).map (· + 1)

theorem firstAt_of_firstIndex? {trigger text : List Char} {index : Nat}
    (h : firstIndex? trigger text = some index) :
    ∃ before after, FirstAt trigger text before after ∧ before.length = index := by
  induction text generalizing index with
  | nil => cases h
  | cons c rest ih =>
    rw [firstIndex?] at h
    cases starts : trigger.isPrefixOf? (c :: rest) with
    | some after =>
      rw [starts] at h
      cases h
      exact ⟨[], after, ⟨(List.append_eq_of_isPrefixOf?_eq_some starts).symm,
        fun _ _ _ => Nat.zero_le _⟩, rfl⟩
    | none =>
      rw [starts, if_neg (by simp)] at h
      obtain ⟨index, found, rfl⟩ := Option.map_eq_some_iff.mp h
      obtain ⟨before, after, ⟨rfl, earliest⟩, rfl⟩ := ih found
      refine ⟨c :: before, after, ⟨rfl, ?_⟩, rfl⟩
      intro front behind same
      cases front with
      | nil =>
        rw [same, List.nil_append, isPrefixOf?_append] at starts
        cases starts
      | cons d front => exact Nat.succ_le_succ (earliest front behind (List.cons.inj same).2)

theorem not_infix_of_firstIndex? {trigger text : List Char} (filled : trigger ≠ [])
    (h : firstIndex? trigger text = none) : ¬ trigger <:+: text := by
  induction text with
  | nil => simpa using filled
  | cons c rest ih =>
    rw [firstIndex?] at h
    cases starts : trigger.isPrefixOf? (c :: rest) with
    | some after => rw [starts] at h; cases h
    | none =>
      rw [starts, if_neg (by simp), Option.map_eq_none_iff] at h
      intro inside
      rcases List.infix_cons_iff.mp inside with ⟨behind, same⟩ | inside
      · rw [← same, isPrefixOf?_append] at starts
        cases starts
      · exact ih h inside

theorem length_of_firstAt {trigger text before after : List Char}
    (h : FirstAt trigger text before after) :
    before.length + trigger.length ≤ text.length := by
  rw [h.1, List.length_append, List.length_append]
  omega

/-- Replaces calls inside the text itself, looking for the next one from a position on. After a call
    the search goes on behind its value. -/
def Construct.replaceInPlace (construct : Construct κ) (evaluate : κ → Expansion σ (List Char))
    (text : List Char) (start : Nat) : Expansion σ (List Char) :=
  match _ : firstIndex? construct.trigger.text (text.drop start) with
  | none => return text
  | some offset =>
    let index := start + offset
    let behind := index + construct.trigger.text.length
    match construct.read (text.drop behind) with
    | .error problem => do
      report problem
      construct.replaceInPlace evaluate text behind
    | .ok (call, size) => do
      let value ← evaluate call
      construct.replaceInPlace evaluate (text.take index ++ value ++ text.drop (behind + size))
        (index + value.length)
termination_by text.length - start
decreasing_by
  all_goals
    obtain ⟨before, after, first, located⟩ := firstAt_of_firstIndex? ‹_›
    have fits := length_of_firstAt first
    have filled : construct.trigger.text.length = construct.trigger.more.length + 1 := rfl
    simp only [List.length_append, List.length_take, List.length_drop] at fits ⊢
    omega

theorem drop_firstAt {trigger text before after : List Char} {start : Nat}
    (h : FirstAt trigger (text.drop start) before after) (inside : start ≤ text.length) :
    text.take (start + before.length) = text.take start ++ before ∧
      text.take (start + before.length + trigger.length) = text.take start ++ before ++ trigger ∧
      text.drop (start + before.length + trigger.length) = after := by
  have front : (text.take start).length = start := by
    rw [List.length_take]
    omega
  have whole : text = text.take start ++ (before ++ (trigger ++ after)) := by
    rw [← h.1, List.take_append_drop]
  generalize text.take start = front' at front whole ⊢
  subst whole front
  refine ⟨?_, ?_, ?_⟩
  · rw [← List.append_assoc, ← List.length_append, List.take_left]
  · rw [← List.append_assoc, ← List.append_assoc, ← List.length_append, ← List.length_append,
      List.take_left]
  · rw [← List.append_assoc, ← List.append_assoc, ← List.length_append, ← List.length_append,
      List.drop_left]

section InPlace

variable (construct : Construct κ) (evaluate : κ → Expansion σ (List Char))

theorem replaceInPlace_plain {text : List Char} {start : Nat}
    (absent : firstIndex? construct.trigger.text (text.drop start) = none) :
    construct.replaceInPlace evaluate text start = pure text := by
  rw [Construct.replaceInPlace]
  split
  · rfl
  · rename_i found
    rw [absent] at found
    cases found

theorem replaceInPlace_malformed {text : List Char} {start offset : Nat} {problem : Diagnostic}
    (located : firstIndex? construct.trigger.text (text.drop start) = some offset)
    (read : construct.read (text.drop (start + offset + construct.trigger.text.length)) =
      .error problem) :
    construct.replaceInPlace evaluate text start = (do
      report problem
      construct.replaceInPlace evaluate text (start + offset + construct.trigger.text.length)) := by
  rw [Construct.replaceInPlace]
  split
  · rename_i absent
    rw [located] at absent
    cases absent
  · rename_i found
    rw [located] at found
    cases found
    simp only [read]

theorem replaceInPlace_call {text : List Char} {start offset size : Nat} {call : κ}
    (located : firstIndex? construct.trigger.text (text.drop start) = some offset)
    (read : construct.read (text.drop (start + offset + construct.trigger.text.length)) =
      .ok (call, size)) :
    construct.replaceInPlace evaluate text start = (do
      let value ← evaluate call
      construct.replaceInPlace evaluate (text.take (start + offset) ++ value ++
        text.drop (start + offset + construct.trigger.text.length + size))
        (start + offset + value.length)) := by
  rw [Construct.replaceInPlace]
  split
  · rename_i absent
    rw [located] at absent
    cases absent
  · rename_i found
    rw [located] at found
    cases found
    simp only [read]

theorem replaceInPlace_eq (text : List Char) (start : Nat) :
    construct.replaceInPlace evaluate text start = do
      let tail ← construct.replace evaluate (text.drop start)
      return text.take start ++ tail := by
  -- What is still to be searched gets shorter, whatever is put in before it.
  induction remaining : text.length - start using Nat.strongRecOn generalizing text start with
  | ind size ih =>
    cases located : firstIndex? construct.trigger.text (text.drop start) with
    | none =>
      have plain := not_infix_of_firstIndex? (List.cons_ne_nil _ _) located
      rw [replaceInPlace_plain construct evaluate located, replace_plain construct evaluate plain,
        pure_bind, List.take_append_drop]
    | some offset =>
      obtain ⟨before, after, first, rfl⟩ := firstAt_of_firstIndex? located
      have fits := length_of_firstAt first
      have filled : construct.trigger.text.length = construct.trigger.more.length + 1 := rfl
      rw [List.length_drop] at fits
      obtain ⟨passed, copied, rest⟩ := drop_firstAt first (by omega)
      rw [replace_before construct evaluate first]
      cases read : construct.read after with
      | error problem =>
        have again := ih _ (by omega) text (start + before.length + construct.trigger.text.length) rfl
        rw [replace_malformed construct evaluate read,
          replaceInPlace_malformed construct evaluate located (by rw [rest, read]), again, rest, copied]
        simp only [bind_assoc, pure_bind, List.append_assoc]
      | ok found =>
        obtain ⟨call, size⟩ := found
        have front : (text.take (start + before.length)).length = start + before.length := by
          rw [List.length_take]
          omega
        have again : ∀ value, construct.replaceInPlace evaluate
            (text.take (start + before.length) ++ value ++ after.drop size)
              (start + before.length + value.length) = do
              let tail ← construct.replace evaluate (after.drop size)
              return text.take start ++ before ++ value ++ tail := by
          intro value
          have position : start + before.length + value.length =
              (text.take (start + before.length) ++ value).length := by
            rw [List.length_append, front]
          have shorter : (after.drop size).length + start + before.length < text.length := by
            rw [← rest, List.length_drop, List.length_drop]
            omega
          have smaller : (text.take (start + before.length) ++ value ++ after.drop size).length -
              (start + before.length + value.length) < text.length - start := by
            rw [position, List.length_append, Nat.add_sub_cancel_left]
            omega
          rw [ih _ (remaining ▸ smaller) _ _ rfl, position, List.drop_left, List.take_left, passed]
        rw [replace_call construct evaluate read,
          replaceInPlace_call construct evaluate located (by rw [rest, read]), ← List.drop_drop, rest]
        simp only [again]
        simp only [bind_assoc, pure_bind, List.append_assoc]

end InPlace

/-- The value of a variable, empty and reported if there is none. -/
def variableValue (bindings : Bindings) (name : List Char) : Expansion σ (List Char) :=
  match bindings.value? name with
  | some value => return value
  | none => do
    report (.unknownVariable name)
    return []

/-- The value that a call evaluates to, empty and reported if it fails. -/
def valueOf (problem : Failure → Diagnostic) (result : Expansion σ (Except Failure (List Char))) :
    Expansion σ (List Char) := do
  match ← result with
  | .ok value => return value
  | .error failure =>
    report (problem failure)
    return []

/-- The three passes go once over the text that they are given, whether the text is rebuilt or changed
    in place. -/
theorem passes_follow_suffix (bindings : Bindings) (trigger : Trigger)
    (evaluateCall : List Char → Expansion σ (Except Failure (List Char)))
    (evaluateBlock : Block → Expansion σ (Except Failure (List Char))) :
    (FollowsSuffix ['%', '\x7b'] VariableAt (fun _ problem => problem = .openVariable)
        (variableValue bindings) (replaceVariables (σ := σ) bindings) ∧
      ∀ text, variableReference.replaceInPlace (variableValue bindings) text 0 =
        replaceVariables (σ := σ) bindings text) ∧
    (FollowsSuffix trigger.text CallAt (fun _ problem => problem = .openCall trigger.text)
        (fun arguments => valueOf (.failedCall trigger.text arguments) (evaluateCall arguments))
        (replaceCalls trigger evaluateCall) ∧
      ∀ text, (inlineCall trigger).replaceInPlace
          (fun arguments => valueOf (.failedCall trigger.text arguments) (evaluateCall arguments))
          text 0 = replaceCalls trigger evaluateCall text) ∧
    (FollowsSuffix trigger.text BlockAt (BlockMissing trigger.text)
        (fun block => valueOf (.failedBlock trigger.text block.arguments) (evaluateBlock block))
        (replaceBlocks trigger evaluateBlock) ∧
      ∀ text, (blockCall trigger).replaceInPlace
          (fun block => valueOf (.failedBlock trigger.text block.arguments) (evaluateBlock block))
          text 0 = replaceBlocks trigger evaluateBlock text) := by
  have inPlace : ∀ {κ : Type} (construct : Construct κ) (evaluate : κ → Expansion σ (List Char))
      (text : List Char),
      construct.replaceInPlace evaluate text 0 = construct.replace evaluate text := by
    intro κ construct evaluate text
    rw [replaceInPlace_eq]
    simp
  refine ⟨⟨?_, ?_⟩, ⟨?_, ?_⟩, ?_, ?_⟩
  · exact followsSuffix_replace variableReference (variableValue bindings) variableReference_reads
  · exact inPlace variableReference (variableValue bindings)
  · exact followsSuffix_replace (inlineCall trigger) _ (inlineCall_reads trigger)
  · exact inPlace (inlineCall trigger) _
  · exact followsSuffix_replace (blockCall trigger) _ (blockCall_reads trigger)
  · exact inPlace (blockCall trigger) _

end BracketMarkup.Template
