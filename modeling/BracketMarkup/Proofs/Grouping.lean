import BracketMarkup.Bracketed

namespace BracketMarkup.Bracketed

variable {α : Type}

/-- The streams that trees of single items stand for. The trees do not hold the delimiters. -/
inductive Spells (isOpen isClose : α → Bool) : List (Bracketed α) → List α → Prop where
  | nil : Spells isOpen isClose [] []
  | free {x : α} {trees : List (Bracketed α)} {items : List α} :
      isOpen x = false → isClose x = false → Spells isOpen isClose trees items →
      Spells isOpen isClose (free x :: trees) (x :: items)
  | nested {opener closer : α} {children trees : List (Bracketed α)} {inner items : List α} :
      isOpen opener = true → isOpen closer = false → isClose closer = true →
      Spells isOpen isClose children inner → Spells isOpen isClose trees items →
      Spells isOpen isClose (nested children :: trees) (opener :: (inner ++ closer :: items))

mutual

def consTree : Bracketed α → List (Bracketed (List α)) → List (Bracketed (List α))
  | free x, following => consFree x following
  | nested children, following => nested (gather children) :: following

def gather : List (Bracketed α) → List (Bracketed (List α))
  | [] => []
  | tree :: rest => consTree tree (gather rest)

end

variable {isOpen isClose : α → Bool}

theorem foldr_consTree (trees : List (Bracketed α)) : trees.foldr consTree [] = gather trees := by
  induction trees with
  | nil => rfl
  | cons tree rest ih => rw [List.foldr_cons, ih]; rfl

theorem Spells.append {left right : List (Bracketed α)} {first second : List α}
    (h : Spells isOpen isClose left first) (k : Spells isOpen isClose right second) :
    Spells isOpen isClose (left ++ right) (first ++ second) := by
  induction h with
  | nil => exact k
  | free notOpen notClose _ ih => exact .free notOpen notClose ih
  | nested opens notOpen closes inner _ _ ih =>
    simpa using Spells.nested opens notOpen closes inner ih

theorem levels_opener {x : α} {rest : List α} {here trees : List (Bracketed (List α))}
    {outer : List (List (Bracketed (List α)))} {unclosed : Nat} (opens : isOpen x = true)
    (after : levels isOpen isClose rest = ⟨here, trees :: outer, unclosed⟩) :
    levels isOpen isClose (x :: rest) = ⟨nested here :: trees, outer, unclosed⟩ := by
  simp only [levels, opens, after, if_true]

theorem levels_opener_unclosed {x : α} {rest : List α} {here : List (Bracketed (List α))}
    {unclosed : Nat} (opens : isOpen x = true)
    (after : levels isOpen isClose rest = ⟨here, [], unclosed⟩) :
    levels isOpen isClose (x :: rest) = ⟨here, [], unclosed + 1⟩ := by
  simp only [levels, opens, after, if_true]

theorem levels_closer {x : α} (notOpen : isOpen x = false) (closes : isClose x = true)
    (rest : List α) :
    levels isOpen isClose (x :: rest) = ⟨[], (levels isOpen isClose rest).here ::
      (levels isOpen isClose rest).outer, (levels isOpen isClose rest).unclosed⟩ := by
  simp [levels, notOpen, closes]

theorem levels_free {x : α} (notOpen : isOpen x = false) (notClose : isClose x = false)
    (rest : List α) :
    levels isOpen isClose (x :: rest) = { levels isOpen isClose rest with
      here := consFree x (levels isOpen isClose rest).here } := by
  simp [levels, notOpen, notClose]

theorem levels_append {trees : List (Bracketed α)} {items : List α}
    (h : Spells isOpen isClose trees items) (rest : List α) :
    levels isOpen isClose (items ++ rest) =
      { levels isOpen isClose rest with
        here := trees.foldr consTree (levels isOpen isClose rest).here } := by
  induction h generalizing rest with
  | nil => rfl
  | free notOpen notClose _ ih =>
    rw [List.cons_append, levels_free notOpen notClose, ih]
    rfl
  | @nested opener closer _ _ inner items opens notOpen closes _ _ inside ih =>
    have closed := inside (closer :: (items ++ rest))
    rw [levels_closer notOpen closes, foldr_consTree, ih] at closed
    rw [List.cons_append, List.append_assoc, List.cons_append, levels_opener opens closed]
    rfl

theorem group_of_spells {trees : List (Bracketed α)} {items : List α}
    (h : Spells isOpen isClose trees items) : group isOpen isClose items = .ok (gather trees) := by
  have all := levels_append h []
  rw [List.append_nil] at all
  rw [group, all, ← foldr_consTree]
  rfl

/-- What is known of a stream of which every opener is closed: up to its first closer of an earlier
    opener, if there is one, trees stand for it. -/
def Parted (isOpen isClose : α → Bool) (items : List α) (here : List (Bracketed (List α))) :
    List (List (Bracketed (List α))) → Prop
  | [] => ∃ trees, Spells isOpen isClose trees items ∧ gather trees = here
  | next :: outer => ∃ trees front closer rest, items = front ++ closer :: rest ∧
      Spells isOpen isClose trees front ∧ gather trees = here ∧ isOpen closer = false ∧
      isClose closer = true ∧ levels isOpen isClose rest = ⟨next, outer, 0⟩

theorem parted_of_levels (items : List α) {here : List (Bracketed (List α))}
    {outer : List (List (Bracketed (List α)))} (h : levels isOpen isClose items = ⟨here, outer, 0⟩) :
    Parted isOpen isClose items here outer := by
  match items with
  | [] =>
    cases h
    exact ⟨[], .nil, rfl⟩
  | x :: rest =>
    rcases after : levels isOpen isClose rest with ⟨before, enclosing, unclosed⟩
    by_cases opens : isOpen x = true
    · cases enclosing with
      | nil => rw [levels_opener_unclosed opens after] at h; cases h
      | cons next enclosing =>
        rw [levels_opener opens after] at h
        cases h
        -- The first closer of the rest belongs to `x`; what follows it is parted in turn.
        obtain ⟨children, inner, closer, rest', rfl, inside, rfl, notOpen, closes, beyond⟩ :=
          parted_of_levels rest after
        have further := parted_of_levels rest' beyond
        cases outer with
        | nil =>
          obtain ⟨trees, spelled, rfl⟩ := further
          exact ⟨_, .nested opens notOpen closes inside spelled, rfl⟩
        | cons next outer =>
          obtain ⟨trees, front, last, rest'', rfl, spelled, rfl, found⟩ := further
          exact ⟨_, _, last, rest'', by simp, .nested opens notOpen closes inside spelled, rfl, found⟩
    · have notOpen := Bool.eq_false_iff.mpr opens
      by_cases closes : isClose x = true
      · rw [levels_closer notOpen closes, after] at h
        cases h
        exact ⟨[], [], x, rest, rfl, .nil, rfl, notOpen, closes, after⟩
      · have notClose := Bool.eq_false_iff.mpr closes
        rw [levels_free notOpen notClose, after] at h
        cases h
        have further := parted_of_levels rest after
        cases enclosing with
        | nil =>
          obtain ⟨trees, spelled, rfl⟩ := further
          exact ⟨free x :: trees, .free notOpen notClose spelled, rfl⟩
        | cons next outer =>
          obtain ⟨trees, front, last, rest', rfl, spelled, rfl, found⟩ := further
          exact ⟨free x :: trees, x :: front, last, rest', rfl, .free notOpen notClose spelled, rfl,
            found⟩
termination_by items.length
decreasing_by all_goals simp_all; try omega

def isCloser (isOpen isClose : α → Bool) (x : α) : Bool := !isOpen x && isClose x

theorem opener_closer_or_free (isOpen isClose : α → Bool) (x : α) :
    isOpen x = true ∧ isCloser isOpen isClose x = false ∨
      isOpen x = false ∧ isClose x = true ∧ isCloser isOpen isClose x = true ∨
      isOpen x = false ∧ isClose x = false ∧ isCloser isOpen isClose x = false := by
  cases opens : isOpen x <;> cases closes : isClose x <;> simp [isCloser, opens, closes]

theorem unclosed_add_closers (items : List α) :
    (levels isOpen isClose items).unclosed + items.countP (isCloser isOpen isClose) =
      items.countP isOpen + (levels isOpen isClose items).outer.length := by
  induction items with
  | nil => rfl
  | cons x rest ih =>
    rcases after : levels isOpen isClose rest with ⟨here, outer, unclosed⟩
    simp only [after] at ih
    simp only [List.countP_cons]
    rcases opener_closer_or_free isOpen isClose x with
      ⟨opens, counted⟩ | ⟨notOpen, closes, counted⟩ | ⟨notOpen, notClose, counted⟩
    · cases outer with
      | nil =>
        rw [levels_opener_unclosed opens after]
        simp only [opens, counted, List.length_nil, if_true, Bool.false_eq_true, if_false] at ih ⊢
        omega
      | cons trees outer =>
        rw [levels_opener opens after]
        simp only [opens, counted, List.length_cons, if_true, Bool.false_eq_true, if_false] at ih ⊢
        omega
    · rw [levels_closer notOpen closes, after]
      simp only [notOpen, counted, List.length_cons, if_true, Bool.false_eq_true, if_false] at ih ⊢
      omega
    · rw [levels_free notOpen notClose, after]
      simp only [notOpen, counted, Bool.false_eq_true, if_false] at ih ⊢
      omega

theorem exists_prefix_cons {x : α} {rest : List α} {p : List α → Prop} (empty : ¬ p []) :
    (∃ front, front <+: x :: rest ∧ p front) ↔ ∃ front, front <+: rest ∧ p (x :: front) := by
  constructor
  · rintro ⟨front, before, holds⟩
    rcases List.prefix_cons_iff.mp before with rfl | ⟨tail, rfl, shorter⟩
    · exact absurd holds empty
    · exact ⟨tail, shorter, holds⟩
  · rintro ⟨front, before, holds⟩
    exact ⟨x :: front, List.cons_prefix_cons.mpr ⟨rfl, before⟩, holds⟩

theorem lt_outer_length_iff (items : List α) (excess : Nat) :
    excess < (levels isOpen isClose items).outer.length ↔
      ∃ front, front <+: items ∧
        front.countP isOpen + excess < front.countP (isCloser isOpen isClose) := by
  induction items generalizing excess with
  | nil => simp [levels]
  | cons x rest ih =>
    rw [exists_prefix_cons (by simp)]
    rcases after : levels isOpen isClose rest with ⟨here, outer, unclosed⟩
    simp only [after] at ih
    simp only [List.countP_cons]
    rcases opener_closer_or_free isOpen isClose x with
      ⟨opens, counted⟩ | ⟨notOpen, closes, counted⟩ | ⟨notOpen, notClose, counted⟩
    -- An opener uses one closer up, so that one more is needed behind it.
    · have shifted := ih (excess + 1)
      simp only [opens, counted, if_true, Bool.false_eq_true, if_false, Nat.add_zero,
        Nat.add_assoc, Nat.add_comm 1 excess]
      rw [← shifted]
      cases outer with
      | nil => simp [levels_opener_unclosed opens after]
      | cons trees outer => simp [levels_opener opens after]
    · rw [levels_closer notOpen closes, after]
      simp only [notOpen, counted, if_true, Bool.false_eq_true, if_false, Nat.add_zero,
        List.length_cons]
      cases excess with
      | zero =>
        refine ⟨fun _ => ⟨[], List.nil_prefix, by simp⟩, fun _ => Nat.succ_pos _⟩
      | succ excess =>
        rw [Nat.add_lt_add_iff_right, ih excess]
        simp only [← Nat.add_assoc, Nat.add_lt_add_iff_right]
    · rw [levels_free notOpen notClose, after]
      simp only [notOpen, counted, Bool.false_eq_true, if_false, Nat.add_zero]
      exact ih excess

/-- Somewhere in a stream more closers than openers have been met. -/
def Overclosed (isOpen isClose : α → Bool) (items : List α) : Prop :=
  ∃ front, front <+: items ∧ front.countP isOpen < front.countP (isCloser isOpen isClose)

theorem overclosed_iff_outer (items : List α) :
    Overclosed isOpen isClose items ↔ (levels isOpen isClose items).outer ≠ [] := by
  rw [← List.length_pos_iff, lt_outer_length_iff items 0]
  simp only [Nat.add_zero]
  rfl

theorem group_closer_iff (items : List α) :
    group isOpen isClose items = .error .closer ↔ Overclosed isOpen isClose items := by
  rw [overclosed_iff_outer, group]
  split <;> simp_all

theorem group_openers_iff (items : List α) (excess : Nat) :
    group isOpen isClose items = .error (.openers excess) ↔
      ¬ Overclosed isOpen isClose items ∧ 0 < excess ∧
        items.countP isOpen = items.countP (isCloser isOpen isClose) + excess := by
  have counts : (levels isOpen isClose items).unclosed + items.countP (isCloser isOpen isClose) =
      items.countP isOpen + (levels isOpen isClose items).outer.length := unclosed_add_closers items
  rw [overclosed_iff_outer, group]
  split <;> rename_i shape <;> rw [shape] at counts ⊢ <;> simp_all <;> omega

theorem spells_of_group {items : List α} {runs : List (Bracketed (List α))}
    (h : group isOpen isClose items = .ok runs) :
    ∃ trees, Spells isOpen isClose trees items ∧ gather trees = runs := by
  rw [group] at h
  split at h
  · cases h
  · rename_i trees shape
    cases h
    exact parted_of_levels items shape
  · cases h

end BracketMarkup.Bracketed
