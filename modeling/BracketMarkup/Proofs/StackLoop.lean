import BracketMarkup.Proofs.Grouping

namespace BracketMarkup.Bracketed

variable {α : Type}

def snocFree (x : α) : List (Bracketed (List α)) → List (Bracketed (List α))
  | [] => [free [x]]
  | [free run] => [free (run ++ [x])]
  | tree :: rest => tree :: snocFree x rest

/-- The trees read so far: those behind the last opener that is not closed, and those before it, level
    by level. -/
structure Stack (α : Type) where
  top : List (Bracketed (List α))
  below : List (List (Bracketed (List α)))

def Stack.push (isOpen isClose : α → Bool) (stack : Stack α) (x : α) : Except Unbalanced (Stack α) :=
  if isOpen x then .ok ⟨[], stack.top :: stack.below⟩
  else if isClose x then
    match stack.below with
    | [] => .error .closer
    | frame :: below => .ok ⟨frame ++ [nested stack.top], below⟩
  else .ok { stack with top := snocFree x stack.top }

def Stack.finish (stack : Stack α) : Except Unbalanced (List (Bracketed (List α))) :=
  match stack.below with
  | [] => .ok stack.top
  | below => .error (.openers below.length)

def groupInPlace (isOpen isClose : α → Bool) (items : List α) :
    Except Unbalanced (List (Bracketed (List α))) := do
  let stack ← items.foldlM (Stack.push isOpen isClose) ⟨[], []⟩
  stack.finish

def glue : List (Bracketed (List α)) → List (Bracketed (List α)) → List (Bracketed (List α))
  | [], right => right
  | [free run], free next :: rest => free (run ++ next) :: rest
  | tree :: left, right => tree :: glue left right

theorem glue_cons {tree : Bracketed (List α)} {left : List (Bracketed (List α))}
    (apart : ∀ run, tree = free run → left = [] → False) (right : List (Bracketed (List α))) :
    glue (tree :: left) right = tree :: glue left right := by
  rw [glue]
  intro run next rest same first last
  exact apart run first last

theorem glue_nil (left : List (Bracketed (List α))) : glue left [] = left := by
  induction left with
  | nil => rfl
  | cons tree rest ih =>
    rw [glue, ih]
    intro run next more same
    cases same

theorem glue_nested (left children right : List (Bracketed (List α))) :
    glue (left ++ [nested children]) right = left ++ nested children :: right := by
  induction left with
  | nil => rfl
  | cons tree rest ih =>
    rw [List.cons_append, glue_cons (by simp), ih]
    rfl

theorem glue_before_nested (left children right : List (Bracketed (List α))) :
    glue left (nested children :: right) = left ++ nested children :: right := by
  induction left with
  | nil => rfl
  | cons tree rest ih =>
    rw [glue, ih]
    · rfl
    · intro run next more same
      cases same

theorem snocFree_ne_nil (x : α) (trees : List (Bracketed (List α))) : snocFree x trees ≠ [] := by
  fun_cases snocFree x trees <;> simp

theorem glue_snocFree (x : α) (left right : List (Bracketed (List α))) :
    glue (snocFree x left) right = glue left (consFree x right) := by
  fun_induction snocFree x left with
  | case1 => rcases right with _ | ⟨run | children, rest⟩ <;> rfl
  | case2 run =>
    rcases right with _ | ⟨next | children, rest⟩
    · rfl
    · simp [glue, consFree]
    · rfl
  | case3 tree rest other ih =>
    rw [glue_cons fun _ _ last => snocFree_ne_nil x rest last, glue_cons other, ih]

def settle (trees : List (Bracketed (List α))) :
    List (List (Bracketed (List α))) → List (List (Bracketed (List α))) → Nat →
      Except Unbalanced (List (Bracketed (List α)))
  | [], [], 0 => .ok trees
  | [], [], unclosed + 1 => .error (.openers (unclosed + 1))
  | [], _ :: _, _ => .error .closer
  | frame :: below, [], unclosed => .error (.openers ((frame :: below).length + unclosed))
  | frame :: below, here :: outer, unclosed =>
    settle (frame ++ nested trees :: here) below outer unclosed

variable {isOpen isClose : α → Bool}

theorem push_all (stack : Stack α) (items : List α) :
    (items.foldlM (Stack.push isOpen isClose) stack >>= Stack.finish) =
      settle (glue stack.top (levels isOpen isClose items).here) stack.below
        (levels isOpen isClose items).outer (levels isOpen isClose items).unclosed := by
  induction items generalizing stack with
  | nil =>
    rcases stack with ⟨top, _ | ⟨frame, below⟩⟩
    · exact congrArg Except.ok (glue_nil top).symm
    · rfl
  | cons x rest ih =>
    obtain ⟨top, below⟩ := stack
    have goesOn : ∀ next, Stack.push isOpen isClose ⟨top, below⟩ x = .ok next →
        ((x :: rest).foldlM (Stack.push isOpen isClose) ⟨top, below⟩ >>= Stack.finish) =
          settle (glue next.top (levels isOpen isClose rest).here) next.below
            (levels isOpen isClose rest).outer (levels isOpen isClose rest).unclosed := by
      intro next pushed
      rw [← ih next, List.foldlM_cons, pushed]
      rfl
    cases opens : isOpen x with
    | true =>
      rw [goesOn ⟨[], top :: below⟩ (by simp [Stack.push, opens])]
      -- The opener is closed by the first closer that is not needed behind it.
      rcases after : levels isOpen isClose rest with ⟨here, _ | ⟨trees, outer⟩, unclosed⟩
      · rw [levels_opener_unclosed opens after]
        cases below with
        | nil => simp [settle, Nat.add_comm]
        | cons frame below => simp [settle, Nat.add_assoc, Nat.add_comm]
      · rw [levels_opener opens after, glue_before_nested]
        rfl
    | false =>
      cases closes : isClose x with
      | true =>
        rw [levels_closer opens closes]
        cases below with
        | nil => simp [Stack.push, opens, closes, settle]; rfl
        | cons frame below =>
          rw [goesOn ⟨frame ++ [nested top], below⟩ (by simp [Stack.push, opens, closes]),
            glue_nested, settle, glue_nil]
      | false =>
        rw [goesOn ⟨snocFree x top, below⟩ (by simp [Stack.push, opens, closes]),
          levels_free opens closes, glue_snocFree]

/-- Grouping from the end to the start gives what a stack gives from the start. -/
theorem group_eq_groupInPlace (items : List α) :
    group isOpen isClose items = groupInPlace isOpen isClose items := by
  rw [groupInPlace, push_all, group]
  rcases levels isOpen isClose items with ⟨here, _ | ⟨trees, outer⟩, _ | unclosed⟩ <;> rfl

end BracketMarkup.Bracketed
