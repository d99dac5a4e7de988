namespace BracketMarkup

/-- A stream grouped by a pair of delimiters: a run outside of them, or what stands between an opener
    and its closer. -/
inductive Bracketed (α : Type) where
  | free (content : α)
  | nested (children : List (Bracketed α))
  deriving BEq, Repr

inductive Unbalanced where
  | closer
  | openers (count : Nat)
  deriving DecidableEq, Repr

namespace Bracketed

variable {α β : Type}

def consFree (x : α) : List (Bracketed (List α)) → List (Bracketed (List α))
  | free run :: rest => free (x :: run) :: rest
  | trees => free [x] :: trees

/-- What is known of a stream from some position to its end: the trees up to the first closer of an
    opener before that position, the trees after that closer up to the next such one, and so on, and
    how many openers are not closed. -/
structure Levels (α : Type) where
  here : List (Bracketed (List α))
  outer : List (List (Bracketed (List α)))
  unclosed : Nat

def levels (isOpen isClose : α → Bool) : List α → Levels α
  | [] => ⟨[], [], 0⟩
  | x :: rest =>
    let after := levels isOpen isClose rest
    if isOpen x then
      match after.outer with
      | [] => { after with unclosed := after.unclosed + 1 }
      | trees :: outer => { after with here := nested after.here :: trees, outer }
    else if isClose x then { after with here := [], outer := after.here :: after.outer }
    else { after with here := consFree x after.here }

/-- Groups a stream by its delimiters. An item that both opens and closes opens. A closer too many is
    reported before openers too many. -/
def group (isOpen isClose : α → Bool) (items : List α) :
    Except Unbalanced (List (Bracketed (List α))) :=
  match levels isOpen isClose items with
  | ⟨_, _ :: _, _⟩ => .error .closer
  | ⟨trees, [], 0⟩ => .ok trees
  | ⟨_, [], count + 1⟩ => .error (.openers (count + 1))

mutual

def flatten (left right : α) : Bracketed α → List α
  | free content => [content]
  | nested children => left :: (flattenAll left right children ++ [right])

def flattenAll (left right : α) : List (Bracketed α) → List α
  | [] => []
  | tree :: rest => flatten left right tree ++ flattenAll left right rest

end

mutual

def map (f : α → β) : Bracketed α → Bracketed β
  | free content => free (f content)
  | nested children => nested (mapAll f children)

def mapAll (f : α → β) : List (Bracketed α) → List (Bracketed β)
  | [] => []
  | tree :: rest => map f tree :: mapAll f rest

end

def mergeFree [Append α] : List (Bracketed α) → List (Bracketed α)
  | [] => []
  | nested children :: rest => nested children :: mergeFree rest
  | free content :: rest =>
    match mergeFree rest with
    | free following :: rest => free (content ++ following) :: rest
    | trees => free content :: trees

mutual

def pairCount : Bracketed α → Nat
  | free _ => 0
  | nested children => pairCountAll children + 1

def pairCountAll : List (Bracketed α) → Nat
  | [] => 0
  | tree :: rest => pairCount tree + pairCountAll rest

end

theorem pairCountAll_append (left right : List (Bracketed α)) :
    pairCountAll (left ++ right) = pairCountAll left + pairCountAll right := by
  induction left with
  | nil => simp [pairCountAll]
  | cons tree rest ih => simp only [List.cons_append, pairCountAll, ih]; omega

theorem pairCountAll_mergeFree [Append α] (trees : List (Bracketed α)) :
    pairCountAll (mergeFree trees) = pairCountAll trees := by
  fun_induction mergeFree trees with
  | case1 => rfl
  | case2 children rest ih => simp [pairCountAll, ih]
  | case3 content rest following tail h ih =>
    rw [h] at ih
    simpa [pairCountAll, pairCount] using ih
  | case4 content rest trees ih => simpa [pairCountAll, pairCount] using ih

end Bracketed

end BracketMarkup
