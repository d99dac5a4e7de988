namespace BracketMarkup

/-- Names with their values, each name once, in the order in which the names first appeared. -/
abbrev Bindings := List (List Char × List Char)

namespace Bindings

def value? : Bindings → List Char → Option (List Char)
  | [], _ => none
  | (bound, value) :: rest, name => if bound = name then some value else value? rest name

def assign (name value : List Char) : Bindings → Bindings
  | [] => [(name, value)]
  | (other, old) :: rest =>
    if other = name then (other, value) :: rest else (other, old) :: assign name value rest

def forget (name : List Char) (bindings : Bindings) : Bindings := bindings.filter (·.1 != name)

def override (bindings newer : Bindings) : Bindings :=
  newer.foldl (fun result binding => assign binding.1 binding.2 result) bindings

theorem value?_assign (bindings : Bindings) (name value other : List Char) :
    (assign name value bindings).value? other =
      if name = other then some value else bindings.value? other := by
  induction bindings with
  | nil => simp [assign, value?]
  | cons binding rest ih =>
    obtain ⟨bound, old⟩ := binding
    simp only [assign]
    split
    · rename_i same
      subst same
      simp only [value?]
      split <;> rfl
    · rename_i different
      simp only [value?, ih]
      split
      · rename_i same
        subst same
        simp [Ne.symm different]
      · rfl

end Bindings

end BracketMarkup
