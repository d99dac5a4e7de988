import BracketMarkup.Template.NamePattern

namespace BracketMarkup.Template

/-- The parts of a pattern with a run of characters in the place of each star between them. -/
def withRuns : (parts runs : List (List Char)) → List Char
  | part :: parts, run :: runs => part ++ run ++ withRuns parts runs
  | parts, _ => parts.flatten

theorem withRuns_modifyHead (c : Char) {parts : List (List Char)} (filled : parts ≠ [])
    (runs : List (List Char)) :
    withRuns (parts.modifyHead (c :: ·)) runs = c :: withRuns parts runs := by
  obtain ⟨part, parts, rfl⟩ := List.exists_cons_of_ne_nil filled
  cases runs <;> rfl

theorem anyEnd_iff (accept : List Char → Bool) (name : List Char) :
    anyEnd accept name = true ↔ ∃ run rest, name = run ++ rest ∧ accept rest = true := by
  induction name with
  | nil => simp [anyEnd, and_assoc]
  | cons c name ih =>
    rw [anyEnd, Bool.or_eq_true, ih]
    constructor
    · rintro (whole | ⟨run, rest, rfl, accepted⟩)
      · exact ⟨[], c :: name, rfl, whole⟩
      · exact ⟨c :: run, rest, rfl, accepted⟩
    · rintro ⟨run, rest, shape, accepted⟩
      cases run with
      | nil =>
        left
        rwa [shape]
      | cons d run =>
        obtain ⟨rfl, rfl⟩ := List.cons_eq_cons.mp shape
        exact .inr ⟨run, rest, rfl, accepted⟩

theorem matchesName_cons_iff {c : Char} (plain : c ≠ '*') (pattern name : List Char) :
    matchesName (c :: pattern) name = true ↔
      ∃ rest, name = c :: rest ∧ matchesName pattern rest = true := by
  cases name with
  | nil => simp [matchesName]
  | cons d rest =>
    have step : matchesName (c :: pattern) (d :: rest) = (c == d && matchesName pattern rest) := by
      rw [matchesName]
      exact plain
    rw [step, Bool.and_eq_true, beq_iff_eq]
    constructor
    · rintro ⟨rfl, matched⟩
      exact ⟨rest, rfl, matched⟩
    · rintro ⟨rest, shape, matched⟩
      obtain ⟨rfl, rfl⟩ := List.cons_eq_cons.mp shape
      exact ⟨rfl, matched⟩

/-- A pattern matches the names that its parts give with some run for each star. -/
theorem matchesName_iff_withRuns (pattern name : List Char) :
    matchesName pattern name = true ↔
      ∃ runs : List (List Char), runs.length + 1 = (pattern.splitOn '*').length ∧
        name = withRuns (pattern.splitOn '*') runs := by
  induction pattern generalizing name with
  | nil => simp [matchesName, withRuns]
  | cons c pattern ih =>
    have filled := List.splitOn_ne_nil '*' pattern
    rw [List.splitOn_cons_eq_if_modifyHead]
    by_cases star : c = '*'
    · -- Nothing stands in front of the star, so that the name begins with its run.
      subst star
      rw [matchesName, anyEnd_iff, if_pos (by simp)]
      constructor
      · rintro ⟨run, rest, rfl, matched⟩
        obtain ⟨runs, size, rfl⟩ := (ih rest).mp matched
        exact ⟨run :: runs, by simp [size], rfl⟩
      · rintro ⟨runs, size, rfl⟩
        have more := List.length_pos_iff.mpr filled
        cases runs with
        | nil =>
          rw [List.length_cons, List.length_nil] at size
          omega
        | cons run runs =>
          refine ⟨run, withRuns (pattern.splitOn '*') runs, rfl, (ih _).mpr ⟨runs, ?_, rfl⟩⟩
          simpa using size
    · rw [matchesName_cons_iff star, if_neg (by simpa using star), List.length_modifyHead]
      constructor
      · rintro ⟨rest, rfl, matched⟩
        obtain ⟨runs, size, rfl⟩ := (ih rest).mp matched
        exact ⟨runs, size, (withRuns_modifyHead c filled runs).symm⟩
      · rintro ⟨runs, size, rfl⟩
        rw [withRuns_modifyHead c filled]
        exact ⟨_, rfl, (ih _).mpr ⟨runs, size, rfl⟩⟩

end BracketMarkup.Template
