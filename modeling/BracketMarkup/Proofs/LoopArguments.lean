import BracketMarkup.Template.Loop
import Mathlib.Data.List.Induction

namespace BracketMarkup.Template

def objectsOf (phrases : List (List Char × List Char)) (verb : String) : List (List Char) :=
  (phrases.filter fun phrase => phrase.1 = verb.toList ∧ phrase.2 ≠ []).map Prod.snd

def Loop.ofPhrases (phrases : List (List Char × List Char)) : Loop where
  binds := (objectsOf phrases "with").getLast?.map unescape
  directory := (objectsOf phrases "in").getLast?.map unescape
  sortKey := (objectsOf phrases "sort_key").getLast?
  descending := (objectsOf phrases "sort_order").any descendingOrders.contains
  excluded := (objectsOf phrases "exclude_name").flatMap namePatterns
  included := (objectsOf phrases "include_name").flatMap namePatterns

def Loop.asked (arguments : List Char) : Loop :=
  .ofPhrases ((splitUnescaped (· == ':') none false arguments).map verbAndObject)

theorem objectsOf_concat (phrases : List (List Char × List Char)) (verb : String)
    (phrase : List Char × List Char) : objectsOf (phrases ++ [phrase]) verb =
      objectsOf phrases verb ++
        if phrase.1 = verb.toList ∧ phrase.2 ≠ [] then [phrase.2] else [] := by
  by_cases counts : phrase.1 = verb.toList ∧ phrase.2 ≠ []
  · simp only [objectsOf, List.filter_append, List.map_append, if_pos counts]
    simp [counts]
  · simp only [objectsOf, List.filter_append, List.map_append, if_neg counts]
    simp [counts]

theorem Loop.add_ofPhrases (phrases : List (List Char × List Char)) (argument : List Char) :
    ((Loop.ofPhrases phrases).add argument).1 =
      Loop.ofPhrases (phrases ++ [verbAndObject argument]) := by
  rcases phrase : verbAndObject argument with ⟨verb, object⟩
  simp only [Loop.add, phrase]
  -- One case for each verb, in the order in which the argument is compared with them.
  by_cases silent : object = []
  · simp [Loop.ofPhrases, objectsOf_concat, silent]
  rw [if_neg silent]
  by_cases isWith : verb = "with".toList
  · simp [Loop.ofPhrases, objectsOf_concat, isWith, silent]
  rw [if_neg isWith]
  by_cases isIn : verb = "in".toList
  · simp [Loop.ofPhrases, objectsOf_concat, isIn, silent]
  rw [if_neg isIn]
  by_cases isKey : verb = "sort_key".toList
  · simp [Loop.ofPhrases, objectsOf_concat, isKey, silent]
  rw [if_neg isKey]
  by_cases isOrder : verb = "sort_order".toList
  · rw [if_pos isOrder]
    by_cases down : object ∈ descendingOrders
    · simp [Loop.ofPhrases, objectsOf_concat, isOrder, silent, down]
    · by_cases up : object ∈ ascendingOrders <;>
        simp [Loop.ofPhrases, objectsOf_concat, isOrder, silent, down, up]
  rw [if_neg isOrder]
  by_cases isExclude : verb = "exclude_name".toList
  · simp [Loop.ofPhrases, objectsOf_concat, isExclude, silent]
  rw [if_neg isExclude]
  by_cases isInclude : verb = "include_name".toList
  · simp [Loop.ofPhrases, objectsOf_concat, isInclude, silent]
  rw [if_neg isInclude]
  simp only [Loop.ofPhrases, objectsOf_concat, isWith, isIn, isKey, isOrder, isExclude, isInclude,
    false_and, if_false, List.append_nil]

theorem Loop.read_eq_asked (arguments : List Char) :
    (Loop.read arguments).1 = Loop.asked arguments := by
  rw [Loop.read, Loop.asked]
  induction splitUnescaped (· == ':') none false arguments using List.reverseRecOn with
  | nil => rfl
  | append_singleton earlier argument ih =>
    rw [List.foldl_append, List.map_append]
    simp only [List.foldl_cons, List.foldl_nil, List.map_cons, List.map_nil]
    rw [ih, Loop.add_ofPhrases]

end BracketMarkup.Template
