import BracketMarkup.Document.Call

namespace BracketMarkup

open Bracketed

theorem cuts_flatten_sublist {α : Type} (isSeparator : α → Bool) (budget : Option Nat)
    (items : List α) : (cuts isSeparator false budget items).flatten.Sublist items := by
  induction items generalizing budget with
  | nil => simp [cuts]
  | cons x rest ih =>
    simp only [cuts]
    split
    · simpa using (ih _).cons x
    · have h := ih budget
      cases hc : cuts isSeparator false budget rest with
      | nil => simp
      | cons part parts => rw [hc] at h; simpa using h

theorem flatten_sublist_flatten {α : Type} {left right : List (List α)} (h : left.Sublist right) :
    left.flatten.Sublist right.flatten := by
  induction h with
  | slnil => exact List.Sublist.refl _
  | cons part _ ih => simpa using ih.trans (List.sublist_append_right _ _)
  | cons_cons part _ ih => simpa using ih

theorem splitItems_flatten_sublist {α : Type} (isSeparator : α → Bool) (limit : Option Int)
    (items : List α) : (splitItems isSeparator limit false items).flatten.Sublist items := by
  unfold splitItems
  refine List.Sublist.trans ?_ (cuts_flatten_sublist isSeparator (budgetOf limit) items)
  dsimp only
  split
  · exact flatten_sublist_flatten (List.dropLast_sublist _)
  · exact List.Sublist.refl _

theorem pairCountAll_sublist {α : Type} {left right : List (Bracketed α)}
    (h : left.Sublist right) : pairCountAll left ≤ pairCountAll right := by
  induction h with
  | slnil => exact Nat.le_refl _
  | cons tree _ ih => simp only [pairCountAll]; omega
  | cons_cons tree _ ih => simp only [pairCountAll]; omega

namespace Call

theorem pairCount_trimFront (items : List Tree) :
    pairCountAll (trimFront items) = pairCountAll items := by
  unfold trimFront
  split <;> simp [pairCountAll, pairCount]

theorem pairCount_slotsOfRun (run : List Char) :
    pairCountAll ((slotsOfRun run).filterMap id) = 0 := by
  unfold slotsOfRun
  induction (splitUnescaped (· == ';') none true run).filter (· != []) with
  | nil => rfl
  | cons part parts ih =>
    simp only [List.map_cons]
    split
    · simpa using ih
    · simpa [pairCountAll, pairCount] using ih

theorem pairCount_slots (items : List Tree) :
    pairCountAll ((slots items).filterMap id) = pairCountAll items := by
  induction items with
  | nil => rfl
  | cons item rest ih =>
    cases item with
    | free run =>
      simp only [slots, List.flatMap_cons, List.filterMap_append, pairCountAll_append] at ih ⊢
      rw [ih, pairCount_slotsOfRun]
      simp [pairCountAll, pairCount]
    | nested children =>
      simp only [slots, List.flatMap_cons, List.filterMap_append, pairCountAll_append] at ih ⊢
      rw [ih]
      simp [pairCountAll]

theorem pairCount_splitArguments (items : List Tree) :
    pairCountAll (splitArguments items).flatten ≤ pairCountAll items := by
  have shrunk : ∀ parts : List (List Slot),
      pairCountAll (parts.map fun part => trimFront (mergeFree (part.filterMap id))).flatten =
        pairCountAll (parts.flatten.filterMap id) := by
    intro parts
    induction parts with
    | nil => rfl
    | cons part parts ih =>
      simp only [List.map_cons, List.flatten_cons, List.filterMap_append, pairCountAll_append, ih,
        pairCount_trimFront, pairCountAll_mergeFree]
  unfold splitArguments
  rw [shrunk]
  refine Nat.le_trans (pairCountAll_sublist ?_) (Nat.le_of_eq (pairCount_slots items))
  exact (splitItems_flatten_sublist _ _ _).filterMap _

theorem pairCount_readBlock (depth : Int) (items : List Tree) :
    pairCountAll (readBlock depth items).2 ≤ pairCountAll items := by
  induction items generalizing depth with
  | nil => simp [readBlock, pairCountAll]
  | cons item rest ih =>
    cases item with
    | nested children =>
      have h := ih depth
      simp only [readBlock, pairCountAll]
      omega
    | free run =>
      simp only [readBlock]
      split
      · simp [pairCountAll]
      · simp [pairCountAll, pairCount]
      · rename_i reached _
        have h := ih reached
        simp only [pairCountAll]
        omega

theorem pairCount_segments {items : List Tree} {pending : Pending} (h : read items = .ok pending) :
    pairCountAll pending.segments.flatten ≤ pairCountAll items := by
  unfold read at h
  split at h
  · cases h
  · split at h
    · rename_i run rest _
      simp only [ofHeader] at h
      split at h
      · cases h
      · split at h
        · cases h
          refine Nat.le_trans (pairCount_splitArguments _)
            (Nat.le_trans (pairCount_readBlock _ _) ?_)
          rename_i cut hb
          rw [hb]
          simp only [List.cons_append, pairCountAll, pairCount, pairCountAll_append]
          split <;> simp [pairCountAll, pairCount]
        · cases h
          refine Nat.le_trans (pairCount_splitArguments _) ?_
          simp [pairCountAll]
        · cases h
          refine Nat.le_trans (pairCount_splitArguments _) ?_
          simp only [pairCountAll, pairCount, pairCountAll_append]
          split
          · simp only [pairCountAll, pairCount]
            split <;> simp [pairCountAll, pairCount]
          · simp [pairCountAll]
    · cases h

end Call

end BracketMarkup
