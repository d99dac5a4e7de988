namespace BracketMarkup

def textLe : List Char → List Char → Bool
  | [], _ => true
  | _ :: _, [] => false
  | c :: s, d :: t => if c = d then textLe s t else decide (c.toNat < d.toNat)

theorem textLe_total (s t : List Char) : textLe s t || textLe t s := by
  induction s generalizing t with
  | nil => simp [textLe]
  | cons c s ih =>
    cases t with
    | nil => simp [textLe]
    | cons d t =>
      by_cases same : c = d
      · subst same; simpa [textLe] using ih t
      · have differ : c.toNat ≠ d.toNat := fun h => same (Char.toNat_inj.mp h)
        simp only [textLe, same, Ne.symm same, if_false, Bool.or_eq_true, decide_eq_true_eq]
        omega

theorem textLe_trans {s t u : List Char} (first : textLe s t) (second : textLe t u) : textLe s u := by
  induction s generalizing t u with
  | nil => simp [textLe]
  | cons c s ih =>
    cases t with
    | nil => simp [textLe] at first
    | cons d t =>
      cases u with
      | nil => simp [textLe] at second
      | cons e u =>
        simp only [textLe] at first second ⊢
        split at first <;> split at second <;> split
        · exact ih first second
        · simp_all
        · simp_all
        · simp_all
        · simp_all
        · simp_all
        · rename_i h _ k
          simp only [decide_eq_true_eq] at first second
          subst k; omega
        · simp only [decide_eq_true_eq] at first second ⊢; omega

end BracketMarkup
