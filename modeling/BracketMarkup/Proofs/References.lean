import BracketMarkup.Proofs.Readback
import BracketMarkup.Proofs.Signs

namespace BracketMarkup.Template

variable {σ : Type}

/-- A text in which delimiters are in pairs and whose end takes no character along that follows it. -/
structure Paired (opener closer : Char) (text : List Char) : Prop where
  ends : Ends opener closer 0 (scan text)
  complete : bareMark ∉ scan text

theorem encloses_iff_paired {opener closer : Char} (plain : closer ≠ escapeMark)
    (text rest : List Char) :
    Encloses opener closer (text ++ closer :: rest) text rest ↔ Paired opener closer text := by
  constructor
  · rintro ⟨pairs, tail, scanned, ends, rfl, -⟩
    have complete : bareMark ∉ pairs := by
      intro member
      have inner := bareMark_notMem_scan (restore pairs ++ closer :: rest)
      rw [scanned, List.dropLast_append_cons] at inner
      exact inner (List.mem_append_left _ member)
    rw [← scan_restore complete] at ends complete
    exact ⟨ends, complete⟩
  · rintro ⟨ends, complete⟩
    refine ⟨scan text, scan rest, ?_, ends, ?_, ?_⟩
    · rw [scan_append_of_complete complete, scan_plain_cons plain]
    · rw [restore_scan]
    · rw [restore_scan]

/-- A reference to the variable whose name stands between the braces. -/
def reference (written : List Char) : List Char :=
  variableReference.trigger.text ++ (written ++ ['\x7d'])

theorem replaceVariables_eq (bindings : Bindings) (text : List Char) :
    replaceVariables (σ := σ) bindings text =
      variableReference.replace (variableValue bindings) text := rfl

theorem replaceVariables_reference {bindings : Bindings} {written value : List Char}
    (paired : Paired '\x7b' '\x7d' written)
    (bound : bindings.value? (unescape written) = some value) (rest : List Char) :
    replaceVariables (σ := σ) bindings (reference written ++ rest) = do
      let tail ← replaceVariables bindings rest
      return value ++ tail := by
  have enclosed := (encloses_iff_paired (by decide) written rest).mpr paired
  obtain ⟨size, read, behind⟩ := (variableReference_reads.call (written ++ '\x7d' :: rest)
    (unescape written) rest).mp ⟨written, enclosed, rfl⟩
  have shape : reference written ++ rest =
      variableReference.trigger.text ++ (written ++ '\x7d' :: rest) := by
    simp [reference]
  rw [shape, replaceVariables_eq, replace_call _ _ read, behind, variableValue, bound, pure_bind]
  rfl

theorem paired_quoted {opener closer : Char} (name : List Char) :
    Paired opener closer (restore (quoted name)) := by
  have complete : bareMark ∉ quoted name := plain_notMem_quoted _ name
  have none : ∀ (front : List Scanned) c, front <+: quoted name → front.count ⟨false, c⟩ = 0 :=
    fun front c before => List.count_eq_zero.mpr fun member =>
      plain_notMem_quoted c name (before.subset member)
  refine ⟨?_, by rwa [scan_restore complete]⟩
  rw [scan_restore complete]
  refine ⟨?_, fun front before => ?_⟩
  · rw [none _ _ (List.prefix_refl _), none _ _ (List.prefix_refl _)]
  · rw [none _ _ before, none _ _ before]

theorem signsBefore_quoted {allowed : Char → Prop} (mark : allowed escapeMark)
    (brace : allowed '\x7d') (name : List Char) :
    SignsBefore allowed (restore (quoted name) ++ ['\x7d']) ∧
      ∀ c, SignsBefore allowed (c :: (restore (quoted name) ++ ['\x7d'])) := by
  induction name with
  | nil =>
    have last : SignsBefore allowed ['\x7d'] := .char (by decide) .nil
    refine ⟨last, fun c => ?_⟩
    by_cases sign : c = '%'
    · subst sign
      exact .sign brace (by decide) .nil
    · exact .char sign last
  | cons d rest ih =>
    have whole : SignsBefore allowed (restore (quoted (d :: rest)) ++ ['\x7d']) :=
      .char (by decide) (ih.2 d)
    refine ⟨whole, fun c => ?_⟩
    by_cases sign : c = '%'
    · subst sign
      exact .sign mark (by decide) (ih.2 d)
    · exact .char sign whole

end BracketMarkup.Template
