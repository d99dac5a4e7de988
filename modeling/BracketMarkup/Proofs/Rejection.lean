import BracketMarkup.Proofs.Calls

namespace BracketMarkup

open Bracketed Call

def ClosesTooMuch (text : List Char) : Prop :=
  ∃ front, front <+: scan text ∧ front.countP opens < front.countP closes

/-- The errors that texts are rejected with. An earlier reason hides the later ones. -/
inductive Rejected (text : List Char) : ParseError → Prop where
  | badMetadata {before after : List (List Char)} {line : List Char} :
      logicalLines text = before ++ line :: after → (∀ other ∈ before, ¬ Malformed other) →
      Malformed line → Rejected text (.badMetadata (before.length + 1) line)
  | unopened : WellHeaded text → ClosesTooMuch (bodyOf text) → Rejected text .unopened
  | unclosed {excess : Nat} : WellHeaded text → ¬ ClosesTooMuch (bodyOf text) → 0 < excess →
      (scan (bodyOf text)).countP opens = (scan (bodyOf text)).countP closes + excess →
      Rejected text (.unclosed excess)
  | badCall {tokens call : List Token} {before after : List (List Token)} {fault : ParseError} :
      WellHeaded text → Balanced tokens (scan (bodyOf text)) →
      callsIn .arguments tokens = before ++ call :: after →
      (∀ other ∈ before, callFault? other = none) → callFault? call = some fault →
      Rejected text fault

def Accepted (text : List Char) : Prop :=
  WellHeaded text ∧ ∃ tokens, Balanced tokens (scan (bodyOf text)) ∧
    ∀ call ∈ callsIn .arguments tokens, callFault? call = none

theorem isCloser_opens_closes : isCloser opens closes = closes := by
  funext p
  by_cases closing : p = ⟨false, ']'⟩
  · subst closing
    rfl
  · simp [isCloser, closes, closing]

theorem overclosed_iff (text : List Char) :
    Overclosed opens closes (scan text) ↔ ClosesTooMuch text := by
  rw [Overclosed, isCloser_opens_closes]
  rfl

theorem errorOf_of_balanced {text : List Char} {tokens : List Token} (headed : WellHeaded text)
    (h : Balanced tokens (scan (bodyOf text))) :
    errorOf (Document.parse text) = (callsIn .arguments tokens).findSome? callFault? := by
  rw [parse_of_wellHeaded headed, groupText_of_balanced h,
    ← errorOf_ofTrees_treesOf h (bareMark_notMem_scan _)]
  change errorOf ((Node.ofTrees (treesOf tokens)).map _) = _
  cases Node.ofTrees (treesOf tokens) <;> rfl

theorem parse_of_rejected {text : List Char} {fault : ParseError} (h : Rejected text fault) :
    Document.parse text = .error fault := by
  cases h with
  | badMetadata lines none malformed =>
    rw [Document.parse, separate_error lines none malformed]
    rfl
  | unopened headed closed =>
    rw [parse_of_wellHeaded headed,
      groupText_error ((group_closer_iff _).mpr ((overclosed_iff _).mpr closed))]
    rfl
  | @unclosed excess headed closed positive counts =>
    have notOverclosed : ¬ Overclosed opens closes (scan (bodyOf text)) := by rwa [overclosed_iff]
    rw [← isCloser_opens_closes] at counts
    rw [parse_of_wellHeaded headed,
      groupText_error ((group_openers_iff _ _).mpr ⟨notOverclosed, positive, counts⟩)]
    rfl
  | badCall headed balanced calls none found =>
    rw [← errorOf_eq_some_iff, errorOf_of_balanced headed balanced, calls, List.findSome?_append,
      List.findSome?_eq_none_iff.mpr none, List.findSome?_cons, found]
    rfl

theorem parse_of_accepted {text : List Char} (h : Accepted text) :
    ∃ document, Document.parse text = .ok document := by
  obtain ⟨headed, tokens, balanced, faultless⟩ := h
  rw [← errorOf_eq_none_iff, errorOf_of_balanced headed balanced]
  exact List.findSome?_eq_none_iff.mpr faultless

theorem rejected_or_accepted (text : List Char) : (∃ fault, Rejected text fault) ∨ Accepted text := by
  rcases first_or_none Malformed (logicalLines text) with headed | ⟨before, line, after, lines, none, found⟩
  · rcases groupText_cases (bodyOf text) with
      ⟨tokens, balanced, -⟩ | ⟨closed, -⟩ | ⟨excess, ⟨closed, positive, counts⟩, -⟩
    · rcases first_or_none (fun call => callFault? call ≠ none) (callsIn .arguments tokens) with
        faultless | ⟨before, call, after, calls, none, found⟩
      · exact .inr ⟨headed, tokens, balanced, fun call member => not_not.mp (faultless call member)⟩
      · obtain ⟨fault, shown⟩ := Option.ne_none_iff_exists'.mp found
        exact .inl ⟨fault, .badCall headed balanced calls
          (fun other member => not_not.mp (none other member)) shown⟩
    · exact .inl ⟨_, .unopened headed ((overclosed_iff _).mp closed)⟩
    · rw [overclosed_iff] at closed
      rw [isCloser_opens_closes] at counts
      exact .inl ⟨_, .unclosed headed closed positive counts⟩
  · exact .inl ⟨_, .badMetadata lines none found⟩

/-- Reading a text fails with the error that it is rejected with, and gives a document otherwise. -/
theorem parse_fails_iff_rejected (text : List Char) :
    (∀ fault, Document.parse text = .error fault ↔ Rejected text fault) ∧
      ((∃ document, Document.parse text = .ok document) ↔ Accepted text) := by
  constructor
  · intro fault
    refine ⟨fun failed => ?_, parse_of_rejected⟩
    rcases rejected_or_accepted text with ⟨other, rejected⟩ | accepted
    · have same := parse_of_rejected rejected
      rw [failed] at same
      cases same
      exact rejected
    · obtain ⟨document, parsed⟩ := parse_of_accepted accepted
      rw [failed] at parsed
      cases parsed
  · refine ⟨fun ⟨document, parsed⟩ => ?_, parse_of_accepted⟩
    rcases rejected_or_accepted text with ⟨fault, rejected⟩ | accepted
    · rw [parse_of_rejected rejected] at parsed
      cases parsed
    · exact accepted

end BracketMarkup
