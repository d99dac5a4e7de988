import BracketMarkup.Proofs.Recovery
import BracketMarkup.Proofs.Signs

namespace BracketMarkup.Template

variable {σ : Type}

/-- What makes a percent sign in front of it the start of a block's body, or may take it away or part
    it from the sign when words are read. -/
def breaking : List Char := ['%', '(', escapeMark, '"']

/-- A text in which no percent sign stands before a breaking character. It has no block, and neither
    has what words are read from it. -/
def LoopFree (text : List Char) : Prop := text.IsChain fun c d => c = '%' → d ∉ breaking

instance : DecidablePred LoopFree :=
  fun text => inferInstanceAs (Decidable (text.IsChain fun c d => c = '%' → d ∉ breaking))

theorem loopFree_cons_iff {c : Char} {rest : List Char} : LoopFree (c :: rest) ↔
    (c = '%' → ∀ d, rest.head? = some d → d ∉ breaking) ∧ LoopFree rest := by
  refine List.isChain_cons.trans (and_congr_left' ?_)
  exact ⟨fun h sign d starts => h d starts sign, fun h d starts sign => h sign d starts⟩

theorem LoopFree.of_part {part text : List Char} (h : LoopFree text) (inside : part <:+: text) :
    LoopFree part :=
  List.IsChain.infix h inside

theorem LoopFree.tail {c : Char} {rest : List Char} (h : LoopFree (c :: rest)) : LoopFree rest :=
  (loopFree_cons_iff.mp h).2

def references : List Char → Nat
  | [] => 0
  | c :: rest => (if c = '%' ∧ rest.head? = some '\x7b' then 1 else 0) + references rest

/-- How long a text can get when each reference in it is replaced by a value of the given length. -/
def weight (size : Nat) (text : List Char) : Nat := text.length + size * references text

theorem references_le_cons (c : Char) (rest : List Char) :
    references rest ≤ references (c :: rest) := by
  rw [references]
  omega

theorem references_le_append (front rest : List Char) :
    references rest ≤ references (front ++ rest) := by
  induction front with
  | nil => exact Nat.le_refl _
  | cons c front ih => exact ih.trans (references_le_cons c _)

theorem references_append_le (front rest : List Char) :
    references front ≤ references (front ++ rest) := by
  induction front with
  | nil => exact Nat.zero_le _
  | cons c front ih =>
    rw [List.cons_append, references, references]
    have same : c = '%' ∧ front.head? = some '\x7b' →
        c = '%' ∧ (front ++ rest).head? = some '\x7b' := by
      rintro ⟨sign, brace⟩
      obtain ⟨behind, rfl⟩ := List.head?_eq_some_iff.mp brace
      exact ⟨sign, rfl⟩
    split
    · rename_i refers
      rw [if_pos (same refers)]
      omega
    · omega

theorem references_le_of_part {part text : List Char} (h : part <:+: text) :
    references part ≤ references text := by
  obtain ⟨front, rest, rfl⟩ := h
  exact (references_le_append front part).trans (references_append_le (front ++ part) rest)

theorem weight_lt_of_part {size : Nat} {part text : List Char} (h : part <:+: text)
    (shorter : part.length < text.length) : weight size part < weight size text := by
  have fewer := Nat.mul_le_mul_left size (references_le_of_part h)
  unfold weight
  omega

/-- A text that stands for a loop-free one: it has no loops either, weighs no more and begins with the
    same character, if that one is not breaking. -/
structure Lighter (size : Nat) (part text : List Char) : Prop where
  loopFree : LoopFree part
  weight : weight size part ≤ weight size text
  head : ∀ d, text.head? = some d → d ∉ breaking → part = [] ∨ part.head? = some d

namespace Lighter

variable {size : Nat} {part text : List Char}

theorem nil (text : List Char) : Lighter size [] text :=
  ⟨.nil, Nat.zero_le _, fun _ _ _ => .inl rfl⟩

theorem cons {c : Char} (h : Lighter size part text) (whole : LoopFree (c :: text)) :
    Lighter size (c :: part) (c :: text) := by
  -- What stands behind a percent sign still does, or nothing does.
  have same : c = '%' → ∀ d, part.head? = some d → text.head? = some d := by
    rintro rfl d starts
    cases text with
    | nil =>
      have light := h.weight
      obtain ⟨behind, rfl⟩ := List.head?_eq_some_iff.mp starts
      simp [Template.weight, references] at light
    | cons e text =>
      have other := (loopFree_cons_iff.mp whole).1 rfl e rfl
      rcases h.head e rfl other with none | other
      · rw [none] at starts
        cases starts
      · rw [← starts, other]
        rfl
  refine ⟨loopFree_cons_iff.mpr ⟨?_, h.loopFree⟩, ?_, fun d starts _ => .inr starts⟩
  · intro sign d starts
    exact (loopFree_cons_iff.mp whole).1 sign d (same sign d starts)
  · have light := h.weight
    have fewer : references (c :: part) + references text ≤
        references (c :: text) + references part := by
      rw [references, references]
      split
      · rename_i refers
        rw [if_pos ⟨refers.1, same refers.1 _ refers.2⟩]
        omega
      · omega
    have scaled := Nat.mul_le_mul_left size fewer
    rw [Nat.mul_add, Nat.mul_add] at scaled
    simp only [Template.weight, List.length_cons] at light ⊢
    omega

theorem skip {c : Char} (h : Lighter size part text) (breaks : c ∈ breaking) :
    Lighter size part (c :: text) := by
  refine ⟨h.loopFree, h.weight.trans ?_, ?_⟩
  · have more := Nat.mul_le_mul_left size (references_le_cons c text)
    simp only [Template.weight, List.length_cons]
    omega
  · rintro d starts other
    cases starts
    exact absurd breaks other

end Lighter

theorem readWords_lighter {size : Nat} (quoted : Bool) {pairs : List Scanned}
    (h : LoopFree (restore pairs)) :
    Lighter size ((readWords quoted pairs).current.getD []) (restore pairs) ∧
      ∀ word ∈ (readWords quoted pairs).later,
        LoopFree word ∧ weight size word ≤ weight size (restore pairs) := by
  have mark : escapeMark ∈ breaking := by decide
  induction pairs generalizing quoted with
  | nil => cases quoted <;> exact ⟨Lighter.nil _, fun word member => by cases member⟩
  | cons p rest ih =>
    have behind : LoopFree (restore rest) := h.of_part ⟨p.write, [], by simp [restore]⟩
    have lighter : ∀ word, weight size word ≤ weight size (restore rest) →
        weight size word ≤ weight size (restore (p :: rest)) := by
      intro word light
      refine light.trans ?_
      have more := Nat.mul_le_mul_left size (references_le_append p.write (restore rest))
      have shape : restore (p :: rest) = p.write ++ restore rest := rfl
      rw [shape, weight, weight, List.length_append]
      omega
    have kept : ∀ inside, ∀ word ∈ (readWords inside rest).later,
        LoopFree word ∧ weight size word ≤ weight size (restore (p :: rest)) := by
      intro inside word member
      obtain ⟨free, light⟩ := (ih inside behind).2 word member
      exact ⟨free, lighter word light⟩
    have current := fun inside => (ih inside behind).1
    obtain ⟨escaped, c⟩ := p
    rw [readWords]
    split
    · rename_i quote
      cases quote
      exact ⟨(current _).skip (by decide), kept _⟩
    · split
      · refine ⟨?_, kept _⟩
        cases escaped with
        | false => exact (current true).cons h
        | true => exact ((current true).cons h.tail).cons h
      · split
        · refine ⟨Lighter.nil _, fun word member => ?_⟩
          rcases List.mem_append.mp member with member | member
          · have first := current false
            rw [Option.mem_toList] at member
            rw [member, Option.getD_some] at first
            exact ⟨first.loopFree, lighter word first.weight⟩
          · exact kept false word member
        · refine ⟨?_, kept _⟩
          cases escaped with
          | false => exact (current false).cons h
          | true => exact ((current false).cons h.tail).skip mark

theorem splitWords_lighter {size : Nat} {arguments word : List Char} (h : LoopFree arguments)
    (member : word ∈ splitWords arguments) :
    LoopFree word ∧ weight size word ≤ weight size arguments := by
  have read := @readWords_lighter size false (scan arguments)
  rw [restore_scan] at read
  obtain ⟨current, later⟩ := read h
  rcases List.mem_append.mp member with member | member
  · rw [Option.mem_toList] at member
    rw [member, Option.getD_some] at current
    exact ⟨current.loopFree, current.weight⟩
  · exact later word member

end BracketMarkup.Template
