import BracketMarkup.Document.Reader
import BracketMarkup.Proofs.Grouping
import BracketMarkup.Proofs.Headers
import BracketMarkup.Proofs.Preamble

namespace BracketMarkup

open Bracketed Call

abbrev Token := Bracketed Scanned

def opens (p : Scanned) : Bool := p == ⟨false, '['⟩

def closes (p : Scanned) : Bool := p == ⟨false, ']'⟩

abbrev Balanced (tokens : List Token) (pairs : List Scanned) : Prop := Spells opens closes tokens pairs

def treesOf (tokens : List Token) : List Tree := mapAll restore (gather tokens)

def glyphOf : Token → Glyph
  | free p => .char p
  | nested children => .pair (treesOf children)

theorem mapAll_consFree (p : Scanned) (runs : List (Bracketed (List Scanned))) :
    mapAll restore (consFree p runs) = consRun p.write (mapAll restore runs) := by
  cases runs with
  | nil => simp [consFree, consRun, mapAll, map]
  | cons tree rest => cases tree <;> simp [consFree, consRun, mapAll, map]

theorem treesOf_eq_pack (tokens : List Token) : treesOf tokens = pack (tokens.map glyphOf) := by
  induction tokens with
  | nil => rfl
  | cons token rest ih =>
    rw [List.map_cons, pack_cons, ← ih]
    cases token with
    | free p => rw [glyphOf, consGlyph_char]; exact mapAll_consFree p (gather rest)
    | nested children => rfl

theorem Balanced.mem_of_free {tokens : List Token} {pairs : List Scanned} (h : Balanced tokens pairs)
    {p : Scanned} (member : free p ∈ tokens) : p ∈ pairs := by
  induction h with
  | nil => simp at member
  | free _ _ _ ih =>
    rcases List.mem_cons.mp member with same | member
    · cases same; simp
    · exact List.mem_cons_of_mem _ (ih member)
  | nested _ _ _ _ _ _ ih =>
    rcases List.mem_cons.mp member with same | member
    · cases same
    · simp [ih member]

theorem Balanced.clean {tokens : List Token} {pairs : List Scanned} (h : Balanced tokens pairs)
    (unmarked : bareMark ∉ pairs) : Clean (tokens.map glyphOf) := by
  intro member
  obtain ⟨token, found, shown⟩ := List.mem_map.mp member
  cases token with
  | free p =>
    cases shown
    exact unmarked (Balanced.mem_of_free h found)
  | nested children => cases shown

theorem groupText_of_balanced {tokens : List Token} {text : List Char}
    (h : Balanced tokens (scan text)) : groupText text = .ok (treesOf tokens) := by
  have grouped : group (· == ⟨false, '['⟩) (· == ⟨false, ']'⟩) (scan text) = .ok (gather tokens) :=
    group_of_spells h
  rw [groupText, grouped]
  rfl

theorem groupText_error {text : List Char} {fault : Unbalanced}
    (h : group opens closes (scan text) = .error fault) :
    groupText text = .error fault.toParseError := by
  have grouped : group (· == ⟨false, '['⟩) (· == ⟨false, ']'⟩) (scan text) = .error fault := h
  rw [groupText, grouped]

theorem groupText_cases (text : List Char) :
    (∃ tokens, Balanced tokens (scan text) ∧ groupText text = .ok (treesOf tokens)) ∨
      Overclosed opens closes (scan text) ∧ groupText text = .error .unopened ∨
      ∃ excess, (¬ Overclosed opens closes (scan text) ∧ 0 < excess ∧
        (scan text).countP opens = (scan text).countP (isCloser opens closes) + excess) ∧
        groupText text = .error (.unclosed excess) := by
  cases grouped : group opens closes (scan text) with
  | ok runs =>
    obtain ⟨tokens, balanced, -⟩ := spells_of_group grouped
    exact .inl ⟨tokens, balanced, groupText_of_balanced balanced⟩
  | error fault =>
    cases fault with
    | closer => exact .inr (.inl ⟨(group_closer_iff _).mp grouped, groupText_error grouped⟩)
    | openers excess =>
      exact .inr (.inr ⟨excess, (group_openers_iff _ _).mp grouped, groupText_error grouped⟩)

theorem ofTrees_free (run : List Char) (rest : List Tree) :
    Node.ofTrees (free run :: rest) = (Node.ofTrees rest).map fun nodes =>
      if unescape run = [] then nodes else .text (unescape run) :: nodes := by
  rw [Node.ofTrees]
  cases Node.ofTrees rest <;> rfl

theorem ofTrees_nested (children rest : List Tree) :
    Node.ofTrees (nested children :: rest) = do
      let pending ← read children
      let arguments ← pending.build
      let nodes ← Node.ofTrees rest
      return .call pending.head arguments :: nodes := by
  rw [Node.ofTrees]
  split <;> rename_i found <;> rw [found] <;> rfl

theorem ofTrees_nested_ok_iff {children rest : List Tree} {nodes : List Node} :
    Node.ofTrees (nested children :: rest) = .ok nodes ↔
      ∃ pending arguments following, read children = .ok pending ∧ pending.build = .ok arguments ∧
        Node.ofTrees rest = .ok following ∧ nodes = .call pending.head arguments :: following := by
  rw [ofTrees_nested]
  constructor
  · intro h
    cases header : read children with
    | error fault => rw [header] at h; cases h
    | ok pending =>
      cases built : pending.build with
      | error fault => simp only [header, built, Bind.bind, Except.bind] at h; cases h
      | ok arguments =>
        cases behind : Node.ofTrees rest with
        | error fault => simp only [header, built, behind, Bind.bind, Except.bind] at h; cases h
        | ok following =>
          simp only [header, built, behind, Bind.bind, Except.bind, Pure.pure, Except.pure] at h
          cases h
          exact ⟨pending, arguments, following, rfl, built, rfl, rfl⟩
  · rintro ⟨pending, arguments, following, header, built, behind, rfl⟩
    simp only [header, built, behind, Bind.bind, Except.bind, Pure.pure, Except.pure]

theorem ofTrees_append {left right : List Tree} {first second : List Node}
    (h : Node.ofTrees left = .ok first) (k : Node.ofTrees right = .ok second) :
    Node.ofTrees (left ++ right) = .ok (first ++ second) := by
  induction left generalizing first with
  | nil =>
    rw [Node.ofTrees] at h
    cases h
    exact k
  | cons item rest ih =>
    cases item with
    | free run =>
      rw [ofTrees_free] at h
      cases behind : Node.ofTrees rest with
      | error fault => rw [behind] at h; cases h
      | ok nodes =>
        rw [behind] at h
        cases h
        rw [List.cons_append, ofTrees_free, ih behind]
        simp only [Except.map]
        split <;> rfl
    | nested children =>
      obtain ⟨pending, arguments, following, header, built, behind, rfl⟩ := ofTrees_nested_ok_iff.mp h
      exact ofTrees_nested_ok_iff.mpr ⟨pending, arguments, _, header, built, ih behind, rfl⟩

def WellHeaded (text : List Char) : Prop := ∀ line ∈ logicalLines text, ¬ Malformed line

theorem first_or_none {α : Type} (p : α → Prop) (items : List α) :
    (∀ x ∈ items, ¬ p x) ∨
      ∃ before x after, items = before ++ x :: after ∧ (∀ y ∈ before, ¬ p y) ∧ p x := by
  induction items with
  | nil => exact .inl (by simp)
  | cons x rest ih =>
    by_cases holds : p x
    · exact .inr ⟨[], x, rest, rfl, by simp, holds⟩
    · rcases ih with none | ⟨before, y, after, rfl, none, found⟩
      · exact .inl (by simpa [holds] using none)
      · exact .inr ⟨x :: before, y, after, rfl, by simpa [holds] using none, found⟩

theorem parse_of_wellHeaded {text : List Char} (h : WellHeaded text) :
    Document.parse text = (groupText (bodyOf text) >>= Node.ofTrees).map
      fun nodes => ⟨Bindings.override [] ((logicalLines text).filterMap metadataPair?), nodes⟩ := by
  rw [Document.parse, separate_ok h, bodyOf]
  simp only [Except.mapError, Bind.bind, Except.bind]
  cases groupText (desugar (unlines ((logicalLines text).filterMap keptLine?))) with
  | error fault => rfl
  | ok trees =>
    simp only [Except.map]
    cases Node.ofTrees trees <;> rfl

theorem wellHeaded_of_parse {text : List Char} {document : Document}
    (h : Document.parse text = .ok document) : WellHeaded text := by
  rcases first_or_none Malformed (logicalLines text) with
    headed | ⟨before, line, after, lines, none, malformed⟩
  · exact headed
  · rw [Document.parse, separate_error lines none malformed] at h
    cases h

end BracketMarkup
