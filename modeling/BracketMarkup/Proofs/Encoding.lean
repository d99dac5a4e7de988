import BracketMarkup.Proofs.NormalForm

namespace BracketMarkup

open Bracketed Call

def quoted (s : List Char) : List Scanned := s.map fun c => ⟨true, c⟩

def spaced (s : List Char) : List Scanned := s.map fun c => ⟨c != ' ', c⟩

def plain (c : Char) : Scanned := ⟨false, c⟩

def guard : Scanned := ⟨true, ' '⟩

def headPairs (head : Head) : List Scanned :=
  (match head.backend with
    | some backend => quoted backend ++ [plain '@']
    | none => []) ++ quoted head.name

def entryPairs (entry : List Char × List Char) : List Scanned :=
  quoted entry.1 ++ plain '=' :: quoted entry.2

def blockPairs (entries : List (List Char × List Char)) : List Scanned :=
  (entries.map entryPairs).flatMap (· ++ [plain ';'])

def headerPairs (head : Head) : List Scanned :=
  headPairs head ++ plain '\x7b' :: (blockPairs head.attributes ++ [plain '\x7d'])

mutual

def tokensOf : Node → List Token
  | .text content => (spaced content).map free
  | .call head arguments => [nested ((headerPairs head).map free ++ argumentTokens arguments)]

def argumentTokens : List Node → List Token
  | [] => []
  | argument :: rest =>
    free guard :: (tokensOf argument ++ free (plain ';') :: argumentTokens rest)

end

def Written (p : Scanned) : Prop :=
  p.escaped = true ∨ p.char ∈ ['[', ']', '\x7b', '\x7d', '=', ';', '@', ' ']

theorem map_char_quoted (s : List Char) : (quoted s).map (·.char) = s := by
  rw [quoted, List.map_map]
  exact List.map_id' s

theorem map_char_spaced (s : List Char) : (spaced s).map (·.char) = s := by
  rw [spaced, List.map_map]
  exact List.map_id' s

theorem escaped_of_mem_quoted {s : List Char} {p : Scanned} (h : p ∈ quoted s) : p.escaped = true := by
  obtain ⟨c, -, rfl⟩ := List.mem_map.mp h
  rfl

theorem plain_notMem_quoted (c : Char) (s : List Char) : plain c ∉ quoted s :=
  fun member => absurd (escaped_of_mem_quoted member) Bool.false_ne_true

theorem space_or_escaped_of_mem_spaced {s : List Char} {p : Scanned} (h : p ∈ spaced s) :
    p = plain ' ' ∨ p.escaped = true ∧ p.char ≠ ' ' := by
  obtain ⟨c, -, rfl⟩ := List.mem_map.mp h
  by_cases space : c = ' '
  · exact .inl (by simp [space, plain])
  · exact .inr ⟨by simpa using space, space⟩

theorem mem_blockPairs {entries : List (List Char × List Char)} {p : Scanned}
    (h : p ∈ blockPairs entries) : p.escaped = true ∨ p = plain '=' ∨ p = plain ';' := by
  obtain ⟨part, found, member⟩ := List.mem_flatMap.mp h
  obtain ⟨entry, -, rfl⟩ := List.mem_map.mp found
  rcases List.mem_append.mp member with member | member
  · rcases List.mem_append.mp member with member | member
    · exact .inl (escaped_of_mem_quoted member)
    · rcases List.mem_cons.mp member with rfl | member
      · exact .inr (.inl rfl)
      · exact .inl (escaped_of_mem_quoted member)
  · exact .inr (.inr (List.mem_singleton.mp member))

theorem mem_headPairs {head : Head} {p : Scanned} (h : p ∈ headPairs head) :
    p.escaped = true ∨ p = plain '@' := by
  rcases List.mem_append.mp h with member | member
  · cases shape : head.backend with
    | none => simp [shape] at member
    | some backend =>
      rw [shape] at member
      rcases List.mem_append.mp member with member | member
      · exact .inl (escaped_of_mem_quoted member)
      · exact .inr (List.mem_singleton.mp member)
  · exact .inl (escaped_of_mem_quoted member)

theorem written_headerPairs {head : Head} {p : Scanned} (h : p ∈ headerPairs head) :
    Written p ∧ opens p = false ∧ closes p = false := by
  have escapedCase : p.escaped = true → Written p ∧ opens p = false ∧ closes p = false := by
    intro escaped
    obtain ⟨e, c⟩ := p
    cases escaped
    exact ⟨.inl rfl, by simp [opens], by simp [closes]⟩
  rcases List.mem_append.mp h with member | member
  · rcases mem_headPairs member with escaped | rfl
    · exact escapedCase escaped
    · exact ⟨.inr (by decide), by decide, by decide⟩
  · rcases List.mem_cons.mp member with rfl | member
    · exact ⟨.inr (by decide), by decide, by decide⟩
    · rcases List.mem_append.mp member with member | member
      · rcases mem_blockPairs member with escaped | rfl | rfl
        · exact escapedCase escaped
        · exact ⟨.inr (by decide), by decide, by decide⟩
        · exact ⟨.inr (by decide), by decide, by decide⟩
      · rw [List.mem_singleton.mp member]
        exact ⟨.inr (by decide), by decide, by decide⟩

theorem balanced_free {pairs : List Scanned} (h : ∀ p ∈ pairs, opens p = false ∧ closes p = false) :
    Balanced (pairs.map free) pairs := by
  induction pairs with
  | nil => exact .nil
  | cons p pairs ih =>
    obtain ⟨notOpen, notClose⟩ := h p (by simp)
    exact .free notOpen notClose (ih fun q member => h q (List.mem_cons_of_mem _ member))

/-- The tokens can be written, with brackets in pairs. -/
def Spellable (tokens : List Token) : Prop := ∃ pairs, Balanced tokens pairs ∧ ∀ p ∈ pairs, Written p

theorem Spellable.append {left right : List Token} (h : Spellable left) (k : Spellable right) :
    Spellable (left ++ right) := by
  obtain ⟨first, balanced, written⟩ := h
  obtain ⟨second, balanced', written'⟩ := k
  refine ⟨first ++ second, balanced.append balanced', fun p member => ?_⟩
  rcases List.mem_append.mp member with member | member
  · exact written p member
  · exact written' p member

theorem spellable_free {pairs : List Scanned}
    (h : ∀ p ∈ pairs, Written p ∧ opens p = false ∧ closes p = false) : Spellable (pairs.map free) :=
  ⟨pairs, balanced_free fun p member => (h p member).2, fun p member => (h p member).1⟩

theorem spellable_char {p : Scanned} (written : Written p) (notOpen : opens p = false)
    (notClose : closes p = false) {tokens : List Token} (h : Spellable tokens) :
    Spellable (free p :: tokens) := by
  have first : Spellable ([p].map free) :=
    spellable_free fun q member => by rw [List.mem_singleton.mp member]; exact ⟨written, notOpen, notClose⟩
  exact first.append h

theorem Spellable.nested {children : List Token} (h : Spellable children) :
    Spellable [nested children] := by
  obtain ⟨inner, balanced, written⟩ := h
  refine ⟨⟨false, '['⟩ :: (inner ++ [⟨false, ']'⟩]), .nested rfl rfl rfl balanced .nil, ?_⟩
  intro p member
  rcases List.mem_cons.mp member with rfl | member
  · exact .inr (by decide)
  · rcases List.mem_append.mp member with member | member
    · exact written p member
    · rw [List.mem_singleton.mp member]
      exact .inr (by decide)

theorem spellable_argumentTokens {arguments : List Node}
    (h : ∀ argument ∈ arguments, Spellable (tokensOf argument)) :
    Spellable (argumentTokens arguments) := by
  induction arguments with
  | nil => exact ⟨[], .nil, by simp⟩
  | cons argument rest ih =>
    have later := ih fun other member => h other (List.mem_cons_of_mem _ member)
    rw [argumentTokens]
    refine spellable_char (.inl rfl) rfl rfl ((h argument (by simp)).append ?_)
    exact spellable_char (.inr (by decide)) rfl rfl later

theorem spellable_tokensOf {node : Node} (h : node.Normal) : Spellable (tokensOf node) := by
  induction h with
  | @text content filled =>
    rw [tokensOf]
    refine spellable_free fun p member => ?_
    rcases space_or_escaped_of_mem_spaced member with rfl | ⟨escaped, -⟩
    · exact ⟨.inr (by decide), rfl, rfl⟩
    · obtain ⟨e, c⟩ := p
      cases escaped
      exact ⟨.inl rfl, by simp [opens], by simp [closes]⟩
  | call _ _ ih =>
    rw [tokensOf]
    exact ((spellable_free fun p member => written_headerPairs member).append
      (spellable_argumentTokens ih)).nested

theorem spellable_flatMap {nodes : List Node} (h : ∀ node ∈ nodes, node.Normal) :
    Spellable (nodes.flatMap tokensOf) := by
  induction nodes with
  | nil => exact ⟨[], .nil, by simp⟩
  | cons node rest ih =>
    rw [List.flatMap_cons]
    exact (spellable_tokensOf (h node (by simp))).append
      (ih fun other member => h other (List.mem_cons_of_mem _ member))

theorem written_ne_bareMark {pairs : List Scanned} (h : ∀ p ∈ pairs, Written p) : bareMark ∉ pairs := by
  intro member
  rcases h bareMark member with escaped | structural
  · cases escaped
  · exact absurd structural (by decide)

end BracketMarkup
