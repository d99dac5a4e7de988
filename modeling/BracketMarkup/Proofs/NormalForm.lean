import BracketMarkup.Proofs.Reading
import Mathlib.Data.List.Chain

namespace BracketMarkup

open Bracketed Call

/-- A text that is empty or ends in something else than a blank. -/
def EndsDark (s : List Char) : Prop := ∀ c, s.getLast? = some c → isBlank c = false

structure Head.Normal (head : Head) : Prop where
  named : head.name ≠ []
  attributes : ∀ entry ∈ head.attributes, EndsDark entry.1 ∧ EndsDark entry.2

inductive Node.Normal : Node → Prop where
  | text {content : List Char} : content ≠ [] → Node.Normal (.text content)
  | call {head : Head} {arguments : List Node} : head.Normal →
      (∀ argument ∈ arguments, Node.Normal argument) → Node.Normal (.call head arguments)

def Node.isText : Node → Bool
  | .text _ => true
  | .call _ _ => false

structure MetadataNormal (key value : List Char) : Prop where
  keyed : key ≠ []
  keyDark : ∀ c ∈ key, isBlank c = false
  valued : ∃ first more, value = first :: more ∧ isBlank first = false
  unbroken : '\n' ∉ value

/-- The documents that texts are read as. Keys of metadata do not repeat. -/
structure Document.Normal (document : Document) : Prop where
  nodes : ∀ node ∈ document.nodes, node.Normal
  apart : document.nodes.IsChain fun node next => ¬ (node.isText = true ∧ next.isText = true)
  metadata : ∀ pair ∈ document.metadata, MetadataNormal pair.1 pair.2
  distinct : (document.metadata.map Prod.fst).Nodup

theorem getLast?_unescape (s : List Char) : (unescape s).getLast? = s.getLast? := by
  rw [unescape]
  induction s using scan_induction with
  | empty => rfl
  | bare => rfl
  | escaped c rest ih =>
    rw [scan_escaped_cons]
    cases rest with
    | nil => rfl
    | cons d rest =>
      rw [List.map_cons, List.getLast?_cons, ih]
      simp [List.getLast?_cons]
  | plain c rest plain ih =>
    rw [scan_plain_cons plain]
    rw [List.map_cons, List.getLast?_cons, ih, List.getLast?_cons]

theorem endsDark_trim (s : List Char) : EndsDark (unescape (trim s)) := by
  intro c last
  rw [getLast?_unescape, trim, trimEnd, List.getLast?_reverse] at last
  have stops := List.head?_dropWhile_not isBlank (trimStart s).reverse
  rw [last] at stops
  exact stops

theorem attributes_endDark {block : List Char} {entry : List Char × List Char}
    (member : entry ∈ attributes block) : EndsDark entry.1 ∧ EndsDark entry.2 := by
  obtain ⟨written, -, found⟩ := List.mem_filterMap.mp member
  obtain ⟨cut, -, rfl⟩ := Option.map_eq_some_iff.mp found
  exact ⟨endsDark_trim cut.before, endsDark_trim cut.after⟩

theorem ofHeader_normal {header : List Char} {rest : List Tree} {pending : Pending}
    (h : ofHeader header rest = .ok pending) : pending.head.Normal := by
  simp only [ofHeader] at h
  split at h
  · cases h
  · rename_i named
    have nonempty := mt unescape_eq_nil.mp named
    split at h
    · cases h
      exact ⟨nonempty, fun entry member => attributes_endDark member⟩
    · cases h
      exact ⟨nonempty, by simp⟩
    · cases h
      exact ⟨nonempty, by simp⟩

theorem read_normal {children : List Tree} {pending : Pending} (h : read children = .ok pending) :
    pending.head.Normal := by
  unfold Call.read at h
  split at h
  · cases h
  · split at h
    · exact ofHeader_normal h
    · cases h

theorem ofTrees_normal {items : List Tree} {nodes : List Node} (h : Node.ofTrees items = .ok nodes) :
    ∀ node ∈ nodes, node.Normal := by
  induction items using Node.ofTrees.induct generalizing nodes with
  | case1 =>
    rw [Node.ofTrees] at h
    cases h
    simp
  | case2 run rest ih =>
    rw [ofTrees_free] at h
    cases behind : Node.ofTrees rest with
    | error fault => rw [behind] at h; cases h
    | ok following =>
      rw [behind] at h
      cases h
      intro node member
      split at member
      · exact ih behind node member
      · rename_i filled
        rcases List.mem_cons.mp member with rfl | member
        · exact .text filled
        · exact ih behind node member
  | case3 children rest fault failed =>
    obtain ⟨pending, arguments, following, header, -⟩ := ofTrees_nested_ok_iff.mp h
    rw [failed] at header
    cases header
  | case4 children rest pending header ihArguments ihRest =>
    obtain ⟨other, arguments, following, sameHeader, built, behind, rfl⟩ := ofTrees_nested_ok_iff.mp h
    rw [header] at sameHeader
    cases sameHeader
    intro node member
    rcases List.mem_cons.mp member with rfl | member
    · exact .call (read_normal header) (ihArguments built)
    · exact ihRest behind node member

def isFree : Tree → Bool
  | free _ => true
  | nested _ => false

def RunsApart (items : List Tree) : Prop :=
  items.IsChain fun item next => ¬ (isFree item = true ∧ isFree next = true)

theorem pack_runsApart (gs : List Glyph) : RunsApart (pack gs) := by
  induction gs with
  | nil => exact .nil
  | cons g gs ih =>
    rw [pack_cons]
    cases g with
    | pair children => exact List.isChain_cons.mpr ⟨by simp [isFree], ih⟩
    | char p =>
      rw [consGlyph_char]
      cases shape : pack gs with
      | nil => exact .singleton _
      | cons item rest =>
        rw [shape] at ih
        cases item with
        | free run =>
          obtain ⟨next, later⟩ := List.isChain_cons.mp ih
          exact List.isChain_cons.mpr ⟨fun item starts => next item starts, later⟩
        | nested children => exact List.isChain_cons.mpr ⟨by simp [isFree], ih⟩

theorem ofTrees_apart {items : List Tree} {nodes : List Node} (h : Node.ofTrees items = .ok nodes)
    (runsApart : RunsApart items) :
    (nodes.IsChain fun node next => ¬ (node.isText = true ∧ next.isText = true)) ∧
      ∀ node ∈ nodes.head?, node.isText = true → ∃ item ∈ items.head?, isFree item = true := by
  induction items generalizing nodes with
  | nil =>
    rw [Node.ofTrees] at h
    cases h
    exact ⟨.nil, by simp⟩
  | cons item rest ih =>
    obtain ⟨next, later⟩ := List.isChain_cons.mp runsApart
    cases item with
    | free run =>
      refine ⟨?_, fun _ _ _ => ⟨free run, rfl, rfl⟩⟩
      rw [ofTrees_free] at h
      cases behind : Node.ofTrees rest with
      | error fault => rw [behind] at h; cases h
      | ok following =>
        rw [behind] at h
        cases h
        obtain ⟨chain, starts⟩ := ih behind later
        split
        · exact chain
        · refine List.isChain_cons.mpr ⟨?_, chain⟩
          rintro node first ⟨-, isText⟩
          obtain ⟨item, second, isRun⟩ := starts node first isText
          exact next item second ⟨rfl, isRun⟩
    | nested children =>
      obtain ⟨pending, arguments, following, -, -, behind, rfl⟩ := ofTrees_nested_ok_iff.mp h
      refine ⟨List.isChain_cons.mpr ⟨by simp [Node.isText], (ih behind later).1⟩, ?_⟩
      intro node first isText
      cases first
      cases isText

theorem mem_assign {bindings : Bindings} {key value : List Char} {pair : List Char × List Char}
    (member : pair ∈ Bindings.assign key value bindings) : pair = (key, value) ∨ pair ∈ bindings := by
  induction bindings with
  | nil => simpa [Bindings.assign] using member
  | cons binding rest ih =>
    obtain ⟨bound, old⟩ := binding
    rw [Bindings.assign] at member
    split at member
    · rename_i same
      subst same
      rcases List.mem_cons.mp member with rfl | member
      · exact .inl rfl
      · exact .inr (List.mem_cons_of_mem _ member)
    · rcases List.mem_cons.mp member with rfl | member
      · exact .inr (by simp)
      · exact (ih member).imp_right (List.mem_cons_of_mem _)

theorem mem_keys_assign {bindings : Bindings} {key value other : List Char}
    (member : other ∈ (Bindings.assign key value bindings).map Prod.fst) :
    other = key ∨ other ∈ bindings.map Prod.fst := by
  obtain ⟨pair, found, rfl⟩ := List.mem_map.mp member
  rcases mem_assign found with rfl | found
  · exact .inl rfl
  · exact .inr (List.mem_map_of_mem found)

theorem nodup_assign {bindings : Bindings} (key value : List Char)
    (h : (bindings.map Prod.fst).Nodup) :
    ((Bindings.assign key value bindings).map Prod.fst).Nodup := by
  induction bindings with
  | nil => simp [Bindings.assign]
  | cons binding rest ih =>
    obtain ⟨bound, old⟩ := binding
    obtain ⟨fresh, later⟩ := List.nodup_cons.mp h
    rw [Bindings.assign]
    split
    · exact List.nodup_cons.mpr ⟨fresh, later⟩
    · rename_i other
      refine List.nodup_cons.mpr ⟨fun member => ?_, ih later⟩
      rcases mem_keys_assign member with same | member
      · exact other same
      · exact fresh member

theorem override_invariant {p : List Char × List Char → Prop} {bindings newer : Bindings}
    (old : ∀ pair ∈ bindings, p pair) (new : ∀ pair ∈ newer, p pair)
    (distinct : (bindings.map Prod.fst).Nodup) :
    (∀ pair ∈ bindings.override newer, p pair) ∧
      ((bindings.override newer).map Prod.fst).Nodup := by
  induction newer generalizing bindings with
  | nil => exact ⟨old, distinct⟩
  | cons binding rest ih =>
    refine ih ?_ (fun pair member => new pair (List.mem_cons_of_mem _ member))
      (nodup_assign _ _ distinct)
    intro pair member
    rcases mem_assign member with rfl | member
    · exact new _ (by simp)
    · exact old pair member

theorem metadataNormal_of_line {key value line : List Char}
    (h : metadataPair? line = some (key, value)) : MetadataNormal key value := by
  obtain ⟨⟨gap, wide, first, more, -, valued, -, keyed, keyDark, -, -, dark⟩, unbroken⟩ :=
    line_of_metadataPair? h
  exact ⟨keyed, keyDark, ⟨first, more, valued, dark⟩, unbroken⟩

theorem parse_normal {text : List Char} {document : Document}
    (h : Document.parse text = .ok document) : document.Normal := by
  rw [parse_of_wellHeaded (wellHeaded_of_parse h)] at h
  have pairs : ∀ pair ∈ (logicalLines text).filterMap metadataPair?,
      MetadataNormal pair.1 pair.2 := by
    intro pair member
    obtain ⟨line, -, found⟩ := List.mem_filterMap.mp member
    exact metadataNormal_of_line found
  have metadata := override_invariant (fun pair member => absurd member List.not_mem_nil) pairs
    List.nodup_nil
  -- Only a text whose brackets match is read.
  rcases groupText_cases (bodyOf text) with
    ⟨tokens, -, grouped⟩ | ⟨-, grouped⟩ | ⟨excess, -, grouped⟩ <;> rw [grouped] at h
  · change (Node.ofTrees (treesOf tokens)).map _ = _ at h
    cases read : Node.ofTrees (treesOf tokens) with
    | error fault => rw [read] at h; cases h
    | ok nodes =>
      rw [read] at h
      cases h
      refine ⟨ofTrees_normal read, ?_, metadata.1, metadata.2⟩
      rw [treesOf_eq_pack] at read
      exact (ofTrees_apart read (pack_runsApart _)).1
  · cases h
  · cases h

end BracketMarkup
