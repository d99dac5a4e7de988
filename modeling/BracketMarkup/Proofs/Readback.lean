import BracketMarkup.Proofs.Encoding

namespace BracketMarkup

open Bracketed Call

theorem splitItems_terminated {α : Type} {isSeparator : α → Bool} {separator : α}
    (separates : isSeparator separator = true) {parts : List (List α)}
    (h : ∀ part ∈ parts, ∀ x ∈ part, isSeparator x = false) :
    splitItems isSeparator none false (parts.flatMap (· ++ [separator])) = parts := by
  have cut : cuts isSeparator false none (parts.flatMap (· ++ [separator])) = parts ++ [[]] := by
    induction parts with
    | nil => rfl
    | cons part parts ih =>
      rw [List.flatMap_cons, List.append_assoc, cuts_append (h part (by simp)), List.singleton_append,
        cuts_separator separates, ih fun other member => h other (List.mem_cons_of_mem _ member)]
      simp
  rw [splitItems_unlimited, cut, dropEmptyEnd]
  simp

theorem unescape_quoted (s : List Char) : unescape (restore (quoted s)) = s := by
  rw [unescape_restore (plain_notMem_quoted _ s), map_char_quoted]

theorem not_unescaped {p : Scanned} (escaped : p.escaped = true) (wanted : Char → Bool) :
    isUnescaped wanted p = false := by
  simp [isUnescaped, escaped]

theorem kept_of_mem_quoted {s : List Char} {p : Scanned} (h : p ∈ quoted s) (wanted : Char → Bool) :
    (!isUnescaped wanted p) = true := by
  rw [not_unescaped (escaped_of_mem_quoted h)]
  rfl

/-- What is read of a text with an escape for every character: a blank at its end is trimmed away from
    behind its mark, which is then left alone. -/
def worn (s : List Char) : List Char :=
  if s.getLast?.any isBlank then s.dropLast ++ [escapeMark] else s

theorem worn_concat (front : List Char) (c : Char) :
    worn (front ++ [c]) = front ++ [if isBlank c then escapeMark else c] := by
  cases blank : isBlank c <;> simp [worn, blank]

theorem worn_eq_self_iff (s : List Char) : worn s = s ↔ EndsDark s := by
  rcases List.eq_nil_or_concat s with rfl | ⟨front, c, rfl⟩
  · exact ⟨fun _ c last => absurd last (by simp), fun _ => rfl⟩
  · have mark : isBlank escapeMark = false := by decide
    rw [List.concat_eq_append, worn_concat, List.append_cancel_left_eq]
    simp only [EndsDark, List.getLast?_concat, Option.some.injEq, forall_eq', List.cons.injEq, and_true]
    cases blank : isBlank c with
    | false => simp
    | true =>
      rw [if_pos rfl]
      refine iff_of_false (fun same => ?_) (by simp)
      rw [← same, mark] at blank
      cases blank

theorem unescape_trim_quoted (s : List Char) : unescape (trim (restore (quoted s))) = worn s := by
  have start : trimStart (restore (quoted s)) = restore (quoted s) := by
    rw [trimStart_restore]
    cases s <;> rfl
  rw [trim, start]
  rcases List.eq_nil_or_concat s with rfl | ⟨front, c, rfl⟩
  · rfl
  · have clean : bareMark ∉ quoted front := plain_notMem_quoted _ front
    have mark : isBlank escapeMark = false := by decide
    have shape : quoted (front ++ [c]) = quoted front ++ [⟨true, c⟩] := List.map_append
    rw [List.concat_eq_append, worn_concat, shape, restore_append, restore_escaped_concat]
    cases blank : isBlank c with
    | true =>
      rw [trimEnd_concat_blank _ blank, trimEnd_concat_dark _ mark, unescape_concat_escapeMark clean,
        map_char_quoted, if_pos rfl]
    | false =>
      rw [trimEnd_concat_dark _ blank, ← restore_escaped_concat, ← restore_append, ← shape,
        unescape_quoted]
      rfl

theorem bareMark_notMem_entryPairs (entry : List Char × List Char) : bareMark ∉ entryPairs entry := by
  intro member
  rcases List.mem_append.mp member with member | member
  · exact plain_notMem_quoted _ _ member
  · rcases List.mem_cons.mp member with same | member
    · exact absurd same (by decide)
    · exact plain_notMem_quoted _ _ member

theorem attribute?_entryPairs (entry : List Char × List Char) :
    attribute? (restore (entryPairs entry)) = some (worn entry.1, worn entry.2) := by
  have front : ∀ p ∈ quoted entry.1, (!isUnescaped (· == '=') p) = true :=
    fun p member => kept_of_mem_quoted member _
  have behind : (entryPairs entry).dropWhile (!isUnescaped (· == '=') ·) =
      plain '=' :: quoted entry.2 := by
    rw [entryPairs, List.dropWhile_append_of_pos front]
    rfl
  have before : (entryPairs entry).takeWhile (!isUnescaped (· == '=') ·) = quoted entry.1 := by
    rw [entryPairs, List.takeWhile_append_of_pos front]
    simp [isUnescaped, plain]
  rw [attribute?, cutFirst?_some (bareMark_notMem_entryPairs entry) behind, before]
  simp only [Option.map_some, unescape_trim_quoted]

theorem unseparated_entryPairs {entry : List Char × List Char} {p : Scanned} (member : p ∈ entryPairs entry) :
    isUnescaped (· == ';') p = false := by
  rcases List.mem_append.mp member with member | member
  · exact not_unescaped (escaped_of_mem_quoted member) _
  · rcases List.mem_cons.mp member with rfl | member
    · rfl
    · exact not_unescaped (escaped_of_mem_quoted member) _

theorem attributes_blockPairs {entries : List (List Char × List Char)}
    (h : ∀ entry ∈ entries, EndsDark entry.1 ∧ EndsDark entry.2) :
    attributes (restore (blockPairs entries)) = entries := by
  have clean : bareMark ∉ blockPairs entries := by
    intro member
    rcases mem_blockPairs member with escaped | same | same
    · cases escaped
    · exact absurd same (by decide)
    · exact absurd same (by decide)
  have kept : ∀ part ∈ entries.map entryPairs, ∀ p ∈ part, isUnescaped (· == ';') p = false := by
    intro part found p member
    obtain ⟨entry, -, rfl⟩ := List.mem_map.mp found
    exact unseparated_entryPairs member
  have separates : isUnescaped (· == ';') (plain ';') = true := rfl
  rw [attributes, splitUnescaped, scan_restore clean, blockPairs, splitItems_terminated separates kept,
    List.map_map, List.filterMap_map]
  have each : ∀ entry ∈ entries, (attribute? ∘ restore ∘ entryPairs) entry = some entry := by
    intro entry member
    obtain ⟨key, value⟩ := h entry member
    rw [Function.comp_apply, Function.comp_apply, attribute?_entryPairs, (worn_eq_self_iff _).mpr key,
      (worn_eq_self_iff _).mpr value]
  rw [List.filterMap_congr each, List.filterMap_some]

theorem nameOf_headPairs (head : Head) : nameOf (headPairs head) = quoted head.name := by
  have escaped : ∀ p ∈ (quoted head.name).reverse, (!isUnescaped (· == '@') p) = true :=
    fun p member => kept_of_mem_quoted (List.mem_reverse.mp member) _
  rw [nameOf, headPairs, List.reverse_append, List.takeWhile_append_of_pos escaped]
  cases head.backend with
  | none => simp
  | some backend => simp [isUnescaped, plain]

theorem backendOf_headPairs (head : Head) :
    (backendOf (headPairs head)).map (fun backend => backend.map (·.char)) = head.backend := by
  have escaped : ∀ p ∈ (quoted head.name).reverse, (!isUnescaped (· == '@') p) = true :=
    fun p member => kept_of_mem_quoted (List.mem_reverse.mp member) _
  rw [backendOf, headPairs, List.reverse_append, List.dropWhile_append_of_pos escaped]
  cases head.backend with
  | none => rfl
  | some backend => simp [isUnescaped, plain, map_char_quoted]

theorem leading_append (pairs : List Scanned) (gs : List Glyph) :
    leading (pairs.map .char ++ gs) = pairs ++ leading gs := by
  induction pairs with
  | nil => rfl
  | cons p pairs ih => exact congrArg (p :: ·) ih

theorem splitBlock_written {pairs : List Scanned}
    (h : ∀ p ∈ pairs, p ≠ plain '\x7b' ∧ p ≠ plain '\x7d') (gs : List Glyph) :
    splitBlock 0 (pairs.map .char ++ .char (plain '\x7d') :: gs) = (pairs.map .char, gs) := by
  induction pairs with
  | nil => rfl
  | cons p pairs ih =>
    obtain ⟨notOpen, notClose⟩ := h p (by simp)
    have inside : ¬ ((Glyph.char p).is '\x7d' = true ∧ 0 = 0) := by
      simpa [Glyph.is, plain] using notClose
    have depth : blockDepth 0 (.char p) = 0 := by
      have other : p ≠ ⟨false, '\x7b'⟩ := notOpen
      simp [blockDepth, Glyph.is, other]
    rw [List.map_cons, List.cons_append, splitBlock_inside inside, depth,
      ih fun q member => h q (List.mem_cons_of_mem _ member)]

theorem inHead_headPairs {head : Head} {p : Scanned} (h : p ∈ headPairs head) :
    inHead p = true ∧ isUnescaped isBlank p = false := by
  rcases mem_headPairs h with escaped | rfl
  · simp [inHead, not_unescaped escaped]
  · exact ⟨by decide, by decide⟩

theorem headPairs_ne_nil {head : Head} (h : head.name ≠ []) : headPairs head ≠ [] := by
  simp [headPairs, quoted, h]

theorem noBrace_of_mem_blockPairs {entries : List (List Char × List Char)} {p : Scanned}
    (h : p ∈ blockPairs entries) : p ≠ plain '\x7b' ∧ p ≠ plain '\x7d' := by
  rcases mem_blockPairs h with escaped | rfl | rfl
  · constructor
    · rintro rfl
      cases escaped
    · rintro rfl
      cases escaped
  · exact ⟨by decide, by decide⟩
  · exact ⟨by decide, by decide⟩

theorem behindHead_blockPairs {entries : List (List Char × List Char)}
    (h : ∀ entry ∈ entries, EndsDark entry.1 ∧ EndsDark entry.2) (gs : List Glyph) :
    behindHead (.char (plain '\x7b') ::
      ((blockPairs entries).map .char ++ .char (plain '\x7d') :: gs)) = (entries, gs) := by
  have opened : plain '\x7b' = ⟨false, '\x7b'⟩ := rfl
  rw [behindHead, if_pos opened, splitBlock_written fun p member => noBrace_of_mem_blockPairs member,
    writeAll_map_char, attributes_blockPairs h]

theorem read_headerPairs {head : Head} (normal : head.Normal) {gs : List Glyph} (clean : Clean gs) :
    read (pack ((headerPairs head).map .char ++ gs)) = .ok ⟨head, segments gs⟩ := by
  have unmarked : bareMark ∉ headerPairs head := by
    exact written_ne_bareMark fun p member => (written_headerPairs member).1
  obtain ⟨first, more, shape⟩ := List.exists_cons_of_ne_nil (headPairs_ne_nil normal.named)
  have dark : isUnescaped isBlank first = false := (inHead_headPairs (by rw [shape]; simp)).2
  have glyphsShape : (headerPairs head).map Glyph.char ++ gs = (headPairs head).map .char ++
      .char (plain '\x7b') :: ((blockPairs head.attributes).map .char ++ .char (plain '\x7d') :: gs) := by
    simp [headerPairs]
  have inside : ∀ g ∈ (headPairs head).map Glyph.char, Glyph.inHead g = true := by
    intro g member
    obtain ⟨p, found, rfl⟩ := List.mem_map.mp member
    exact (inHead_headPairs found).1
  have undropped : ((headerPairs head).map Glyph.char ++ gs).dropWhile Glyph.blank =
      (headerPairs head).map .char ++ gs := by
    rw [glyphsShape, shape, List.map_cons, List.cons_append,
      List.dropWhile_cons_of_neg (by simp [Glyph.blank, dark])]
  have header : (leading ((headerPairs head).map Glyph.char ++ gs)).takeWhile inHead = headPairs head := by
    rw [leading_append, headerPairs, List.append_assoc,
      List.takeWhile_append_of_pos fun p member => (inHead_headPairs member).1]
    simp [inHead, isUnescaped, plain]
  have behind : ((headerPairs head).map Glyph.char ++ gs).dropWhile Glyph.inHead =
      .char (plain '\x7b') :: ((blockPairs head.attributes).map .char ++ .char (plain '\x7d') :: gs) := by
    rw [glyphsShape, List.dropWhile_append_of_pos inside]
    rfl
  have visible : ((headerPairs head).map Glyph.char ++ gs).all Glyph.blank = false := by
    rw [glyphsShape, shape]
    simp [Glyph.blank, dark]
  have led : leading ((headerPairs head).map Glyph.char ++ gs) ≠ [] := by
    rw [leading_append, headerPairs, shape]
    simp
  have named : quoted head.name ≠ [] := by simp [quoted, normal.named]
  rw [read_pack (mem_clean_map.mpr ⟨unmarked, clean⟩), visible, if_neg Bool.false_ne_true, if_neg led,
    undropped, header, behind, pendingOf, nameOf_headPairs, if_neg named, backendOf_headPairs,
    map_char_quoted, behindHead_blockPairs normal.attributes]

def argumentGlyphsOf (node : Node) : List Glyph := .char guard :: (tokensOf node).map glyphOf

theorem map_glyphOf_free (pairs : List Scanned) : (pairs.map free).map glyphOf = pairs.map .char := by
  rw [List.map_map]
  rfl

theorem spaced_clean (content : List Char) : bareMark ∉ spaced content := by
  intro member
  rcases space_or_escaped_of_mem_spaced member with same | ⟨escaped, -⟩
  · exact absurd same (by decide)
  · cases escaped

theorem spaced_ne_nil {content : List Char} (filled : content ≠ []) : spaced content ≠ [] := by
  simpa [spaced] using filled

theorem treesOf_text {content : List Char} (filled : content ≠ []) :
    treesOf (tokensOf (.text content)) = [free (restore (spaced content))] := by
  rw [treesOf_eq_pack, tokensOf, map_glyphOf_free, pack, foldr_consGlyph_run (spaced_ne_nil filled)]
  rfl

theorem treesOf_call (head : Head) (arguments : List Node) :
    treesOf (tokensOf (.call head arguments)) =
      [nested (treesOf ((headerPairs head).map free ++ argumentTokens arguments))] := by
  rw [tokensOf]
  rfl

theorem dropGuards_spaced (content : List Char) :
    dropGuards (trimStart (restore (guard :: spaced content))) = restore (spaced content) := by
  have clean : bareMark ∉ guard :: spaced content := by
    rw [List.mem_cons, not_or]
    exact ⟨by decide, spaced_clean content⟩
  have kept : (spaced content).filter (!·.isGuard) = spaced content := by
    rw [List.filter_eq_self]
    intro p member
    rcases space_or_escaped_of_mem_spaced member with rfl | ⟨-, other⟩
    · decide
    · simp [Scanned.isGuard, other]
  have front : (guard :: spaced content).dropWhile (isUnescaped isBlank) = guard :: spaced content := by
    rw [List.dropWhile_cons_of_neg (by decide)]
  have dropped : guard.isGuard = true := rfl
  rw [trimStart_restore, front, dropGuards, scan_restore clean,
    List.filter_cons_of_neg (by simp [dropped]), kept]

theorem ofTrees_argument {node : Node} (normal : node.Normal) :
    Node.ofTrees (trimFront (pack (argumentGlyphsOf node))) =
      Node.ofTrees (treesOf (tokensOf node)) := by
  rw [argumentGlyphsOf, pack_cons, ← treesOf_eq_pack]
  cases normal with
  | @text content filled =>
    rw [treesOf_text filled, consGlyph_char, consRun, trimFront]
    exact congrArg (fun run => Node.ofTrees [free run]) (dropGuards_spaced content)
  | @call head arguments _ _ =>
    have dropped : dropGuards (trimStart guard.write) = [] := by decide
    rw [treesOf_call, consGlyph_char, consRun, trimFront, dropped, ofTrees_free]
    · cases Node.ofTrees _ <;> rfl
    · intro run rest same
      cases same

theorem segments_argumentTokens (arguments : List Node) :
    segments ((argumentTokens arguments).map glyphOf) =
      arguments.map fun argument => trimFront (pack (argumentGlyphsOf argument)) := by
  have whole : (argumentTokens arguments).map glyphOf =
      (arguments.map argumentGlyphsOf).flatMap (· ++ [.char (plain ';')]) := by
    induction arguments with
    | nil => rfl
    | cons argument rest ih =>
      rw [argumentTokens, List.map_cons, List.map_append, List.map_cons, ih]
      simp [argumentGlyphsOf, glyphOf]
  have kept : ∀ part ∈ arguments.map argumentGlyphsOf, ∀ g ∈ part, Glyph.is ';' g = false := by
    intro part found g member
    obtain ⟨node, -, rfl⟩ := List.mem_map.mp found
    rcases List.mem_cons.mp member with rfl | member
    · rfl
    · cases node with
      | call head arguments =>
        rw [tokensOf, List.map_singleton, List.mem_singleton] at member
        rw [member]
        rfl
      | text content =>
        rw [tokensOf, map_glyphOf_free] at member
        obtain ⟨p, found, rfl⟩ := List.mem_map.mp member
        rcases space_or_escaped_of_mem_spaced found with rfl | ⟨escaped, -⟩
        · rfl
        · obtain ⟨e, c⟩ := p
          cases escaped
          simp [Glyph.is]
  have separates : Glyph.is ';' (.char (plain ';')) = true := rfl
  rw [segments, whole, splitItems_terminated separates kept, List.map_map]
  rfl

theorem ofTrees_segments {arguments : List Node} (normal : ∀ argument ∈ arguments, argument.Normal)
    (h : ∀ argument ∈ arguments, Node.ofTrees (treesOf (tokensOf argument)) = .ok [argument]) :
    Node.ofTrees (arguments.map fun argument => trimFront (pack (argumentGlyphsOf argument))).flatten =
      .ok arguments := by
  induction arguments with
  | nil => rw [List.map_nil, List.flatten_nil, Node.ofTrees]
  | cons argument rest ih =>
    have later := ih (fun other member => normal other (List.mem_cons_of_mem _ member))
      fun other member => h other (List.mem_cons_of_mem _ member)
    have first := h argument (by simp)
    rw [← ofTrees_argument (normal argument (by simp))] at first
    exact ofTrees_append first later

theorem ofTrees_tokensOf {node : Node} (normal : node.Normal) :
    Node.ofTrees (treesOf (tokensOf node)) = .ok [node] := by
  induction normal with
  | @text content filled =>
    have same : unescape (restore (spaced content)) = content := by
      rw [unescape_restore (spaced_clean content), map_char_spaced]
    rw [treesOf_text filled, ofTrees_free, same, Node.ofTrees]
    simp only [Except.map, if_neg filled]
  | @call head arguments normal each ih =>
    obtain ⟨pairs, balanced, written⟩ :=
      spellable_argumentTokens fun argument member => spellable_tokensOf (each argument member)
    have clean := Balanced.clean balanced (written_ne_bareMark written)
    have header := read_headerPairs normal clean
    rw [← map_glyphOf_free, ← List.map_append, ← treesOf_eq_pack, segments_argumentTokens] at header
    rw [treesOf_call]
    exact ofTrees_nested_ok_iff.mpr
      ⟨_, arguments, [], header, ofTrees_segments each ih, by rw [Node.ofTrees], rfl⟩

theorem treesOf_flatMap {nodes : List Node} (normal : ∀ node ∈ nodes, node.Normal)
    (apart : nodes.IsChain fun node next => ¬ (node.isText = true ∧ next.isText = true)) :
    treesOf (nodes.flatMap tokensOf) = nodes.flatMap fun node => treesOf (tokensOf node) := by
  induction nodes with
  | nil => rfl
  | cons node rest ih =>
    obtain ⟨next, chain⟩ := List.isChain_cons.mp apart
    have later := ih (fun other member => normal other (List.mem_cons_of_mem _ member)) chain
    rw [List.flatMap_cons, List.flatMap_cons, ← later]
    cases normal node (by simp) with
    | @call head arguments _ _ => rw [treesOf_call, tokensOf]; rfl
    | @text content filled =>
      -- The run of a text would take in a run behind it, but no other text follows.
      have stops : ∀ run more, treesOf (rest.flatMap tokensOf) ≠ free run :: more := by
        intro run more
        cases rest with
        | nil => simp [treesOf, gather, mapAll]
        | cons following rest =>
          cases following with
          | text content => exact absurd ⟨rfl, rfl⟩ (next _ rfl)
          | call head arguments =>
            rw [List.flatMap_cons, tokensOf]
            intro same
            cases same
      rw [treesOf_text filled, tokensOf, treesOf_eq_pack, List.map_append, map_glyphOf_free, pack_append,
        ← treesOf_eq_pack, foldr_consGlyph_run (spaced_ne_nil filled), consRun_apart stops]
      rfl

theorem ofTrees_flatMap {nodes : List Node} (normal : ∀ node ∈ nodes, node.Normal)
    (apart : nodes.IsChain fun node next => ¬ (node.isText = true ∧ next.isText = true)) :
    Node.ofTrees (treesOf (nodes.flatMap tokensOf)) = .ok nodes := by
  rw [treesOf_flatMap normal apart]
  clear apart
  induction nodes with
  | nil => rw [List.flatMap_nil, Node.ofTrees]
  | cons node rest ih =>
    exact ofTrees_append (ofTrees_tokensOf (normal node (by simp)))
      (ih fun other member => normal other (List.mem_cons_of_mem _ member))

end BracketMarkup
