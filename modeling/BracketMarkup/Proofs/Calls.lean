import BracketMarkup.Proofs.Reading

namespace BracketMarkup

open Bracketed Call

/-- Where a reader stands between the brackets of a call. -/
inductive Region where
  | front
  | head
  | block (depth : Nat)
  | arguments

def Region.ofHead (p : Scanned) : Region :=
  if p = ⟨false, '\x7b'⟩ then block 0 else if isUnescaped isBlank p then arguments else head

def Region.next : Region → Scanned → Region
  | front, p => if isUnescaped isBlank p then front else ofHead p
  | head, p => ofHead p
  | block depth, p =>
    if p = ⟨false, '\x7b'⟩ then block (depth + 1)
    else if p = ⟨false, '\x7d'⟩ then
      match depth with
      | 0 => arguments
      | depth + 1 => block depth
    else block depth
  | arguments, _ => arguments

mutual

def callsOf : Token → List (List Token)
  | free _ => []
  | nested children => children :: callsIn .front children

def callsIn : Region → List Token → List (List Token)
  | _, [] => []
  | region, token :: rest =>
    match token, region with
    | free p, region => callsIn (region.next p) rest
    | nested _, .block depth => callsIn (.block depth) rest
    | nested children, _ => callsOf (nested children) ++ callsIn .arguments rest

end

def isBlankToken : Token → Bool
  | free p => isUnescaped isBlank p
  | nested _ => false

def charsBeforePair : List Token → List Scanned
  | free p :: rest => p :: charsBeforePair rest
  | _ => []

def headerOf (children : List Token) : List Scanned :=
  (charsBeforePair children).dropWhile (isUnescaped isBlank)

def callFault? (children : List Token) : Option ParseError :=
  if children.all isBlankToken then some .emptyCall
  else if charsBeforePair children = [] then some .nestedHead
  else if nameOf ((headerOf children).takeWhile inHead) = [] then
    some (.nameless (restore (headerOf children)))
  else none

def errorOf {ε α : Type} : Except ε α → Option ε
  | .ok _ => none
  | .error fault => some fault

theorem errorOf_eq_none_iff {ε α : Type} {result : Except ε α} :
    errorOf result = none ↔ ∃ value, result = .ok value := by
  cases result <;> simp [errorOf]

theorem errorOf_eq_some_iff {ε α : Type} {result : Except ε α} {fault : ε} :
    errorOf result = some fault ↔ result = .error fault := by
  cases result <;> simp [errorOf]

def childrenOf? : Tree → Option (List Tree)
  | free _ => none
  | nested children => some children

def Call.Glyph.children? : Glyph → Option (List Tree)
  | .char _ => none
  | .pair children => some children

def callError (children : List Tree) : Option ParseError := errorOf (read children >>= Pending.build)

theorem errorOf_ofTrees (items : List Tree) :
    errorOf (Node.ofTrees items) = (items.filterMap childrenOf?).findSome? callError := by
  induction items with
  | nil => rw [Node.ofTrees]; rfl
  | cons item rest ih =>
    cases item with
    | free run =>
      rw [ofTrees_free, List.filterMap_cons_none rfl, ← ih]
      cases Node.ofTrees rest <;> rfl
    | nested children =>
      have first : (nested children :: rest).filterMap childrenOf? =
          children :: rest.filterMap childrenOf? := rfl
      rw [ofTrees_nested, first, List.findSome?_cons, ← ih, callError]
      cases read children with
      | error fault => rfl
      | ok pending =>
        simp only [Bind.bind, Except.bind]
        cases pending.build with
        | error fault => rfl
        | ok arguments => cases Node.ofTrees rest <;> rfl

theorem filterMap_consGlyph (g : Glyph) (items : List Tree) :
    (consGlyph g items).filterMap childrenOf? = g.children?.toList ++ items.filterMap childrenOf? := by
  cases g with
  | pair children => rfl
  | char p =>
    rw [consGlyph_char]
    cases items with
    | nil => rfl
    | cons item rest => cases item <;> rfl

theorem filterMap_pack (gs : List Glyph) :
    (pack gs).filterMap childrenOf? = gs.filterMap Glyph.children? := by
  induction gs with
  | nil => rfl
  | cons g gs ih =>
    rw [pack_cons, filterMap_consGlyph, ih]
    cases g <;> rfl

theorem filterMap_trimFront (items : List Tree) :
    (trimFront items).filterMap childrenOf? = items.filterMap childrenOf? := by
  cases items with
  | nil => rfl
  | cons item rest => cases item <;> rfl

theorem filterMap_cuts (gs : List Glyph) :
    (cuts (Glyph.is ';') false none gs).flatten.filterMap Glyph.children? =
      gs.filterMap Glyph.children? := by
  induction gs with
  | nil => rfl
  | cons g gs ih =>
    cases separates : g.is ';' with
    | true =>
      rw [cuts_separator separates, List.flatten_cons, List.nil_append, ih]
      cases g with
      | char p => rfl
      | pair children => cases separates
    | false =>
      rw [cuts_cons separates]
      obtain ⟨part, parts, shape⟩ := List.exists_cons_of_ne_nil (cuts_ne_nil (Glyph.is ';') false none gs)
      rw [shape] at ih ⊢
      rw [List.modifyHead_cons, List.flatten_cons, List.cons_append, ← List.flatten_cons,
        List.filterMap_cons, List.filterMap_cons, ih]

theorem flatten_dropEmptyEnd {α : Type} (parts : List (List α)) :
    (dropEmptyEnd parts).flatten = parts.flatten := by
  rw [← List.flatten_filter_ne_nil, filter_dropEmptyEnd, List.flatten_filter_ne_nil]

theorem filterMap_segments (gs : List Glyph) :
    (segments gs).flatten.filterMap childrenOf? = gs.filterMap Glyph.children? := by
  have whole : ∀ parts : List (List Glyph),
      (parts.map fun part => trimFront (pack part)).flatten.filterMap childrenOf? =
        parts.flatten.filterMap Glyph.children? := by
    intro parts
    induction parts with
    | nil => rfl
    | cons part parts ih =>
      rw [List.map_cons, List.flatten_cons, List.filterMap_append, ih, filterMap_trimFront,
        filterMap_pack, List.flatten_cons, List.filterMap_append]
  rw [segments, whole, splitItems_unlimited, flatten_dropEmptyEnd, filterMap_cuts]

def argumentGlyphs : Region → List Glyph → List Glyph
  | .front, gs => (behindHead ((gs.dropWhile Glyph.blank).dropWhile Glyph.inHead)).2
  | .head, gs => (behindHead (gs.dropWhile Glyph.inHead)).2
  | .block depth, gs => (splitBlock depth gs).2
  | .arguments, gs => gs

theorem callError_pack {gs : List Glyph} (clean : Clean gs) :
    callError (pack gs) =
      if gs.all Glyph.blank then some .emptyCall
      else if leading gs = [] then some .nestedHead
      else if nameOf ((leading (gs.dropWhile Glyph.blank)).takeWhile inHead) = [] then
        some (.nameless (restore (leading (gs.dropWhile Glyph.blank))))
      else ((argumentGlyphs .front gs).filterMap Glyph.children?).findSome? callError := by
  rw [callError, read_pack clean]
  by_cases allBlank : gs.all Glyph.blank = true
  · rw [if_pos allBlank, if_pos allBlank]
    rfl
  by_cases empty : leading gs = []
  · rw [if_neg allBlank, if_neg allBlank, if_pos empty, if_pos empty]
    rfl
  rw [if_neg allBlank, if_neg allBlank, if_neg empty, if_neg empty, pendingOf]
  split
  · rfl
  · change errorOf (Node.ofTrees (segments _).flatten) = _
    rw [errorOf_ofTrees, filterMap_segments]
    rfl

theorem all_isBlankToken (tokens : List Token) :
    (tokens.map glyphOf).all Glyph.blank = tokens.all isBlankToken := by
  rw [List.all_map]
  congr 1
  funext token
  cases token <;> rfl

theorem leading_map_glyphOf (tokens : List Token) :
    leading (tokens.map glyphOf) = charsBeforePair tokens := by
  induction tokens with
  | nil => rfl
  | cons token rest ih =>
    cases token with
    | free p => exact congrArg (p :: ·) ih
    | nested children => rfl

theorem callError_treesOf {children : List Token} (clean : Clean (children.map glyphOf)) :
    callError (treesOf children) = (callFault? children).or
      (((argumentGlyphs .front (children.map glyphOf)).filterMap Glyph.children?).findSome?
        callError) := by
  rw [treesOf_eq_pack, callError_pack clean, all_isBlankToken, (leading_dropWhile_blank _).1,
    leading_map_glyphOf, callFault?]
  split
  · rfl
  · split
    · rfl
    · split
      · rename_i nameless
        rw [headerOf, if_pos nameless]
        rfl
      · rename_i named
        rw [headerOf, if_neg named]
        rfl

theorem argumentGlyphs_head (p : Scanned) (gs : List Glyph) :
    argumentGlyphs .head (.char p :: gs) = argumentGlyphs (Region.ofHead p) gs := by
  by_cases brace : p = ⟨false, '\x7b'⟩
  · subst brace
    rfl
  · have unbraced : isUnescaped (· == '\x7b') p = false := by
      rw [Bool.eq_false_iff]
      exact fun same => brace (eq_of_isUnescaped same)
    by_cases blank : isUnescaped isBlank p = true
    · simp [argumentGlyphs, Region.ofHead, Glyph.inHead, inHead, behindHead, brace, blank]
    · simp [argumentGlyphs, Region.ofHead, Glyph.inHead, inHead, brace, blank, unbraced]

theorem argumentGlyphs_char (region : Region) (p : Scanned) (gs : List Glyph) :
    (argumentGlyphs region (.char p :: gs)).filterMap Glyph.children? =
      (argumentGlyphs (region.next p) gs).filterMap Glyph.children? := by
  cases region with
  | arguments => rfl
  | head => rw [argumentGlyphs_head]; rfl
  | front =>
    by_cases blank : isUnescaped isBlank p = true
    · simp [argumentGlyphs, Region.next, Glyph.blank, blank]
    · rw [Region.next, if_neg blank, ← argumentGlyphs_head]
      simp [argumentGlyphs, Glyph.blank, blank]
  | block depth =>
    by_cases closer : p = ⟨false, '\x7d'⟩
    · subst closer
      cases depth <;> rfl
    · rw [argumentGlyphs, splitBlock_inside (by simp [Glyph.is, closer])]
      by_cases opener : p = ⟨false, '\x7b'⟩
      · subst opener
        rfl
      · simp [Region.next, blockDepth, Glyph.is, opener, closer, argumentGlyphs]

theorem notMem_dropLast_append {α : Type} {x : α} {front rest : List α}
    (h : x ∉ (front ++ rest).dropLast) : x ∉ rest.dropLast ∧ (rest ≠ [] → x ∉ front) := by
  cases rest with
  | nil => exact ⟨by simp, fun filled => absurd rfl filled⟩
  | cons y rest =>
    rw [List.dropLast_append_cons, List.mem_append, not_or] at h
    exact ⟨h.2, fun _ => h.1⟩

theorem notMem_dropLast_tail {α : Type} {x y : α} {rest : List α} (h : x ∉ (y :: rest).dropLast) :
    x ∉ rest.dropLast := (@notMem_dropLast_append _ x [y] rest h).1

theorem notMem_dropLast_pair {α : Type} {x opener closer : α} {inner items : List α}
    (h : x ∉ (opener :: (inner ++ closer :: items)).dropLast) : x ∉ inner ∧ x ∉ items.dropLast := by
  obtain ⟨behind, inFront⟩ := @notMem_dropLast_append _ x (opener :: inner) (closer :: items) h
  have within := inFront (List.cons_ne_nil _ _)
  exact ⟨fun member => within (List.mem_cons_of_mem _ member), notMem_dropLast_tail behind⟩

theorem findSome?_callsIn {tokens : List Token} {pairs : List Scanned} (h : Balanced tokens pairs)
    (unmarked : bareMark ∉ pairs.dropLast) (region : Region) :
    ((argumentGlyphs region (tokens.map glyphOf)).filterMap Glyph.children?).findSome? callError =
      (callsIn region tokens).findSome? callFault? := by
  induction h generalizing region with
  | nil => cases region <;> rfl
  | @free p tokens items _ _ _ ih =>
    rw [List.map_cons, glyphOf, argumentGlyphs_char, ih (notMem_dropLast_tail unmarked), callsIn]
  | @nested opener closer children tokens inner items _ _ _ inside _ ihInner ih =>
    obtain ⟨within, later⟩ := notMem_dropLast_pair unmarked
    have call : callError (treesOf children) = (callsOf (nested children)).findSome? callFault? := by
      rw [callError_treesOf (Balanced.clean inside within),
        ihInner (fun member => within ((List.dropLast_sublist _).subset member)) .front, callsOf,
        List.findSome?_cons]
      cases callFault? children <;> rfl
    cases region with
    | block depth =>
      rw [List.map_cons, glyphOf, argumentGlyphs, splitBlock_inside (by simp [Glyph.is])]
      exact ih later (.block depth)
    -- Outside of a block brackets are a call, and what follows them are arguments.
    | front | head | arguments =>
      have rest := ih later .arguments
      rw [argumentGlyphs] at rest
      have parsed : ∀ result : List Glyph, result = .pair (treesOf children) :: tokens.map glyphOf →
          (result.filterMap Glyph.children?).findSome? callError =
            (callsOf (nested children) ++ callsIn .arguments tokens).findSome? callFault? := by
        rintro result rfl
        have first : (Glyph.pair (treesOf children) :: tokens.map glyphOf).filterMap Glyph.children? =
            treesOf children :: (tokens.map glyphOf).filterMap Glyph.children? := rfl
        rw [first, List.findSome?_cons, call, rest, List.findSome?_append]
        cases (callsOf (nested children)).findSome? callFault? <;> rfl
      exact parsed _ rfl

theorem errorOf_ofTrees_treesOf {tokens : List Token} {pairs : List Scanned} (h : Balanced tokens pairs)
    (unmarked : bareMark ∉ pairs.dropLast) :
    errorOf (Node.ofTrees (treesOf tokens)) = (callsIn .arguments tokens).findSome? callFault? := by
  rw [errorOf_ofTrees, treesOf_eq_pack, filterMap_pack]
  exact findSome?_callsIn h unmarked .arguments

end BracketMarkup
