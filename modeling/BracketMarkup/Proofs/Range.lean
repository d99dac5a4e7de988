import BracketMarkup.Proofs.Bodies
import BracketMarkup.Proofs.Readback

namespace BracketMarkup

def continued (s : List Char) : List Char := s.flatMap fun c => [c, escapeMark, '\n']

theorem joinContinued_continued (s : List Char) : joinContinued (continued s) = s := by
  induction s with
  | nil => rfl
  | cons c rest ih =>
    have step : continued (c :: rest) = c :: escapeMark :: '\n' :: continued rest := rfl
    have kept : ¬ (c = escapeMark ∧ escapeMark = '\n') := fun h => absurd h.2 (by decide)
    rw [step, joinContinued, if_neg kept, joinContinued, if_pos ⟨rfl, rfl⟩, ih]

def metadataLine (pair : List Char × List Char) : List Char := '!' :: (pair.1 ++ ' ' :: pair.2)

def withMetadata (metadata : Bindings) (body : List Char) : List Char :=
  metadata.flatMap (fun pair => metadataLine pair ++ ['\n']) ++ body

theorem metadataLine_shape {key value : List Char} (h : MetadataNormal key value) :
    MetadataLine key value (metadataLine (key, value)) := by
  obtain ⟨first, more, rfl, dark⟩ := h.valued
  refine ⟨[], [' '], first, more, rfl, rfl, by simp, h.keyed, h.keyDark, by simp, ?_, dark⟩
  intro c member
  rw [List.mem_singleton.mp member]
  decide

theorem metadataLine_whole {key value : List Char} (h : MetadataNormal key value) :
    '\n' ∉ metadataLine (key, value) := by
  simp only [metadataLine, List.mem_cons, List.mem_append, not_or]
  refine ⟨by decide, ?_, by decide, h.unbroken⟩
  intro member
  exact absurd (h.keyDark _ member) (by decide)

theorem linesOf_withMetadata {metadata : Bindings}
    (h : ∀ pair ∈ metadata, MetadataNormal pair.1 pair.2) (body : List Char) :
    linesOf (withMetadata metadata body) = metadata.map metadataLine ++ linesOf body := by
  induction metadata with
  | nil => rfl
  | cons pair rest ih =>
    have later := ih fun other member => h other (List.mem_cons_of_mem _ member)
    have step : withMetadata (pair :: rest) body = metadataLine pair ++ '\n' :: withMetadata rest body := by
      simp [withMetadata]
    rw [step, linesOf, List.splitOn_append_cons_self_of_not_mem (metadataLine_whole (h pair (by simp))),
      List.map_cons, List.cons_append, ← later]
    rfl

theorem head?_line {line : List Char} {c : Char} (h : line.head? = some c) :
    c = escapeMark ∨ ⟨false, c⟩ ∈ scan line := by
  cases line using scan_induction with
  | empty => cases h
  | bare => cases h; exact .inl rfl
  | escaped d rest => cases h; exact .inl rfl
  | plain d rest other =>
    cases h
    rw [scan_plain_cons other]
    exact .inr (by simp)

section Body

variable {pairs : List Scanned}

theorem mem_scan_written (written : ∀ p ∈ pairs, Written p) {line : List Char}
    (member : line ∈ linesOf (restore pairs)) {c : Char} (h : ⟨false, c⟩ ∈ scan line) :
    c ∈ [escapeMark, '[', ']', '\x7b', '\x7d', '=', ';', '@', ' '] := by
  rcases mem_scan_line (written_ne_bareMark written) member h with found | same
  · rcases written _ found with escaped | structural
    · cases escaped
    · exact List.mem_cons_of_mem _ structural
  · cases same
    exact List.mem_cons_self

theorem head?_written (written : ∀ p ∈ pairs, Written p) {line : List Char}
    (member : line ∈ linesOf (restore pairs)) {c : Char} (h : line.head? = some c) :
    c ∈ [escapeMark, '[', ']', '\x7b', '\x7d', '=', ';', '@', ' '] := by
  rcases head?_line h with rfl | found
  · exact List.mem_cons_self
  · exact mem_scan_written written member found

theorem keptLine?_written (written : ∀ p ∈ pairs, Written p) {line : List Char}
    (member : line ∈ linesOf (restore pairs)) : keptLine? line = some line := by
  have settled : Settled line :=
    { unmarked := fun starts => absurd (head?_written written member starts) (by decide)
      uncommented := fun found => absurd (mem_scan_written written member found) (by decide) }
  exact settled.keptLine?

theorem desugarLine_written (written : ∀ p ∈ pairs, Written p) {line : List Char}
    (member : line ∈ linesOf (restore pairs)) : desugarLine line = line := by
  cases line with
  | nil => rfl
  | cons c rest =>
    have other : c ≠ '.' := by
      rintro rfl
      exact absurd (head?_written written member rfl) (by decide)
    unfold desugarLine
    split
    · rename_i same
      exact absurd (List.cons.inj same).1 other
    · rfl

end Body

section Text

variable {metadata : Bindings} {pairs : List Scanned}

theorem logicalLines_written (normal : ∀ pair ∈ metadata, MetadataNormal pair.1 pair.2) :
    logicalLines (continued (withMetadata metadata (restore pairs))) =
      metadata.map metadataLine ++ linesOf (restore pairs) := by
  rw [logicalLines, joinContinued_continued, linesOf_withMetadata normal]

theorem wellHeaded_written (normal : ∀ pair ∈ metadata, MetadataNormal pair.1 pair.2)
    (written : ∀ p ∈ pairs, Written p) :
    WellHeaded (continued (withMetadata metadata (restore pairs))) := by
  intro line member
  rw [logicalLines_written normal] at member
  rintro ⟨starts, shapeless⟩
  rcases List.mem_append.mp member with member | member
  · obtain ⟨pair, found, rfl⟩ := List.mem_map.mp member
    exact shapeless pair.1 pair.2 (metadataLine_shape (normal pair found))
  · exact absurd (head?_written written member starts) (by decide)

theorem filterMap_metadataPair?_written (normal : ∀ pair ∈ metadata, MetadataNormal pair.1 pair.2)
    (written : ∀ p ∈ pairs, Written p) :
    (metadata.map metadataLine ++ linesOf (restore pairs)).filterMap metadataPair? = metadata := by
  have front : (metadata.map metadataLine).filterMap metadataPair? = metadata := by
    rw [List.filterMap_map]
    have each : ∀ pair ∈ metadata, (metadataPair? ∘ metadataLine) pair = some pair :=
      fun pair member => metadataPair?_of_line (metadataLine_shape (normal pair member))
        (metadataLine_whole (normal pair member))
    rw [List.filterMap_congr each, List.filterMap_some]
  have behind : (linesOf (restore pairs)).filterMap metadataPair? = [] := by
    rw [List.filterMap_eq_nil_iff]
    intro line member
    exact metadataPair?_other fun starts =>
      absurd (head?_written written member starts) (by decide)
  rw [List.filterMap_append, front, behind, List.append_nil]

theorem filterMap_keptLine?_written (written : ∀ p ∈ pairs, Written p) :
    (metadata.map metadataLine ++ linesOf (restore pairs)).filterMap keptLine? =
      linesOf (restore pairs) := by
  have front : (metadata.map metadataLine).filterMap keptLine? = [] := by
    rw [List.filterMap_eq_nil_iff]
    intro line member
    obtain ⟨pair, -, rfl⟩ := List.mem_map.mp member
    rfl
  have behind : (linesOf (restore pairs)).filterMap keptLine? = linesOf (restore pairs) := by
    rw [List.filterMap_congr fun line member => keptLine?_written written member, List.filterMap_some]
  rw [List.filterMap_append, front, behind, List.nil_append]

theorem bodyOf_written (normal : ∀ pair ∈ metadata, MetadataNormal pair.1 pair.2)
    (written : ∀ p ∈ pairs, Written p) :
    bodyOf (continued (withMetadata metadata (restore pairs))) = restore pairs := by
  rw [bodyOf, logicalLines_written normal, filterMap_keptLine?_written written, unlines_linesOf, desugar,
    List.map_congr_left fun line member => desugarLine_written written member, List.map_id',
    unlines_linesOf]

theorem assign_fresh {bindings : Bindings} {key : List Char} (value : List Char)
    (fresh : key ∉ bindings.map Prod.fst) :
    Bindings.assign key value bindings = bindings ++ [(key, value)] := by
  induction bindings with
  | nil => rfl
  | cons binding rest ih =>
    obtain ⟨bound, old⟩ := binding
    simp only [List.map_cons, List.mem_cons, not_or] at fresh
    rw [Bindings.assign, if_neg (Ne.symm fresh.1), ih fresh.2]
    rfl

theorem override_fresh {bindings newer : Bindings} (distinct : ((bindings ++ newer).map Prod.fst).Nodup) :
    bindings.override newer = bindings ++ newer := by
  induction newer generalizing bindings with
  | nil => simp [Bindings.override]
  | cons binding rest ih =>
    have fresh : binding.1 ∉ bindings.map Prod.fst := by
      rw [List.map_append, List.map_cons] at distinct
      intro member
      exact (List.nodup_append.mp distinct).2.2 _ member _ (by simp) rfl
    have step : bindings.override (binding :: rest) =
        (Bindings.assign binding.1 binding.2 bindings).override rest := rfl
    rw [step, assign_fresh binding.2 fresh, ih (by simpa using distinct)]
    simp

end Text

theorem exists_text_of_normal {document : Document} (h : document.Normal) :
    ∃ text, Document.parse text = .ok document := by
  obtain ⟨pairs, balanced, written⟩ := spellable_flatMap h.nodes
  have body := bodyOf_written h.metadata written
  have spelled : Balanced (document.nodes.flatMap tokensOf)
      (scan (bodyOf (continued (withMetadata document.metadata (restore pairs))))) := by
    rw [body, scan_restore (written_ne_bareMark written)]
    exact balanced
  refine ⟨continued (withMetadata document.metadata (restore pairs)), ?_⟩
  rw [parse_of_wellHeaded (wellHeaded_written h.metadata written), groupText_of_balanced spelled,
    logicalLines_written h.metadata, filterMap_metadataPair?_written h.metadata written,
    override_fresh (by simpa using h.distinct), List.nil_append]
  change (Node.ofTrees (treesOf (document.nodes.flatMap tokensOf))).map _ = _
  rw [ofTrees_flatMap h.nodes h.apart]
  rfl

/-- The documents that texts are read as are those in normal form. -/
theorem parse_range (document : Document) :
    (∃ text, Document.parse text = .ok document) ↔ document.Normal :=
  ⟨fun ⟨_, parsed⟩ => parse_normal parsed, exists_text_of_normal⟩

end BracketMarkup
