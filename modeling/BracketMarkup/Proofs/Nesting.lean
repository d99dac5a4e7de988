import BracketMarkup.Page
import BracketMarkup.Proofs.Results

namespace BracketMarkup

namespace Html

open Template

variable {σ : Type}

/-- Whether a call makes no element: it is for another backend, or for pages only without a literal
    tag. -/
def isDropped (head : Head) : Bool :=
  match head.backend with
  | none => false
  | some backend => backend != htmlBackend || !literalMark.isPrefixOf head.name

def elementName (head : Head) : List Char :=
  match head.backend with
  | none => head.name
  | some _ => head.name.drop literalMark.length

/-- One report for each attribute of a call that cannot be written. -/
def attributeReports (head : Head) : List Diagnostic :=
  (head.attributes.filter (!isName ·.1)).map fun pair => .badAttribute pair.1 (elementName head)

mutual

def nodeHeight : Node → Nat
  | .text _ => 0
  | .call head arguments => if isDropped head then 0 else height arguments + 1

/-- How deep the elements for some nodes stand in each other. -/
def height : List Node → Nat
  | [] => 0
  | node :: rest => max (nodeHeight node) (height rest)

end

mutual

def ofNode : Node → Option Html × List Diagnostic
  | .text content => (some (ofText content), [])
  | .call head arguments =>
    if isDropped head then (none, [])
    else (some (tag (elementName head) (head.attributes.filter (isName ·.1)) (ofNodes arguments).1),
      (ofNodes arguments).2 ++ attributeReports head)

/-- The page content of nodes, if it is finished, with the diagnostics of what is kept. -/
def ofNodes : List Node → List Html × List Diagnostic
  | [] => ([], [])
  | node :: rest =>
    ((ofNode node).1.toList ++ (ofNodes rest).1, (ofNode node).2 ++ (ofNodes rest).2)

end

theorem nodes_induction {motive : List Node → Prop} (nodes : List Node) (nil : motive [])
    (text : ∀ content rest, motive rest → motive (.text content :: rest))
    (call : ∀ head arguments rest, motive arguments → motive rest →
      motive (.call head arguments :: rest)) : motive nodes := by
  match nodes with
  | [] => exact nil
  | .text content :: rest => exact text content rest (nodes_induction rest nil text call)
  | .call head arguments :: rest =>
    exact call head arguments rest (nodes_induction arguments nil text call)
      (nodes_induction rest nil text call)

theorem ofNodes_text (content : List Char) (rest : List Node) :
    ofNodes (.text content :: rest) = (ofText content :: (ofNodes rest).1, (ofNodes rest).2) := rfl

theorem ofNodes_dropped {head : Head} (h : isDropped head = true) (arguments rest : List Node) :
    ofNodes (.call head arguments :: rest) = ofNodes rest := by
  rw [ofNodes, ofNode, if_pos h]
  rfl

theorem ofNodes_kept {head : Head} (h : isDropped head = false) (arguments rest : List Node) :
    ofNodes (.call head arguments :: rest) =
      (tag (elementName head) (head.attributes.filter (isName ·.1)) (ofNodes arguments).1 ::
          (ofNodes rest).1,
        (ofNodes arguments).2 ++ attributeReports head ++ (ofNodes rest).2) := by
  rw [ofNodes, ofNode, h, if_neg Bool.false_ne_true]
  rfl

theorem height_dropped {head : Head} (h : isDropped head = true) (arguments rest : List Node) :
    height (.call head arguments :: rest) = height rest := by
  rw [height, nodeHeight, if_pos h, Nat.zero_max]

theorem height_kept {head : Head} (h : isDropped head = false) (arguments rest : List Node) :
    height (.call head arguments :: rest) = max (height arguments + 1) (height rest) := by
  rw [height, nodeHeight, h, if_neg Bool.false_ne_true]

theorem height_text (content : List Char) (rest : List Node) :
    height (.text content :: rest) = height rest := by
  rw [height, nodeHeight, Nat.zero_max]

theorem isDropped_eq_false {head : Head} (h : isDropped head = false) :
    isForeign head = false ∧ tagName? head = some (elementName head) := by
  rw [isDropped] at h
  rw [isForeign, tagName?, elementName]
  split at h
  · rename_i backend
    simp [backend]
  · rename_i backend given
    rw [Bool.or_eq_false_iff, Bool.not_eq_false'] at h
    simp [given, h]

theorem buildNodes_text (depth : Nat) (content : List Char) (rest : List Node) :
    (buildNodes depth (.text content :: rest) : Expansion σ (List Html)) =
      (ofText content :: ·) <$> buildNodes depth rest := by
  rw [buildNodes, buildNode, pure_bind, map_eq_pure_bind]
  rfl

theorem buildNodes_dropped {head : Head} (h : isDropped head = true) (depth : Nat)
    (arguments rest : List Node) :
    (buildNodes depth (.call head arguments :: rest) : Expansion σ (List Html)) =
      buildNodes depth rest := by
  -- A foreign call is left before its arguments are read, and so is one without a tag.
  have nothing : (buildNode depth (.call head arguments) : Expansion σ (Option Html)) = pure none := by
    rw [buildNode]
    split
    · rfl
    · rename_i ours
      rw [isDropped] at h
      split at h
      · cases h
      · rename_i backend given
        rw [isForeign, given, Option.any_some, Bool.not_eq_true] at ours
        rw [ours, Bool.false_or, Bool.not_eq_true'] at h
        simp [buildElement, tagName?, given, h]
  rw [buildNodes, nothing, pure_bind]
  exact bind_pure _

theorem buildNodes_too_deep {head : Head} (h : isDropped head = false) (arguments rest : List Node) :
    (buildNodes 0 (.call head arguments :: rest) : Expansion σ (List Html)) =
      throw .tooDeep >>= fun html : Option Html => do
        return html.toList ++ (← buildNodes 0 rest) := by
  obtain ⟨ours, named⟩ := isDropped_eq_false h
  rw [buildNodes, buildNode, ours, if_neg Bool.false_ne_true]
  simp only [buildElement, named]

theorem buildNodes_kept {head : Head} (h : isDropped head = false) (depth : Nat)
    (arguments rest : List Node) :
    (buildNodes (depth + 1) (.call head arguments :: rest) : Expansion σ (List Html)) = do
      let children ← buildNodes depth arguments
      reportAll (attributeReports head)
      let following ← buildNodes (depth + 1) rest
      return tag (elementName head) (head.attributes.filter (isName ·.1)) children :: following := by
  obtain ⟨ours, named⟩ := isDropped_eq_false h
  rw [buildNodes, buildNode, ours, if_neg Bool.false_ne_true]
  simp only [buildElement, named, bind_assoc, pure_bind]
  rfl

theorem gives_buildNodes {nodes : List Node} {depth : Nat} (h : height nodes ≤ depth) :
    Gives (buildNodes depth nodes : Expansion σ (List Html)) (ofNodes nodes).1 (ofNodes nodes).2 "" := by
  induction nodes using nodes_induction generalizing depth with
  | nil => exact Gives.pure []
  | text content rest ih =>
    rw [height_text] at h
    rw [buildNodes_text, ofNodes_text, map_eq_pure_bind]
    exact (ih h).returning (ofText content :: ·)
  | call head arguments rest inner ih =>
    cases dropped : isDropped head with
    | true =>
      rw [height_dropped dropped] at h
      rw [buildNodes_dropped dropped, ofNodes_dropped dropped]
      exact ih h
    | false =>
      rw [height_kept dropped] at h
      obtain ⟨depth, rfl⟩ : ∃ less, depth = less + 1 := ⟨depth - 1, by omega⟩
      have children := inner (by omega : height arguments ≤ depth)
      have following := ih (by omega : height rest ≤ depth + 1)
      rw [buildNodes_kept dropped, ofNodes_kept dropped, List.append_assoc]
      refine children.bind_silent ?_
      refine (Gives.reportAll _).bind_silent ?_
      exact following.returning _

/-- Where some elements stand too deep in each other, the content stops at the first of them. What was
    reported before stays reported. -/
theorem stops_buildNodes {nodes : List Node} {depth : Nat} (h : depth < height nodes) :
    ∃ reported, reported <+: (ofNodes nodes).2 ∧
      Stops (buildNodes depth nodes : Expansion σ (List Html)) .tooDeep reported := by
  induction nodes using nodes_induction generalizing depth with
  | nil => simp [height] at h
  | text content rest ih =>
    rw [height_text] at h
    obtain ⟨reported, before, stops⟩ := ih h
    refine ⟨reported, before, ?_⟩
    rw [buildNodes_text, map_eq_pure_bind]
    exact stops.bind _
  | call head arguments rest inner ih =>
    cases dropped : isDropped head with
    | true =>
      rw [height_dropped dropped] at h
      rw [buildNodes_dropped dropped, ofNodes_dropped dropped]
      exact ih h
    | false =>
      rw [height_kept dropped] at h
      rw [ofNodes_kept dropped]
      cases depth with
      | zero =>
        rw [buildNodes_too_deep dropped]
        exact ⟨[], List.nil_prefix, (Stops.throw _).bind _⟩
      | succ depth =>
        rw [buildNodes_kept dropped]
        by_cases deep : depth < height arguments
        · obtain ⟨reported, before, stops⟩ := inner deep
          refine ⟨reported, ?_, stops.bind _⟩
          rw [List.append_assoc]
          exact before.trans (List.prefix_append _ _)
        · obtain ⟨reported, before, stops⟩ := ih (by omega : depth + 1 < height rest)
          refine ⟨(ofNodes arguments).2 ++ (attributeReports head ++ reported), ?_, ?_⟩
          · rw [List.append_assoc, List.prefix_append_right_inj, List.prefix_append_right_inj]
            exact before
          · have children := gives_buildNodes (σ := σ) (by omega : height arguments ≤ depth)
            exact children.bind_stops ((Gives.reportAll _).bind_stops (stops.bind _))

end Html

namespace Page

open Template Html

variable {σ : Type} {nodes : List Node} {depth : Nat}

theorem gives_content (h : height nodes ≤ depth) :
    Gives (contentWithin depth nodes : Expansion σ (List Char)) (renderAll (ofNodes nodes).1)
      (ofNodes nodes).2 "" :=
  (gives_buildNodes h).returning renderAll

theorem stops_content (h : depth < height nodes) : ∃ reported, reported <+: (ofNodes nodes).2 ∧
    Stops (contentWithin depth nodes : Expansion σ (List Char)) .tooDeep reported := by
  obtain ⟨reported, before, stops⟩ := stops_buildNodes (σ := σ) h
  exact ⟨reported, before, stops.bind _⟩

end Page

end BracketMarkup
