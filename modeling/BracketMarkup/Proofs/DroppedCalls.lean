import BracketMarkup.Proofs.Nesting

namespace BracketMarkup

namespace Html

open Template

mutual

def pruneNode : Node → List Node
  | .text content => [.text content]
  | .call head arguments => if isDropped head then [] else [.call head (prune arguments)]

/-- The nodes without the calls that make no element, at every depth and with all that is in them. -/
def prune : List Node → List Node
  | [] => []
  | node :: rest => pruneNode node ++ prune rest

end

mutual

def nodeHeads : Node → List Head
  | .text _ => []
  | .call head arguments => heads arguments ++ [head]

/-- The heads of all calls, those in a call's arguments before its own. -/
def heads : List Node → List Head
  | [] => []
  | node :: rest => nodeHeads node ++ heads rest

end

mutual

def nodeTags : Html → List (List Char × List (List Char × List Char))
  | .text _ => []
  | .tag name attributes children => tags children ++ [(name, attributes)]

/-- The names and attributes of all elements, those in an element before its own. -/
def tags : List Html → List (List Char × List (List Char × List Char))
  | [] => []
  | node :: rest => nodeTags node ++ tags rest

end

theorem prune_text (content : List Char) (rest : List Node) :
    prune (.text content :: rest) = .text content :: prune rest := rfl

theorem prune_dropped {head : Head} (h : isDropped head = true) (arguments rest : List Node) :
    prune (.call head arguments :: rest) = prune rest := by
  rw [prune, pruneNode, if_pos h, List.nil_append]

theorem prune_kept {head : Head} (h : isDropped head = false) (arguments rest : List Node) :
    prune (.call head arguments :: rest) = .call head (prune arguments) :: prune rest := by
  rw [prune, pruneNode, h, if_neg Bool.false_ne_true, List.singleton_append]

theorem heads_call (head : Head) (arguments rest : List Node) :
    heads (.call head arguments :: rest) = heads arguments ++ head :: heads rest := by
  rw [heads, nodeHeads, List.append_assoc, List.singleton_append]

theorem tags_tag (name : List Char) (attributes : List (List Char × List Char))
    (children rest : List Html) :
    tags (.tag name attributes children :: rest) =
      tags children ++ (name, attributes) :: tags rest := by
  rw [tags, nodeTags, List.append_assoc, List.singleton_append]

theorem ofNodes_prune (nodes : List Node) : ofNodes (prune nodes) = ofNodes nodes := by
  induction nodes using nodes_induction with
  | nil => rfl
  | text content rest ih => rw [prune_text, ofNodes_text, ofNodes_text, ih]
  | call head arguments rest inner ih =>
    cases dropped : isDropped head with
    | true => rw [prune_dropped dropped, ih, ofNodes_dropped dropped]
    | false => rw [prune_kept dropped, ofNodes_kept dropped, ofNodes_kept dropped, inner, ih]

theorem buildNodes_prune {σ : Type} (depth : Nat) (nodes : List Node) :
    (buildNodes depth (prune nodes) : Expansion σ (List Html)) = buildNodes depth nodes := by
  induction nodes using nodes_induction generalizing depth with
  | nil => rfl
  | text content rest ih => rw [prune_text, buildNodes_text, buildNodes_text, ih]
  | call head arguments rest inner ih =>
    cases dropped : isDropped head with
    | true => rw [prune_dropped dropped, ih, buildNodes_dropped dropped]
    | false =>
      rw [prune_kept dropped]
      cases depth with
      | zero => rw [buildNodes_too_deep dropped, buildNodes_too_deep dropped, ih]
      | succ depth => rw [buildNodes_kept dropped, buildNodes_kept dropped, inner, ih]

theorem not_isDropped_of_mem_heads {nodes : List Node} {head : Head} (h : head ∈ heads (prune nodes)) :
    isDropped head = false := by
  induction nodes using nodes_induction with
  | nil => cases h
  | text content rest ih => exact ih h
  | call other arguments rest inner ih =>
    cases dropped : isDropped other with
    | true =>
      rw [prune_dropped dropped] at h
      exact ih h
    | false =>
      rw [prune_kept dropped, heads_call] at h
      rcases List.mem_append.mp h with inArguments | later
      · exact inner inArguments
      · rcases List.mem_cons.mp later with rfl | behind
        · exact dropped
        · exact ih behind

theorem ofNodes_of_kept {nodes : List Node} (h : ∀ head ∈ heads nodes, isDropped head = false) :
    tags (ofNodes nodes).1 =
        (heads nodes).map (fun head => (elementName head, head.attributes.filter (isName ·.1))) ∧
      (ofNodes nodes).2 = (heads nodes).flatMap attributeReports := by
  induction nodes using nodes_induction with
  | nil => exact ⟨rfl, rfl⟩
  | text content rest ih => exact ih h
  | call head arguments rest inner ih =>
    rw [heads_call] at h
    obtain ⟨innerElements, innerReports⟩ := inner fun other member => h other (by simp [member])
    obtain ⟨elements, reports⟩ := ih fun other member => h other (by simp [member])
    rw [ofNodes_kept (h head (by simp)), tags_tag, heads_call, innerElements, innerReports, elements,
      reports]
    simp

end Html

namespace Page

open Template Html

/-- A dropped call leaves no trace on a page, nor does anything in it. Of the other calls each makes its
    element, with just those attributes that can be written, and a report for each other attribute. Where
    the elements stand too deep in each other, rendering stops on the way. -/
theorem dropped_calls_leave_no_trace {σ : Type} (nodes : List Node) :
    (∀ depth, (contentWithin depth (prune nodes) : Expansion σ (List Char)) =
      contentWithin depth nodes) ∧
      (∀ depth, height nodes ≤ depth → Gives (contentWithin depth nodes : Expansion σ (List Char))
        (renderAll (ofNodes nodes).1) ((heads (prune nodes)).flatMap attributeReports) "") ∧
      (∀ depth, depth < height nodes → ∃ reported,
        reported <+: (heads (prune nodes)).flatMap attributeReports ∧
          Stops (contentWithin depth nodes : Expansion σ (List Char)) .tooDeep reported) ∧
      (∀ head ∈ heads (prune nodes), isDropped head = false) ∧
      tags (ofNodes nodes).1 = (heads (prune nodes)).map (fun head =>
        (elementName head, head.attributes.filter (isName ·.1))) ∧
      ∀ element ∈ tags (ofNodes nodes).1, (∀ pair ∈ element.2, isName pair.1 = true) ∧
        renderAttributes element.2 = element.2.flatMap renderAttribute := by
  have kept : ∀ head ∈ heads (prune nodes), isDropped head = false :=
    fun head member => not_isDropped_of_mem_heads member
  obtain ⟨elements, reports⟩ := ofNodes_of_kept kept
  rw [ofNodes_prune] at elements reports
  rw [← reports]
  refine ⟨fun depth => ?_, fun depth => gives_content, fun depth => stops_content, kept, elements,
    fun element member => ?_⟩
  · rw [contentWithin, contentWithin, buildNodes_prune]
  · rw [elements] at member
    obtain ⟨head, -, rfl⟩ := List.mem_map.mp member
    refine ⟨fun pair found => (List.mem_filter.mp found).2, ?_⟩
    rw [renderAttributes, List.filter_filter]
    simp only [Bool.and_self]

end Page

end BracketMarkup
