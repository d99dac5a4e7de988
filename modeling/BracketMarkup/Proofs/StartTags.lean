import BracketMarkup.Html.Basic
import BracketMarkup.Proofs.CharacterReferences

namespace BracketMarkup.Html

inductive TagStage where
  | between
  | name (read : List Char)
  | opening (name : List Char)
  | value (name read : List Char)

/-- Reads attributes up to the end of a start tag, each as a space, a name up to an equals sign and a
    value between two double quotes. What follows the tag is left. -/
def readAttributes : TagStage → List Char → Option (List (List Char × List Char) × List Char)
  | _, [] => none
  | .between, c :: rest =>
    if c = '>' then some ([], rest) else if c = ' ' then readAttributes (.name []) rest else none
  | .name read, c :: rest =>
    if c = '=' then readAttributes (.opening read) rest
    else readAttributes (.name (read ++ [c])) rest
  | .opening name, c :: rest => if c = '"' then readAttributes (.value name []) rest else none
  | .value name read, c :: rest =>
    if c = '"' then
      (readAttributes .between rest).map fun (attributes, after) => ((name, read) :: attributes, after)
    else readAttributes (.value name (read ++ [c])) rest

theorem readAttributes_name {name : List Char} (h : '=' ∉ name) (read rest : List Char) :
    readAttributes (.name read) (name ++ '=' :: rest) =
      readAttributes (.opening (read ++ name)) rest := by
  induction name generalizing read with
  | nil => simp [readAttributes]
  | cons c name ih =>
    rw [List.mem_cons, not_or] at h
    rw [List.cons_append, readAttributes, if_neg (Ne.symm h.1), ih h.2, List.append_assoc,
      List.singleton_append]

theorem readAttributes_value {value : List Char} (h : '"' ∉ value) (name read rest : List Char) :
    readAttributes (.value name read) (value ++ '"' :: rest) =
      (readAttributes .between rest).map fun (attributes, after) =>
        ((name, read ++ value) :: attributes, after) := by
  induction value generalizing read with
  | nil => simp [readAttributes]
  | cons c value ih =>
    rw [List.mem_cons, not_or] at h
    rw [List.cons_append, readAttributes, if_neg (Ne.symm h.1), ih h.2, List.append_assoc,
      List.singleton_append]

theorem notMem_of_isName {name : List Char} (h : isName name = true) {c : Char}
    (sign : isNameChar c = false) : c ∉ name := by
  intro member
  rw [isName, Bool.and_eq_true, List.all_eq_true] at h
  exact absurd (h.2 c member) (by simp [sign])

theorem readAttributes_renderAttribute {pair : List Char × List Char} (named : isName pair.1 = true)
    (rest : List Char) :
    readAttributes .between (renderAttribute pair ++ rest) =
      (readAttributes .between rest).map fun (attributes, after) =>
        ((pair.1, escapeValue pair.2) :: attributes, after) := by
  have written : renderAttribute pair ++ rest =
      ' ' :: (pair.1 ++ '=' :: '"' :: (escapeValue pair.2 ++ '"' :: rest)) := by
    simp [renderAttribute]
  -- Neither part of the attribute can end before its own delimiter.
  have inName : '=' ∉ pair.1 := notMem_of_isName named (by decide)
  have inValue : '"' ∉ escapeValue pair.2 := (escaped_escapeValue pair.2).notMem (by decide)
  rw [written, readAttributes, if_neg (by decide), if_pos rfl, readAttributes_name inName,
    readAttributes, if_pos rfl, readAttributes_value inValue]
  rfl

theorem readAttributes_flatMap {attributes : List (List Char × List Char)}
    (named : ∀ pair ∈ attributes, isName pair.1 = true) (rest : List Char) :
    readAttributes .between (attributes.flatMap renderAttribute ++ '>' :: rest) =
      some (attributes.map fun pair => (pair.1, escapeValue pair.2), rest) := by
  induction attributes with
  | nil => rfl
  | cons pair attributes ih =>
    rw [List.flatMap_cons, List.append_assoc, readAttributes_renderAttribute (named pair (by simp)),
      ih fun other member => named other (List.mem_cons_of_mem _ member)]
    rfl

theorem renderAll_eq_flatMap (nodes : List Html) : renderAll nodes = nodes.flatMap render := by
  induction nodes with
  | nil => rfl
  | cons node rest ih => rw [renderAll, ih, List.flatMap_cons]

/-- Whatever its attributes are, a start tag is read as the ones with a name that can be written, each
    with its escaped value, and ends before the element's content. -/
theorem render_reads_back (name : List Char) (attributes : List (List Char × List Char))
    (children : List Html) :
    ∃ after, render (.tag name attributes children) = '<' :: (name ++ after) ∧
      readAttributes .between after =
        some ((attributes.filter (isName ·.1)).map fun pair => (pair.1, escapeValue pair.2),
          children.flatMap render ++ '<' :: '/' :: (name ++ ['>'])) := by
  have named : ∀ pair ∈ attributes.filter (isName ·.1), isName pair.1 = true :=
    fun pair member => (List.mem_filter.mp member).2
  refine ⟨_, ?_, readAttributes_flatMap named _⟩
  simp [render, renderAttributes, renderAll_eq_flatMap]

end BracketMarkup.Html
