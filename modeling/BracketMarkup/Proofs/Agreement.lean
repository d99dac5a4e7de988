import BracketMarkup.Proofs.Lines
import BracketMarkup.Proofs.Respelling

namespace BracketMarkup

open Bracketed Call

theorem parse_of_not_wellHeaded {text : List Char} (h : ¬ WellHeaded text) :
    (Document.parse text).mapError ParseError.kind = .error .badMetadata := by
  rcases first_or_none Malformed (logicalLines text) with
    headed | ⟨before, line, after, lines, none, malformed⟩
  · exact absurd headed h
  · rw [Document.parse, separate_error lines none malformed]
    rfl

theorem parse_agrees {text other : List Char} (wellHeaded : WellHeaded other ↔ WellHeaded text)
    (metadata : (logicalLines other).filterMap metadataPair? =
      (logicalLines text).filterMap metadataPair?)
    (bodies : (groupText (bodyOf other) >>= Node.ofTrees).mapError ParseError.kind =
      (groupText (bodyOf text) >>= Node.ofTrees).mapError ParseError.kind) :
    (Document.parse other).mapError ParseError.kind = (Document.parse text).mapError ParseError.kind := by
  by_cases headed : WellHeaded text
  · rw [parse_of_wellHeaded headed, parse_of_wellHeaded (wellHeaded.mpr headed), metadata]
    exact mapError_map_congr _ bodies
  · rw [parse_of_not_wellHeaded headed, parse_of_not_wellHeaded (mt wellHeaded.mp headed)]

section Replaced

variable {text other : List Char} {before lines others after : List (List Char)}
  (unmarked : Unmarked lines) (unmarkedOther : Unmarked others)
  (shape : logicalLines text = before ++ (lines ++ after))
  (shapeOther : logicalLines other = before ++ (others ++ after))
include unmarked unmarkedOther shape shapeOther

theorem wellHeaded_replaced : WellHeaded other ↔ WellHeaded text := by
  rw [WellHeaded, WellHeaded, shape, shapeOther]
  simp only [List.forall_mem_append, and_iff_right unmarked.formed, and_iff_right unmarkedOther.formed]

theorem metadata_replaced : (logicalLines other).filterMap metadataPair? =
    (logicalLines text).filterMap metadataPair? := by
  simp only [shape, shapeOther, List.filterMap_append, unmarked.metadata, unmarkedOther.metadata]

theorem parse_replaced (kept : others.filterMap keptLine? = lines.filterMap keptLine?) :
    (Document.parse other).mapError ParseError.kind = (Document.parse text).mapError ParseError.kind := by
  have bodies : bodyOf other = bodyOf text := by
    simp only [bodyOf, shape, shapeOther, List.filterMap_append, kept]
  exact parse_agrees (wellHeaded_replaced unmarked unmarkedOther shape shapeOther)
    (metadata_replaced unmarked unmarkedOther shape shapeOther) (by rw [bodies])

end Replaced

end BracketMarkup
