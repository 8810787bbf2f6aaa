import ModuleRules.Text.Basic

/-!
# Lines

A line ends at a line feed or at the end of the text; a carriage return
right before the line feed belongs to the line end. Nothing follows a final
line feed, so a text that ends in one has no empty last line.
-/

namespace ModuleRules.Text

/-- A line feed may be preceded by one carriage return. -/
def dropReturn (line : Text) : Text := (beforeLast? '\r' line).getD line

/-- The last piece is a line only if it is not empty, and ends no line, so it
keeps its carriage return. -/
def linesOfPieces : List Text → List Text
  | [] => []
  | [t] => if t = [] then [] else [t]
  | t :: u :: r => dropReturn t :: linesOfPieces (u :: r)

def lines (t : Text) : List Text := linesOfPieces (split '\n' t)

end ModuleRules.Text
