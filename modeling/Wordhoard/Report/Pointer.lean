import Wordhoard.Text.Lines
import Wordhoard.Text.Position

/-! A caret under the place of an error. -/
namespace Wordhoard.Report

def pointer (text : String) (p : Text.Position) : String :=
  let line := (Text.lines text.toList).getD (p.rowBegin - 1) []
  "  " ++ String.ofList line ++ "\n  " ++ String.ofList (List.replicate (p.columnBegin - 1) ' ') ++
    "^\n"

end Wordhoard.Report
