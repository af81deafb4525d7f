/-! The lines of a text. A newline ends a line, together with a carriage return before it. -/
namespace Wordhoard.Text

def linesAfter (current : List Char) : List Char → List (List Char)
  | [] => if current.isEmpty then [] else [current.reverse]
  | c :: rest =>
    if c = '\n' then
      let line := match current with
        | '\r' :: line => line
        | line => line
      line.reverse :: linesAfter [] rest
    else linesAfter (c :: current) rest

def lines (s : List Char) : List (List Char) := linesAfter [] s

end Wordhoard.Text
