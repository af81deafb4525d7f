/-! Places in a text. Offsets count bytes of UTF-8, rows and columns count from one, and a column
is one character other than a carriage return. -/
namespace Wordhoard.Text

def byteLength (s : List Char) : Nat := s.foldr (fun c n => c.utf8Size + n) 0

theorem byteLength_cons (c : Char) (s : List Char) :
    byteLength (c :: s) = c.utf8Size + byteLength s :=
  rfl

def splitBytes? : Nat → List Char → Option (List Char × List Char)
  | 0, s => some ([], s)
  | _ + 1, [] => none
  | n + 1, c :: rest =>
    if c.utf8Size ≤ n + 1 then
      (splitBytes? (n + 1 - c.utf8Size) rest).map fun (a, b) => (c :: a, b)
    else none

structure Mark where
  index : Nat
  row : Nat
  column : Nat
  deriving DecidableEq, Repr

def Mark.start : Mark := ⟨0, 1, 1⟩

/-- Past one more character: a newline starts a row, a carriage return takes no column. -/
def Mark.next (m : Mark) (c : Char) : Mark :=
  if c = '\r' then { m with index := m.index + c.utf8Size }
  else if c = '\n' then ⟨m.index + c.utf8Size, m.row + 1, 1⟩
  else ⟨m.index + c.utf8Size, m.row, m.column + 1⟩

def Mark.advance (m : Mark) (s : List Char) : Mark := s.foldl Mark.next m

structure Position where
  index : Nat
  rowBegin : Nat
  columnBegin : Nat
  rowEnd : Nat
  columnEnd : Nat
  deriving DecidableEq, Repr

def Position.between (first last : Mark) : Position :=
  ⟨first.index, first.row, first.column, last.row, last.column⟩

def Mark.position (m : Mark) : Position := .between m m

def Position.text (p : Position) : String := s!"{p.rowBegin}:{p.columnBegin}"

end Wordhoard.Text
