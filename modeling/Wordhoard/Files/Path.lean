/-! Paths as text. Slashes separate the segments of a path; empty segments and single dots do not
count, but for a dot that begins a relative path. -/
namespace Wordhoard.Files

def splitSlashes : List Char → List (List Char)
  | [] => [[]]
  | c :: rest =>
    if c = '/' then [] :: splitSlashes rest
    else match splitSlashes rest with
      | s :: others => (c :: s) :: others
      | [] => [[c]]

def segments (path : String) : List String := (splitSlashes path.toList).map String.ofList

def isAbsolute (path : String) : Bool := path.toList.head? = some '/'

def dropIdle : List String → List String
  | [] => []
  | s :: rest => if s = "" ∨ (s = "." ∧ rest ≠ []) then dropIdle rest else s :: rest

def trailing (path : String) : List String := dropIdle (segments path).reverse

def joinSegments (reversed : List String) : String := "/".intercalate reversed.reverse

/-- The directory that a path lies in. The root and the empty path lie in none. -/
def parent? (path : String) : Option String :=
  match trailing path with
  | [] => none
  | _ :: rest =>
    match dropIdle rest with
    | [] => some (if isAbsolute path then "/" else "")
    | rest => some (joinSegments rest)

/-- The part of a file name before its last dot. A dot in front begins no extension. -/
def stem (name : String) : String :=
  match name.toList.reverse.dropWhile (· ≠ '.') with
  | _ :: c :: before => String.ofList (c :: before).reverse
  | _ => name

def withExtension (path extension : String) : String :=
  match trailing path with
  | [] => path
  | name :: rest =>
    if name = ".." ∨ name = "." then path
    else joinSegments ((stem name ++ "." ++ extension) :: rest)

def join (directory path : String) : String :=
  if isAbsolute path ∨ directory = "" then path
  else if directory.toList.getLast? = some '/' then directory ++ path
  else directory ++ "/" ++ path

end Wordhoard.Files
