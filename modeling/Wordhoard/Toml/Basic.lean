/-! TOML values, and the tables that a document builds up. A table may be defined in pieces: on the
way to another one, by dotted keys, or by a header, and how it came to be decides what may join
it. -/
namespace Wordhoard.Toml

inductive Value where
  | string (value : String)
  | integer (value : Int)
  | boolean (value : Bool)
  | float (text : String)
  | dateTime (text : String)
  | array (items : List Value)
  | table (members : List (String × Value))
  deriving Inhabited

inductive Origin where
  | header
  /-- On the way to the table of a header. -/
  | implied
  /-- On the way of a dotted key. -/
  | dotted
  deriving DecidableEq, Repr

inductive Item where
  | value (v : Value)
  | table (origin : Origin) (members : List (String × Item))
  /-- The tables of a repeated header; the last one comes first. -/
  | rows (tables : List (List (String × Item)))

abbrev Members := List (String × Item)

def alter (name : String) (change : Option Item → Option Item) : Members → Option Members
  | [] => (change none).map fun i => [(name, i)]
  | (k, i) :: rest =>
    if k = name then (change (some i)).map fun i => (k, i) :: rest
    else (alter name change rest).map ((k, i) :: ·)

/-- Changes the table at the end of the names of a header. The last of repeated tables counts. -/
def within (change : Members → Option Members) : List String → Members → Option Members
  | [], members => change members
  | name :: names, members =>
    members |> alter name fun
      | none => (within change names []).map (.table .implied)
      | some (.table origin inner) => (within change names inner).map (.table origin)
      | some (.rows (last :: others)) =>
        (within change names last).map fun last => .rows (last :: others)
      | some _ => none

def define (name : String) (v : Value) : Members → Option Members :=
  alter name fun
    | none => some (.value v)
    | some _ => none

/-- Sets the last of dotted names. The names before it lead through tables that no header defined,
and the last of those has to come from dotted keys too. -/
def put (v : Value) : List String → Members → Option Members
  | [], _ => none
  | [name], members => define name v members
  | name :: next :: names, members =>
    members |> alter name fun
      | none => (put v (next :: names) []).map (.table .dotted)
      | some (.table .dotted inner) => (put v (next :: names) inner).map (.table .dotted)
      | some (.table .implied inner) =>
        if names.isEmpty then none else (put v (next :: names) inner).map (.table .implied)
      | some (.rows (last :: others)) =>
        if names.isEmpty then none
        else (put v (next :: names) last).map fun last => .rows (last :: others)
      | some _ => none

def openTable (name : String) : Members → Option Members :=
  alter name fun
    | none => some (.table .header [])
    | some (.table .implied inner) => some (.table .header inner)
    | some _ => none

def openRow (name : String) : Members → Option Members :=
  alter name fun
    | none => some (.rows [[]])
    | some (.rows tables) => some (.rows ([] :: tables))
    | some _ => none

mutual

def Item.toValue : Item → Value
  | .value v => v
  | .table _ members => .table (membersValue members)
  | .rows tables => .array (rowsValue tables).reverse

def membersValue : List (String × Item) → List (String × Value)
  | [] => []
  | (k, i) :: rest => (k, i.toValue) :: membersValue rest

def rowsValue : List (List (String × Item)) → List Value
  | [] => []
  | t :: rest => .table (membersValue t) :: rowsValue rest

end

inductive Statement where
  | pair (names : List String) (v : Value)
  | table (names : List String)
  | row (names : List String)

structure Draft where
  members : Members := []
  header : List String := []

def Draft.under (d : Draft) (names : List String) (change : String → Members → Option Members) :
    Option Draft := do
  let name ← names.getLast?
  return ⟨← within (change name) names.dropLast d.members, names⟩

def Draft.add (d : Draft) : Statement → Option Draft
  | .pair names v => (within (put v names) d.header d.members).map ({ d with members := · })
  | .table names => d.under names openTable
  | .row names => d.under names openRow

def ofStatements? (statements : List Statement) : Option (List (String × Value)) :=
  (statements.foldlM Draft.add {}).map fun d => membersValue d.members

def ofPairs? (pairs : List (List String × Value)) : Option Value :=
  (pairs.foldlM (fun members p => put p.2 p.1 members) []).map fun members =>
    .table (membersValue members)

end Wordhoard.Toml
