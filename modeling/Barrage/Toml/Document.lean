import Barrage.Toml.Value

/-!
How the statements of a TOML text build up its tables.

A header opens a table, a double header appends a row to an array of tables, and a key assigns a
value in the table that is open, through further tables when the key is dotted. A table may be opened
once, and only when nothing but a longer header has named it before; a dotted key may only go through
tables that dotted keys made; no key is assigned twice.
-/

namespace Barrage.Toml

/-- What brought a table into being. -/
inductive Origin where
  /-- Its own header, or the start of the text. -/
  | header
  /-- A longer header. -/
  | implied
  /-- A dotted key. -/
  | dotted
  deriving DecidableEq, Inhabited

/-- A table under construction. -/
inductive Node where
  | value (v : Value)
  | table (origin : Origin) (members : List (String × Node))
  | rows (rows : List (List (String × Node)))
  deriving Inhabited

/-- The members of a table. -/
abbrev Members : Type := List (String × Node)

/-- Puts a node in the place of the member of that name. -/
def replaceMember (name : String) (node : Node) (members : Members) : Members :=
  members.map fun m => if m.1 = name then (name, node) else m

/-- Changes the table at the end of a path; tables that are missing on the way come into being, as
`made` says. Arrays of tables are entered at their last row. A dotted key does not enter tables that
have a header. -/
def within (made : Origin) (change : Origin → Members → Option (Origin × Members)) :
    List String → Origin → Members → Option (Origin × Members)
  | [], origin, members => change origin members
  | name :: path, origin, members =>
    match members.lookup name with
    | none => do
      let (o, ms) ← within made change path made []
      return (origin, members ++ [(name, .table o ms)])
    | some (.value _) => none
    | some (.rows rows) => do
      let row ← rows.getLast?
      let (_, ms) ← within made change path .header row
      return (origin, replaceMember name (.rows (rows.dropLast ++ [ms])) members)
    | some (.table o ms) =>
      if made = .dotted ∧ o = .header then none
      else do
        let (o', ms') ← within made change path o ms
        return (origin, replaceMember name (.table o' ms') members)

/-- One statement. -/
inductive Statement where
  /-- Opens a table. -/
  | open (path : List String) (name : String)
  /-- Appends a row to an array of tables. -/
  | append (path : List String) (name : String)
  /-- Assigns a value. -/
  | assign (path : List String) (name : String) (value : Value)

/-- A text under construction: its tables and the path of the open one. -/
structure Draft where
  members : Members
  current : List String

/-- Opens a table inside its parent. -/
def openTable (name : String) (origin : Origin) (members : Members) : Option (Origin × Members) :=
  match members.lookup name with
  | none => some (origin, members ++ [(name, .table .header [])])
  | some (.table .implied ms) => some (origin, replaceMember name (.table .header ms) members)
  | _ => none

/-- Appends a row to an array of tables inside its parent. -/
def appendRow (name : String) (origin : Origin) (members : Members) : Option (Origin × Members) :=
  match members.lookup name with
  | none => some (origin, members ++ [(name, .rows [[]])])
  | some (.rows rows) => some (origin, replaceMember name (.rows (rows ++ [[]])) members)
  | _ => none

/-- Assigns a value in a table, which a dotted key asks to be of its own making. -/
def assignValue (isDotted : Bool) (name : String) (value : Value) (origin : Origin)
    (members : Members) : Option (Origin × Members) :=
  if isDotted ≠ (origin = .dotted : Bool) then none
  else if (members.lookup name).isSome then none
  else some (origin, members ++ [(name, .value value)])

/-- Carries out one statement. -/
def Draft.step (d : Draft) : Statement → Option Draft
  | .open path name => do
    let (_, members) ← within .implied (openTable name) path .header d.members
    return ⟨members, path ++ [name]⟩
  | .append path name => do
    let (_, members) ← within .implied (appendRow name) path .header d.members
    return ⟨members, path ++ [name]⟩
  | .assign path name value => do
    let assign := within .dotted (assignValue (!path.isEmpty) name value) path
    let (_, members) ← within .implied assign d.current .header d.members
    return ⟨members, d.current⟩

mutual
/-- The finished form of a node. -/
def Node.finish : Node → Value
  | .value v => v
  | .table _ ms => .table (Node.finishMembers ms)
  | .rows list => .array (Node.finishRows list)
/-- The finished form of members. -/
def Node.finishMembers : List (String × Node) → List (String × Value)
  | [] => []
  | (name, node) :: rest => (name, Node.finish node) :: Node.finishMembers rest
/-- The finished form of rows. -/
def Node.finishRows : List (List (String × Node)) → List Value
  | [] => []
  | row :: rest => .table (Node.finishMembers row) :: Node.finishRows rest
end

/-- The members of a text of the given statements. -/
def ofStatements? (statements : List Statement) : Option (List (String × Value)) := do
  let draft ← statements.foldlM Draft.step ⟨[], []⟩
  return Node.finishMembers draft.members

/-- The members of an inline table of the given assignments. -/
def ofAssignments? (assignments : List (List String × String × Value)) :
    Option (List (String × Value)) :=
  ofStatements? (assignments.map fun a => .assign a.1 a.2.1 a.2.2)

end Barrage.Toml
