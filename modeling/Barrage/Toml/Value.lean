import Barrage.Record

/-!
TOML values and the records in them.

A date or time is kept as its normal text. Where a record is asked for, a table gives its members,
an array gives the fields in their order (items beyond the last field are passed over, fields beyond
the last item are missing), and a date or time counts as a table of one private member.
-/

namespace Barrage.Toml

/-- A TOML value. -/
inductive Value where
  | string (s : String)
  | integer (n : Int)
  | float
  | boolean (b : Bool)
  | datetime (text : String)
  | array (items : List Value)
  | table (members : List (String × Value))
  deriving Repr, Inhabited

namespace Value

/-- The name of the one member of a date or time. -/
def datetimeMember : String := "$__toml_private_datetime"

/-- The members of a value that counts as a table. -/
def members? : Value → Option (List (String × Value))
  | table members => some members
  | datetime text => some [(datetimeMember, string text)]
  | _ => none

end Value

instance : Form Value where
  fields? names
    | .array items => some (names.zipIdx.map fun n => items[n.2]?)
    | v => v.members?.map fun members => names.map fun n => members.lookup n
  below? bound
    | .integer n => if 0 ≤ n ∧ n < bound then some n.toNat else none
    | _ => none
  text?
    | .string s => some s
    | _ => none
  items?
    | .array items => some items
    | _ => none
  entries? := Value.members?

end Barrage.Toml
