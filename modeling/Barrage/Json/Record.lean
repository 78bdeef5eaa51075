import Barrage.Json.Basic
import Barrage.Record

/-!
Records inside JSON values.

A record is an object that has the record's fields as members, beside any others, or an array of its
fields in their order, of which the last ones may be missing. A field that stands twice in an object
spoils the record.
-/

namespace Barrage.Json

/-- The only member of the given name: `some none` when there is none, `none` when there are
several. -/
def only? {α : Type} (name : String) (members : List (String × α)) : Option (Option α) :=
  match members.filter (·.1 = name) with
  | [] => some none
  | [m] => some (some m.2)
  | _ => none

/-- The members of the given names. -/
def pick? {α : Type} (members : List (String × α)) : List String → Option (List (Option α))
  | [] => some []
  | name :: names => do
    let found ← only? name members
    let rest ← pick? members names
    return found :: rest

/-- The fields of a record given as an array. -/
def inOrder? {α : Type} (items : List α) (names : List String) : Option (List (Option α)) :=
  if items.length ≤ names.length then
    some (items.map some ++ List.replicate (names.length - items.length) none)
  else none

/-- An integer between zero and a bound; a double is none, whatever its value. -/
def Number.below? (bound : Nat) : Number → Option Nat
  | .int n => if 0 ≤ n ∧ n < bound then some n.toNat else none
  | .double _ => none

instance : Form Value where
  fields? names
    | .object members => pick? members names
    | .array items => inOrder? items names
    | _ => none
  below? bound
    | .number n => n.below? bound
    | _ => none
  text?
    | .string s => some s
    | _ => none
  items?
    | .array items => some items
    | _ => none
  entries?
    | .object members => some members
    | _ => none

instance : Form Tree where
  fields? names
    | .object members => pick? members names
    | .array items => inOrder? items names
    | _ => none
  below? bound
    | .number n => n.below? bound
    | _ => none
  text?
    | .string s => some s
    | _ => none
  items?
    | .array items => some items
    | _ => none
  entries?
    | .object members => some members
    | _ => none

/-- The member of a name, when the value is an object that has it. -/
def Value.get? (name : String) : Value → Option Value
  | .object members => members.lookup name
  | _ => none

/-- A name out of an enumeration: the name itself or an object whose only member has that name and
the value null. -/
def Value.name? : Value → Option String
  | .string s => some s
  | .object [(s, .null)] => some s
  | _ => none

/-- A name out of an enumeration, in a text. -/
def Tree.name? : Tree → Option String
  | .string s => some s
  | .object [(s, .null)] => some s
  | _ => none

end Barrage.Json
