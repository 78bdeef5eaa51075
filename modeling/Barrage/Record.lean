import Barrage.Properties

/-!
Forms in which records are written.

Events, daemons, tokens and settings are records: fixed fields of numbers, texts, rows and maps. What
differs from one written form to another is how a field, a number, a text, a row and a map are found,
and a form says just that; a record is then read from every form by one reader. Whether a missing
field has a default is for that reader to say.
-/

namespace Barrage

/-- A form of written values. -/
class Form (V : Type) where
  /-- The fields of a record of the given field names; none when the value is no record. -/
  fields? : List String → V → Option (List (Option V))
  /-- A natural number below a bound. -/
  below? : Nat → V → Option Nat
  /-- A text. -/
  text? : V → Option String
  /-- A row. -/
  items? : V → Option (List V)
  /-- A map. -/
  entries? : V → Option (List (String × V))

namespace Form

variable {V : Type} [Form V]

/-- An unsigned number of 16 bits. -/
def port? (v : V) : Option UInt16 := (below? UInt16.size v).map UInt16.ofNat

/-- An unsigned number of 32 bits. -/
def word? (v : V) : Option UInt32 := (below? UInt32.size v).map UInt32.ofNat

/-- An unsigned number of 64 bits. -/
def longWord? (v : V) : Option UInt64 := (below? UInt64.size v).map UInt64.ofNat

/-- A row of records, empty when it is missing. -/
def rows? {α : Type} (read? : V → Option α) : Option V → Option (List α)
  | none => some []
  | some v => (items? v).bind fun items => items.mapM read?

/-- A map of texts. -/
def texts? (v : V) : Option Properties := do
  let entries ← entries? v
  let texts ← entries.mapM fun e => (text? e.2).map fun t => (e.1, t)
  return Properties.ofList texts

/-- A map of texts, empty when it is missing. -/
def properties? : Option V → Option Properties
  | none => some Properties.empty
  | some v => texts? v

end Form

end Barrage
