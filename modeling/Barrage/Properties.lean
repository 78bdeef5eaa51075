import Barrage.Json.Basic

/-!
Free-form properties.

A property map assigns texts to names. Its entries stand in the order of their names, each name
once, so that equal maps are equal values.
-/

namespace Barrage

/-- A map from names to texts. -/
structure Properties where
  /-- The entries in the order of their names. -/
  entries : List (String × String)
  increasing : (entries.map Prod.fst).Pairwise (· < ·)
  deriving DecidableEq

namespace Properties

/-- The map without entries. -/
def empty : Properties := ⟨[], List.Pairwise.nil⟩

instance : Inhabited Properties := ⟨empty⟩

/-- The map of the given entries; of a repeated name the last entry stays. -/
def ofList (entries : List (String × String)) : Properties :=
  ⟨Json.sortMembers entries, Json.pairwise_keys_sortMembers entries⟩

/-- The text of a name. -/
def get? (p : Properties) (name : String) : Option String := p.entries.lookup name

end Properties

end Barrage
