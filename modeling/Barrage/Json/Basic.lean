/-!
JSON values.

A number is an integer when it was written as one and fits 64 bits, with or without a sign, and a
double otherwise. An object is a list of members; the values this library builds and reads keep the
keys strictly increasing by code point, so that equal objects have equal member lists. `Tree` is the
form of a text before that: members stand as they were written, in their order and with repeated
keys, and a literal that is well formed but denotes no value (a number beyond the doubles, a string
with an unpaired surrogate) is kept as `unreadable`, because a member that nobody asks for may hold
one.
-/

namespace Barrage.Json

/-- A number: an exact integer or a double. -/
inductive Number where
  | int (n : Int)
  | double (x : Float)
  deriving Repr, BEq, Inhabited

/-- A JSON value. -/
inductive Value where
  | null
  | bool (b : Bool)
  | number (n : Number)
  | string (s : String)
  | array (items : List Value)
  | object (members : List (String × Value))
  deriving Repr, Inhabited

/-- A JSON text as it was written. -/
inductive Tree where
  | null
  | bool (b : Bool)
  | number (n : Number)
  | string (s : String)
  | array (items : List Tree)
  | object (members : List (String × Tree))
  | unreadable
  deriving Repr, Inhabited

/-- Sets the member `key`: it takes the place of a member of the same key and otherwise goes in
front of the first larger one. -/
def setMember {α : Type} (key : String) (value : α) : List (String × α) → List (String × α)
  | [] => [(key, value)]
  | (k, v) :: rest =>
    if key < k then (key, value) :: (k, v) :: rest
    else if key = k then (key, value) :: rest
    else (k, v) :: setMember key value rest

/-- Members in the order of their keys; of a repeated key the last one stays. -/
def sortMembers {α : Type} (members : List (String × α)) : List (String × α) :=
  members.foldl (fun sorted m => setMember m.1 m.2 sorted) []

/-- Setting a member adds its key and keeps all others. -/
theorem mem_keys_setMember {α : Type} {key : String} {value : α} {ms : List (String × α)}
    {k : String} :
    k ∈ (setMember key value ms).map Prod.fst ↔ k = key ∨ k ∈ ms.map Prod.fst := by
  induction ms with
  | nil => simp [setMember]
  | cons m ms ih =>
    obtain ⟨l, v⟩ := m
    simp only [setMember]
    split
    · simp
    · split
      · rename_i h
        subst h
        simp
      · simp only [List.map_cons, List.mem_cons, ih]
        grind

/-- Setting a member keeps the keys increasing. -/
theorem pairwise_keys_setMember {α : Type} {key : String} {value : α} {ms : List (String × α)}
    (h : (ms.map Prod.fst).Pairwise (· < ·)) :
    ((setMember key value ms).map Prod.fst).Pairwise (· < ·) := by
  induction ms with
  | nil => simp [setMember]
  | cons m ms ih =>
    obtain ⟨l, v⟩ := m
    simp only [List.map_cons, List.pairwise_cons] at h
    simp only [setMember]
    split
    · rename_i hlt
      simp only [List.map_cons, List.pairwise_cons, List.mem_cons]
      refine ⟨?_, h.1, h.2⟩
      rintro k (rfl | hk)
      · exact hlt
      · exact String.lt_trans hlt (h.1 k hk)
    · split
      · rename_i he
        subst he
        simpa using h
      · rename_i hnlt hne
        simp only [List.map_cons, List.pairwise_cons]
        refine ⟨fun k hk => ?_, ih h.2⟩
        rcases mem_keys_setMember.1 hk with rfl | hk
        · exact Decidable.byContradiction fun hn =>
            hne (String.le_antisymm (String.not_lt.1 hn) (String.not_lt.1 hnlt))
        · exact h.1 k hk

/-- Sorted members have increasing keys. -/
theorem pairwise_keys_sortMembers {α : Type} (ms : List (String × α)) :
    ((sortMembers ms).map Prod.fst).Pairwise (· < ·) := by
  suffices h : ∀ acc : List (String × α), (acc.map Prod.fst).Pairwise (· < ·) →
      ((ms.foldl (fun sorted m => setMember m.1 m.2 sorted) acc).map Prod.fst).Pairwise (· < ·) from
    h [] List.Pairwise.nil
  induction ms with
  | nil => exact fun acc h => h
  | cons m ms ih => exact fun acc h => ih _ (pairwise_keys_setMember h)

/-- An object with the given members. -/
def Value.ofMembers (members : List (String × Value)) : Value := .object (sortMembers members)

/-- An integer. -/
def Value.int (n : Int) : Value := .number (.int n)

/-- A natural number. -/
def Value.nat (n : Nat) : Value := .number (.int n)

/-- The text or null. -/
def Value.ofString? : Option String → Value
  | some s => .string s
  | none => .null

mutual
/-- Equality of values, numbers being compared as numbers. -/
def Value.beq : Value → Value → Bool
  | .null, .null => true
  | .bool a, .bool b => a == b
  | .number a, .number b => a == b
  | .string a, .string b => a == b
  | .array a, .array b => Value.beqItems a b
  | .object a, .object b => Value.beqMembers a b
  | _, _ => false
/-- Equality of rows of values. -/
def Value.beqItems : List Value → List Value → Bool
  | [], [] => true
  | a :: as, b :: bs => Value.beq a b && Value.beqItems as bs
  | _, _ => false
/-- Equality of member lists. -/
def Value.beqMembers : List (String × Value) → List (String × Value) → Bool
  | [], [] => true
  | (k, a) :: as, (l, b) :: bs => k == l && Value.beq a b && Value.beqMembers as bs
  | _, _ => false
end

instance : BEq Value := ⟨Value.beq⟩

mutual
/-- The value a text denotes; none when some literal in it denotes no value. -/
def Tree.value? : Tree → Option Value
  | .null => some .null
  | .bool b => some (.bool b)
  | .number n => some (.number n)
  | .string s => some (.string s)
  | .array items => (Tree.values? items).map .array
  | .object members => (Tree.memberValues? members).map fun ms => .object (sortMembers ms)
  | .unreadable => none
/-- The values of a row of texts. -/
def Tree.values? : List Tree → Option (List Value)
  | [] => some []
  | t :: ts => do
    let v ← Tree.value? t
    let vs ← Tree.values? ts
    return v :: vs
/-- The values of members, in the order of the text. -/
def Tree.memberValues? : List (String × Tree) → Option (List (String × Value))
  | [] => some []
  | (k, t) :: ms => do
    let v ← Tree.value? t
    let vs ← Tree.memberValues? ms
    return (k, v) :: vs
end

mutual
/-- How many containers are nested at the deepest place. -/
def Tree.depth : Tree → Nat
  | .array items => Tree.depthItems items + 1
  | .object members => Tree.depthMembers members + 1
  | _ => 0
/-- The greatest depth in a row. -/
def Tree.depthItems : List Tree → Nat
  | [] => 0
  | t :: ts => max (Tree.depth t) (Tree.depthItems ts)
/-- The greatest depth among members. -/
def Tree.depthMembers : List (String × Tree) → Nat
  | [] => 0
  | (_, t) :: ms => max (Tree.depth t) (Tree.depthMembers ms)
end

end Barrage.Json
