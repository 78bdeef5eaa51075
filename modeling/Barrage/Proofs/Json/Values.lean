import Barrage.Json.Basic

/-!
# Values and the trees that denote them

A value is *canonical* when the keys of every object in it increase, and *whole* when every number in
it is an integer that fits 64 bits.  A canonical value is what its own tree denotes (`value?_toTree`),
and whatever a tree denotes is canonical and nested no deeper than the tree (`canonical_of_value?`,
`depth_le_of_value?`).
-/

namespace Barrage.Json

/-! ### Values -/

mutual
/-- Whether a property holds of a value and of all values inside it. -/
def Value.Everywhere (p : Value → Prop) : Value → Prop
  | .array items => p (.array items) ∧ Value.EverywhereItems p items
  | .object members => p (.object members) ∧ Value.EverywhereMembers p members
  | v => p v
/-- Whether a property holds everywhere in a row of values. -/
def Value.EverywhereItems (p : Value → Prop) : List Value → Prop
  | [] => True
  | v :: vs => Value.Everywhere p v ∧ Value.EverywhereItems p vs
/-- Whether a property holds everywhere among members. -/
def Value.EverywhereMembers (p : Value → Prop) : List (String × Value) → Prop
  | [] => True
  | (_, v) :: ms => Value.Everywhere p v ∧ Value.EverywhereMembers p ms
end

/-- Whether a number is an integer that fits 64 bits, with or without a sign. -/
def Number.Whole : Number → Prop
  | .int n => -(UInt64.size / 2 : Nat) ≤ n ∧ n < UInt64.size
  | .double _ => False

/-- Whether a value is not a number, or a whole one. -/
def Value.NumberWhole : Value → Prop
  | .number n => n.Whole
  | _ => True

/-- Whether a value is not an object, or one whose keys increase. -/
def Value.KeysIncrease : Value → Prop
  | .object members => (members.map Prod.fst).Pairwise (· < ·)
  | _ => True

/-- Whether all numbers in a value are whole. -/
def Value.Whole (v : Value) : Prop := v.Everywhere Value.NumberWhole

/-- Whether the keys of all objects in a value increase. -/
def Value.Canonical (v : Value) : Prop := v.Everywhere Value.KeysIncrease

mutual
/-- How many containers are nested at the deepest place. -/
def Value.depth : Value → Nat
  | .array items => Value.depthItems items + 1
  | .object members => Value.depthMembers members + 1
  | _ => 0
/-- The greatest depth in a row. -/
def Value.depthItems : List Value → Nat
  | [] => 0
  | v :: vs => max (Value.depth v) (Value.depthItems vs)
/-- The greatest depth among members. -/
def Value.depthMembers : List (String × Value) → Nat
  | [] => 0
  | (_, v) :: ms => max (Value.depth v) (Value.depthMembers ms)
end

mutual
/-- The tree of a value. -/
def Value.toTree : Value → Tree
  | .null => .null
  | .bool b => .bool b
  | .number n => .number n
  | .string s => .string s
  | .array items => .array (Value.toTrees items)
  | .object members => .object (Value.toTreeMembers members)
/-- The trees of a row of values. -/
def Value.toTrees : List Value → List Tree
  | [] => []
  | v :: vs => Value.toTree v :: Value.toTrees vs
/-- The trees of members, under their keys. -/
def Value.toTreeMembers : List (String × Value) → List (String × Tree)
  | [] => []
  | (k, v) :: ms => (k, Value.toTree v) :: Value.toTreeMembers ms
end

theorem everywhereMembers_iff {p : Value → Prop} {ms : List (String × Value)} :
    Value.EverywhereMembers p ms ↔ ∀ m ∈ ms, m.2.Everywhere p := by
  induction ms with
  | nil => simp [Value.EverywhereMembers]
  | cons m ms ih => simp [Value.EverywhereMembers, ih]

theorem everywhereItems_iff {p : Value → Prop} {vs : List Value} :
    Value.EverywhereItems p vs ↔ ∀ v ∈ vs, v.Everywhere p := by
  induction vs with
  | nil => simp [Value.EverywhereItems]
  | cons v vs ih => simp [Value.EverywhereItems, ih]

theorem valueDepthItems_le_iff {vs : List Value} {n : Nat} :
    Value.depthItems vs ≤ n ↔ ∀ v ∈ vs, v.depth ≤ n := by
  induction vs with
  | nil => simp [Value.depthItems]
  | cons v vs ih => rw [Value.depthItems, Nat.max_le, ih, List.forall_mem_cons]

theorem depthMembers_le_iff {ms : List (String × Value)} {n : Nat} :
    Value.depthMembers ms ≤ n ↔ ∀ m ∈ ms, m.2.depth ≤ n := by
  induction ms with
  | nil => simp [Value.depthMembers]
  | cons m ms ih => rw [Value.depthMembers, Nat.max_le, ih, List.forall_mem_cons]

/-! ### Sorted members -/

/-- A member whose key comes after all others goes to the end. -/
theorem setMember_eq_append {α : Type} {key : String} {value : α} {ms : List (String × α)}
    (h : ∀ k ∈ ms.map Prod.fst, k < key) : setMember key value ms = ms ++ [(key, value)] := by
  induction ms with
  | nil => rfl
  | cons m ms ih =>
    obtain ⟨k, v⟩ := m
    have hk : k < key := h k (by simp)
    have hlt : ¬ key < k := fun hlt => String.lt_irrefl key (String.lt_trans hlt hk)
    have hne : key ≠ k := fun he => String.lt_irrefl key (he ▸ hk)
    have hms : ∀ l ∈ ms.map Prod.fst, l < key := fun l hl => h l (List.mem_cons_of_mem _ hl)
    simp [setMember, hlt, hne, ih hms]

/-- Members with increasing keys are sorted. -/
theorem sortMembers_of_pairwise {α : Type} {ms : List (String × α)}
    (h : (ms.map Prod.fst).Pairwise (· < ·)) : sortMembers ms = ms := by
  suffices hacc : ∀ acc : List (String × α), ((acc ++ ms).map Prod.fst).Pairwise (· < ·) →
      ms.foldl (fun sorted m => setMember m.1 m.2 sorted) acc = acc ++ ms by
    simpa [sortMembers] using hacc [] h
  intro acc hacc
  induction ms generalizing acc with
  | nil => simp
  | cons m ms ih =>
    have hlt : ∀ k ∈ acc.map Prod.fst, k < m.1 := by
      rw [List.map_append, List.pairwise_append] at hacc
      exact fun k hk => hacc.2.2 k hk m.1 (by simp)
    rw [List.foldl_cons, setMember_eq_append hlt]
    have := ih (h.sublist (by simp)) (acc ++ [m]) (by simpa using hacc)
    simpa using this

/-- A new key goes in between. -/
theorem perm_setMember {α : Type} {key : String} {value : α} {ms : List (String × α)}
    (h : key ∉ ms.map Prod.fst) : (setMember key value ms).Perm ((key, value) :: ms) := by
  induction ms with
  | nil => exact .refl _
  | cons m ms ih =>
    obtain ⟨hne, hms⟩ : key ≠ m.1 ∧ key ∉ ms.map Prod.fst := by simpa using h
    simp only [setMember, hne, if_false]
    split
    · exact .refl _
    · exact ((ih hms).cons _).trans (.swap _ _ _)

theorem mem_of_mem_setMember {α : Type} {key : String} {value : α} {ms : List (String × α)}
    {m : String × α} (h : m ∈ setMember key value ms) : m = (key, value) ∨ m ∈ ms := by
  induction ms with
  | nil => exact .inl (by simpa [setMember] using h)
  | cons l ms ih =>
    simp only [setMember] at h
    split at h
    · simpa using h
    · split at h
      · exact (List.mem_cons.1 h).imp_right (List.mem_cons_of_mem _)
      · rcases List.mem_cons.1 h with rfl | h
        · exact .inr List.mem_cons_self
        · exact (ih h).imp_right (List.mem_cons_of_mem _)

/-- Sorting adds no members. -/
theorem mem_of_mem_sortMembers {α : Type} {ms : List (String × α)} {m : String × α}
    (h : m ∈ sortMembers ms) : m ∈ ms := by
  suffices hacc : ∀ acc : List (String × α),
      m ∈ ms.foldl (fun sorted m => setMember m.1 m.2 sorted) acc → m ∈ acc ∨ m ∈ ms by
    simpa using hacc [] h
  intro acc hm
  clear h
  induction ms generalizing acc with
  | nil => exact .inl hm
  | cons l ms ih =>
    rcases ih _ hm with hm | hm
    · rcases mem_of_mem_setMember hm with rfl | hm
      · exact .inr List.mem_cons_self
      · exact .inl hm
    · exact .inr (List.mem_cons_of_mem _ hm)

/-! ### What the tree of a value denotes -/

mutual
/-- The tree of a canonical value denotes the value. -/
theorem value?_toTree : ∀ {v : Value}, v.Canonical → v.toTree.value? = some v
  | .null, _ => rfl
  | .bool _, _ => rfl
  | .number _, _ => rfl
  | .string _, _ => rfl
  | .array items, h => by
    have hitems : Tree.values? (Value.toTrees items) = some items := values?_toTrees h.2
    simp [Value.toTree, Tree.value?, hitems]
  | .object members, h => by
    have hmembers : Tree.memberValues? (Value.toTreeMembers members) = some members :=
      memberValues?_toTreeMembers h.2
    simp [Value.toTree, Tree.value?, hmembers, sortMembers_of_pairwise h.1]
theorem values?_toTrees : ∀ {vs : List Value}, Value.EverywhereItems Value.KeysIncrease vs →
    Tree.values? (Value.toTrees vs) = some vs
  | [], _ => rfl
  | v :: vs, h => by
    simp [Value.toTrees, Tree.values?, value?_toTree h.1, values?_toTrees h.2]
theorem memberValues?_toTreeMembers : ∀ {ms : List (String × Value)},
    Value.EverywhereMembers Value.KeysIncrease ms →
    Tree.memberValues? (Value.toTreeMembers ms) = some ms
  | [], _ => rfl
  | (k, v) :: ms, h => by
    simp [Value.toTreeMembers, Tree.memberValues?, value?_toTree h.1,
      memberValues?_toTreeMembers h.2]
end

mutual
/-- The tree of a value denotes some value. -/
theorem isSome_value?_toTree : ∀ v : Value, v.toTree.value?.isSome
  | .null | .bool _ | .number _ | .string _ => rfl
  | .array items => by
    have := isSome_values?_toTrees items
    simpa [Value.toTree, Tree.value?] using this
  | .object members => by
    have := isSome_memberValues?_toTreeMembers members
    simpa [Value.toTree, Tree.value?] using this
theorem isSome_values?_toTrees : ∀ vs : List Value, (Tree.values? (Value.toTrees vs)).isSome
  | [] => rfl
  | v :: vs => by
    obtain ⟨w, hw⟩ := Option.isSome_iff_exists.1 (isSome_value?_toTree v)
    obtain ⟨ws, hws⟩ := Option.isSome_iff_exists.1 (isSome_values?_toTrees vs)
    simp [Value.toTrees, Tree.values?, hw, hws]
theorem isSome_memberValues?_toTreeMembers : ∀ ms : List (String × Value),
    (Tree.memberValues? (Value.toTreeMembers ms)).isSome
  | [] => rfl
  | (k, v) :: ms => by
    obtain ⟨w, hw⟩ := Option.isSome_iff_exists.1 (isSome_value?_toTree v)
    obtain ⟨ws, hws⟩ := Option.isSome_iff_exists.1 (isSome_memberValues?_toTreeMembers ms)
    simp [Value.toTreeMembers, Tree.memberValues?, hw, hws]
end

/-! ### What a tree denotes -/

theorem values?_cons_eq_some {t : Tree} {ts : List Tree} {l : List Value} :
    Tree.values? (t :: ts) = some l ↔
      ∃ v vs, t.value? = some v ∧ Tree.values? ts = some vs ∧ v :: vs = l := by
  simp [Tree.values?, Option.bind_eq_some_iff]

theorem memberValues?_cons_eq_some {k : String} {t : Tree} {ts : List (String × Tree)}
    {l : List (String × Value)} :
    Tree.memberValues? ((k, t) :: ts) = some l ↔
      ∃ v ms, t.value? = some v ∧ Tree.memberValues? ts = some ms ∧ (k, v) :: ms = l := by
  simp [Tree.memberValues?, Option.bind_eq_some_iff]

mutual
/-- Whatever a tree denotes is canonical. -/
theorem canonical_of_value? : ∀ {t : Tree} {v : Value}, t.value? = some v → v.Canonical
  | .null, _, h | .bool _, _, h | .number _, _, h | .string _, _, h => by
    obtain rfl := Option.some.inj h
    trivial
  | .array items, _, h => by
    obtain ⟨vs, hvs, rfl⟩ := Option.map_eq_some_iff.1 h
    exact ⟨trivial, canonical_of_values? hvs⟩
  | .object members, _, h => by
    obtain ⟨ms, hms, rfl⟩ := Option.map_eq_some_iff.1 h
    refine ⟨pairwise_keys_sortMembers ms, everywhereMembers_iff.2 fun m hm => ?_⟩
    exact everywhereMembers_iff.1 (canonical_of_memberValues? hms) m (mem_of_mem_sortMembers hm)
theorem canonical_of_values? : ∀ {ts : List Tree} {vs : List Value},
    Tree.values? ts = some vs → Value.EverywhereItems Value.KeysIncrease vs
  | [], _, h => by
    obtain rfl := Option.some.inj h
    trivial
  | _ :: _, _, h => by
    obtain ⟨v, vs, hv, hvs, rfl⟩ := values?_cons_eq_some.1 h
    exact ⟨canonical_of_value? hv, canonical_of_values? hvs⟩
theorem canonical_of_memberValues? : ∀ {ts : List (String × Tree)} {ms : List (String × Value)},
    Tree.memberValues? ts = some ms → Value.EverywhereMembers Value.KeysIncrease ms
  | [], _, h => by
    obtain rfl := Option.some.inj h
    trivial
  | (_, _) :: _, _, h => by
    obtain ⟨v, ms, hv, hms, rfl⟩ := memberValues?_cons_eq_some.1 h
    exact ⟨canonical_of_value? hv, canonical_of_memberValues? hms⟩
end

mutual
/-- What a tree denotes is nested no deeper than the tree. -/
theorem depth_le_of_value? : ∀ {t : Tree} {v : Value}, t.value? = some v → v.depth ≤ t.depth
  | .null, _, h | .bool _, _, h | .number _, _, h | .string _, _, h => by
    obtain rfl := Option.some.inj h
    exact Nat.le_refl _
  | .array items, _, h => by
    obtain ⟨vs, hvs, rfl⟩ := Option.map_eq_some_iff.1 h
    exact Nat.succ_le_succ (depthItems_le_of_values? hvs)
  | .object members, _, h => by
    obtain ⟨ms, hms, rfl⟩ := Option.map_eq_some_iff.1 h
    refine Nat.succ_le_succ (depthMembers_le_iff.2 fun m hm => ?_)
    exact depthMembers_le_iff.1 (depthMembers_le_of_memberValues? hms) m (mem_of_mem_sortMembers hm)
theorem depthItems_le_of_values? : ∀ {ts : List Tree} {vs : List Value},
    Tree.values? ts = some vs → Value.depthItems vs ≤ Tree.depthItems ts
  | [], _, h => by
    obtain rfl := Option.some.inj h
    exact Nat.le_refl _
  | _ :: _, _, h => by
    obtain ⟨v, vs, hv, hvs, rfl⟩ := values?_cons_eq_some.1 h
    have hhead := depth_le_of_value? hv
    have htail := depthItems_le_of_values? hvs
    simp only [Value.depthItems, Tree.depthItems]
    omega
theorem depthMembers_le_of_memberValues? : ∀ {ts : List (String × Tree)}
    {ms : List (String × Value)}, Tree.memberValues? ts = some ms →
    Value.depthMembers ms ≤ Tree.depthMembers ts
  | [], _, h => by
    obtain rfl := Option.some.inj h
    exact Nat.le_refl _
  | (_, _) :: _, _, h => by
    obtain ⟨v, ms, hv, hms, rfl⟩ := memberValues?_cons_eq_some.1 h
    have hhead := depth_le_of_value? hv
    have htail := depthMembers_le_of_memberValues? hms
    simp only [Value.depthMembers, Tree.depthMembers]
    omega
end

end Barrage.Json
