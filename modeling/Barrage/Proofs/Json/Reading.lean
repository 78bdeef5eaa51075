import Barrage.Proofs.Json.Literals

/-!
# Texts are read back

The text of a whole value is read as the tree of the value, within the limit of nested containers that
the value itself respects (`read?_write`), and what is read is never nested deeper than the limit
(`depth_le_of_read?`).

Both go by the reader's own steps: the first by the structure of the value, with as much fuel as its
text has characters, the second by the fuel.
-/

namespace Barrage.Json

/-! ### What is written is read -/

theorem skipSpace_cons {c : Char} (h : isSpace c = false) (cs : List Char) :
    skipSpace (c :: cs) = c :: cs := by
  simp [skipSpace, h]

/-- A number does not begin like anything else. -/
theorem BeginsNumber.ne {c : Char} (hc : BeginsNumber c) {ds : List Char}
    (hds : (ds.all fun d => d != '-' && !d.isDigit) = true) : ∀ d ∈ ds, c ≠ d := by
  rintro d hd rfl
  have hd' : c ≠ '-' ∧ c.isDigit = false := by simpa using List.all_eq_true.1 hds c hd
  rcases hc with hc | hc
  · exact hd'.1 hc
  · rw [hd'.2] at hc
    cases hc

theorem BeginsNumber.isSpace_eq {c : Char} (hc : BeginsNumber c) : isSpace c = false := by
  have hne : ∀ d ∈ [' ', '\t', '\n', '\r'], c ≠ d := hc.ne rfl
  simp only [List.forall_mem_cons] at hne
  simp [isSpace, hne]

/-- The text of a value begins with a character that is neither space nor a closing bracket. -/
theorem exists_write_eq_cons {v : Value} (hv : v.Whole) :
    ∃ c cs, v.write = c :: cs ∧ isSpace c = false ∧ c ≠ ']' := by
  cases v with
  | null => exact ⟨'n', _, by rw [Value.write], rfl, by decide⟩
  | bool b => cases b <;> exact ⟨_, _, by rw [Value.write], rfl, by decide⟩
  | number n =>
    cases n with
    | double x => exact absurd hv id
    | int n =>
      obtain ⟨c, cs, hw, hc⟩ := exists_writeInt_eq_cons n
      have hne : ∀ d ∈ [']'], c ≠ d := hc.ne rfl
      exact ⟨c, cs, by rw [Value.write]; exact hw, hc.isSpace_eq, hne _ List.mem_cons_self⟩
  | string s => exact ⟨'"', _, by rw [Value.write]; rfl, rfl, by decide⟩
  | array items => exact ⟨'[', _, by rw [Value.write], rfl, by decide⟩
  | object members => exact ⟨'{', _, by rw [Value.write], rfl, by decide⟩

/-- A row of items begins with its first item. -/
theorem exists_writeItems_eq_cons {v : Value} (vs : List Value) (hv : v.Whole) :
    ∃ c cs, Value.writeItems (v :: vs) = c :: cs ∧ isSpace c = false ∧ c ≠ ']' := by
  obtain ⟨c, cs, hw, hc⟩ := exists_write_eq_cons hv
  cases vs with
  | nil => exact ⟨c, _, by rw [Value.writeItems, hw]; rfl, hc⟩
  | cons w vs => exact ⟨c, _, by rw [Value.writeItems, hw]; rfl; simp, hc⟩

/-- Members begin with the quote of the first key. -/
theorem exists_writeMembers_eq_cons (m : String × Value) (ms : List (String × Value)) :
    ∃ cs, Value.writeMembers (m :: ms) = '"' :: cs := by
  obtain ⟨k, v⟩ := m
  cases ms with
  | nil => exact ⟨_, by rw [Value.writeMembers]; rfl⟩
  | cons m ms => exact ⟨_, by rw [Value.writeMembers]; rfl; simp⟩

/-- Members end with the closing brace. -/
theorem exists_writeMembers_eq_append (ms : List (String × Value)) :
    ∃ cs, Value.writeMembers ms = cs ++ ['}'] := by
  induction ms with
  | nil => exact ⟨[], by rw [Value.writeMembers]; rfl⟩
  | cons m ms ih =>
    obtain ⟨k, v⟩ := m
    cases ms with
    | nil => exact ⟨quote k ++ ':' :: v.write, by simp [Value.writeMembers]⟩
    | cons m ms =>
      obtain ⟨cs, hcs⟩ := ih
      exact ⟨quote k ++ ':' :: v.write ++ ',' :: cs, by simp [Value.writeMembers, hcs]⟩

/-- A number is read from its literal. -/
theorem tree?_of_literal? {c : Char} {cs rest : List Char} {l : Literal} {n : Number}
    (hc : BeginsNumber c) (hl : literal? (c :: cs) = some (l, rest))
    (hn : l.number? = some n) (fuel limit : Nat) :
    tree? (fuel + 1) limit (c :: cs) = some (.number n, rest) := by
  have hne : ∀ d ∈ ['n', 't', 'f', '"', '[', '{'], c ≠ d := hc.ne rfl
  simp only [List.forall_mem_cons] at hne
  have hbegin : c = '-' ∨ c.isDigit = true := hc
  simp [tree?, skipSpace_cons hc.isSpace_eq, hne, hbegin, hl, hn]

mutual
/-- The text of a whole value is read as its tree, whatever may follow it. -/
theorem tree?_write : ∀ (v : Value) (fuel limit : Nat) (rest : List Char), v.Whole →
    v.depth ≤ limit → v.write.length ≤ fuel → Follows rest →
    tree? fuel limit (v.write ++ rest) = some (v.toTree, rest)
  | v, 0, _, _, hv, _, hfuel, _ => by
    obtain ⟨c, cs, hw, -⟩ := exists_write_eq_cons hv
    simp [hw] at hfuel
  | .null, fuel + 1, limit, rest, _, _, _, _ => by
    simp [Value.write, tree?, skipSpace_cons, isSpace, Value.toTree]
  | .bool b, fuel + 1, limit, rest, _, _, _, _ => by
    cases b <;> simp [Value.write, tree?, skipSpace_cons, isSpace, Value.toTree]
  | .number (.int n), fuel + 1, limit, rest, hv, _, _, hrest => by
    obtain ⟨l, hl, hn⟩ := literal?_writeInt hv hrest
    obtain ⟨c, cs, hw, hc⟩ := exists_writeInt_eq_cons n
    rw [hw, List.cons_append] at hl
    rw [Value.write, Number.write, hw, List.cons_append]
    exact tree?_of_literal? hc hl hn fuel limit
  | .string s, fuel + 1, limit, rest, _, _, _, _ => by
    have hquote := stringRest?_quote [] s.toList rest
    simp [Value.write, quote, tree?, skipSpace_cons, isSpace, Value.toTree, hquote]
  | .array [], fuel + 1, limit + 1, rest, _, _, _, _ => by
    simp [Value.write, Value.writeItems, tree?, skipSpace_cons, isSpace, Value.toTree,
      Value.toTrees]
  | .array (v :: vs), fuel + 1, limit + 1, rest, hv, hdepth, hfuel, _ => by
    obtain ⟨c, cs, hw, hspace, hbracket⟩ := exists_writeItems_eq_cons vs hv.2.1
    -- the bracket takes one of the fuel and one of the limit
    have hitems := items?_writeItems v vs fuel limit [] rest hv.2 (Nat.le_of_succ_le_succ hdepth)
      (by simpa [Value.write] using hfuel)
    rw [hw, List.cons_append] at hitems
    simp [Value.write, hw, tree?, skipSpace_cons (c := '[') rfl, skipSpace_cons hspace, hbracket,
      hitems, Value.toTree]
  | .object [], fuel + 1, limit + 1, rest, _, _, _, _ => by
    simp [Value.write, Value.writeMembers, tree?, skipSpace_cons, isSpace, Value.toTree,
      Value.toTreeMembers]
  | .object (m :: ms), fuel + 1, limit + 1, rest, hv, hdepth, hfuel, _ => by
    obtain ⟨cs, hw⟩ := exists_writeMembers_eq_cons m ms
    have hmembers := members?_writeMembers m ms fuel limit [] rest hv.2
      (Nat.le_of_succ_le_succ hdepth) (by simpa [Value.write] using hfuel)
    rw [hw, List.cons_append] at hmembers
    simp [Value.write, hw, tree?, skipSpace_cons (c := '{') rfl, skipSpace_cons (c := '"') rfl,
      hmembers, Value.toTree]
/-- The items of an array are read to its end. -/
theorem items?_writeItems : ∀ (v : Value) (vs : List Value) (fuel limit : Nat) (acc : List Tree)
    (rest : List Char), Value.EverywhereItems Value.NumberWhole (v :: vs) →
    Value.depthItems (v :: vs) ≤ limit → (Value.writeItems (v :: vs)).length ≤ fuel →
    items? fuel limit acc (Value.writeItems (v :: vs) ++ rest) =
      some (.array (acc.reverse ++ Value.toTrees (v :: vs)), rest)
  | v, vs, 0, _, _, _, hv, _, hfuel => by
    obtain ⟨c, cs, hw, -⟩ := exists_writeItems_eq_cons vs hv.1
    simp [hw] at hfuel
  | v, [], fuel + 1, limit, acc, rest, hv, hdepth, hfuel => by
    have hread := tree?_write v fuel limit (']' :: rest) hv.1
      (Nat.le_trans (Nat.le_max_left _ _) hdepth) (by simpa [Value.writeItems] using hfuel)
      (follows_bracket rest)
    simp [Value.writeItems, items?, hread, skipSpace_cons (c := ']') rfl, Value.toTrees]
  | v, w :: vs, fuel + 1, limit, acc, rest, hv, hdepth, hfuel => by
    have hlength : v.write.length + 1 + (Value.writeItems (w :: vs)).length ≤ fuel + 1 := by
      simpa [Value.writeItems, Nat.add_assoc, Nat.add_comm, Nat.add_left_comm] using hfuel
    have hread := tree?_write v fuel limit (',' :: (Value.writeItems (w :: vs) ++ rest)) hv.1
      (Nat.le_trans (Nat.le_max_left _ _) hdepth) (by omega) (follows_comma _)
    have hitems := items?_writeItems w vs fuel limit (v.toTree :: acc) rest hv.2
      (Nat.le_trans (Nat.le_max_right _ _) hdepth) (by omega)
    simp [Value.writeItems, items?, hread, skipSpace_cons (c := ',') rfl, hitems, Value.toTrees]
theorem members?_writeMembers : ∀ (m : String × Value) (ms : List (String × Value))
    (fuel limit : Nat) (acc : List (String × Tree)) (rest : List Char),
    Value.EverywhereMembers Value.NumberWhole (m :: ms) →
    Value.depthMembers (m :: ms) ≤ limit → (Value.writeMembers (m :: ms)).length ≤ fuel →
    members? fuel limit true acc (Value.writeMembers (m :: ms) ++ rest) =
      some (.object (acc.reverse ++ Value.toTreeMembers (m :: ms)), rest)
  | m, ms, 0, _, _, _, _, _, hfuel => by
    obtain ⟨cs, hw⟩ := exists_writeMembers_eq_cons m ms
    simp [hw] at hfuel
  | (k, v), [], fuel + 1, limit, acc, rest, hv, hdepth, hfuel => by
    have hlength : v.write.length ≤ fuel := by
      simp only [Value.writeMembers, quote, List.length_append, List.length_cons] at hfuel
      omega
    have hread := tree?_write v fuel limit ('}' :: rest) hv.1
      (Nat.le_trans (Nat.le_max_left _ _) hdepth) hlength (follows_brace rest)
    have hkey := stringRest?_quote [] k.toList (':' :: (v.write ++ '}' :: rest))
    simp [Value.writeMembers, quote, members?, skipSpace_cons (c := '"') rfl, hkey,
      skipSpace_cons (c := ':') rfl, hread, skipSpace_cons (c := '}') rfl, Value.toTreeMembers]
  | (k, v), m :: ms, fuel + 1, limit, acc, rest, hv, hdepth, hfuel => by
    have hlength : v.write.length + 1 + (Value.writeMembers (m :: ms)).length ≤ fuel := by
      simp only [Value.writeMembers, quote, List.length_append, List.length_cons] at hfuel
      omega
    have hread := tree?_write v fuel limit (',' :: (Value.writeMembers (m :: ms) ++ rest)) hv.1
      (Nat.le_trans (Nat.le_max_left _ _) hdepth) (by omega) (follows_comma _)
    have hkey := stringRest?_quote [] k.toList
      (':' :: (v.write ++ ',' :: (Value.writeMembers (m :: ms) ++ rest)))
    have hmembers := members?_writeMembers m ms fuel limit ((k, v.toTree) :: acc) rest hv.2
      (Nat.le_trans (Nat.le_max_right _ _) hdepth) (by omega)
    simp [Value.writeMembers, quote, members?, skipSpace_cons (c := '"') rfl, hkey,
      skipSpace_cons (c := ':') rfl, hread, skipSpace_cons (c := ',') rfl, hmembers,
      Value.toTreeMembers]
end

/-- The text of a whole value is read as the tree of the value. -/
theorem read?_write {v : Value} {limit : Nat} (hv : v.Whole) (hdepth : v.depth ≤ limit) :
    read? limit v.write = some v.toTree := by
  have hread := tree?_write v (2 * v.write.length + 2) limit [] hv hdepth (by omega) follows_nil
  rw [List.append_nil] at hread
  simp [read?, hread, skipSpace]

/-! ### What is read stays within the limit -/

/-- A row of trees is as deep as the deepest of them. -/
theorem depthItems_le_iff {ts : List Tree} {n : Nat} :
    Tree.depthItems ts ≤ n ↔ ∀ t ∈ ts, t.depth ≤ n := by
  induction ts with
  | nil => simp [Tree.depthItems]
  | cons t ts ih => rw [Tree.depthItems, Nat.max_le, ih, List.forall_mem_cons]

/-- Members are as deep as the deepest of them. -/
theorem treeDepthMembers_le_iff {ms : List (String × Tree)} {n : Nat} :
    Tree.depthMembers ms ≤ n ↔ ∀ m ∈ ms, m.2.depth ≤ n := by
  induction ms with
  | nil => simp [Tree.depthMembers]
  | cons m ms ih => rw [Tree.depthMembers, Nat.max_le, ih, List.forall_mem_cons]

/-- What the reader gives with so much fuel is nested no deeper than the limit; the items and members
read before are, too. -/
def Bounded (fuel : Nat) : Prop :=
  (∀ {limit : Nat} {cs rest : List Char} {t : Tree},
    tree? fuel limit cs = some (t, rest) → t.depth ≤ limit) ∧
  (∀ {limit : Nat} {acc : List Tree} {cs rest : List Char} {t : Tree},
    items? fuel limit acc cs = some (t, rest) → (∀ u ∈ acc, u.depth ≤ limit) →
      t.depth ≤ limit + 1) ∧
  ∀ {limit : Nat} {readable : Bool} {acc : List (String × Tree)} {cs rest : List Char} {t : Tree},
    members? fuel limit readable acc cs = some (t, rest) → (∀ m ∈ acc, m.2.depth ≤ limit) →
      t.depth ≤ limit + 1

namespace Bounded

variable {fuel limit : Nat} {cs rest : List Char} {t : Tree}

theorem tree (ih : Bounded fuel) (h : tree? (fuel + 1) limit cs = some (t, rest)) :
    t.depth ≤ limit := by
  obtain ⟨-, hitems, hmembers⟩ := ih
  unfold tree? at h
  split at h
  case h_4 =>
    split at h
    · cases h
    all_goals
      cases h
      exact Nat.zero_le _
  case h_5 =>
    split at h
    · cases h
    split at h
    · cases h
      exact Nat.succ_le_succ (Nat.zero_le _)
    · exact hitems h (by simp)
  case h_6 =>
    split at h
    · cases h
    split at h
    · cases h
      exact Nat.succ_le_succ (Nat.zero_le _)
    · exact hmembers h (by simp)
  case h_7 =>
    split at h
    · split at h
      · cases h
      · split at h
        all_goals
          cases h
          exact Nat.zero_le _
    · cases h
  case h_8 => cases h
  -- null, true and false are left
  all_goals
    cases h
    exact Nat.zero_le _

theorem items (ih : Bounded fuel) {acc : List Tree}
    (h : items? (fuel + 1) limit acc cs = some (t, rest)) (hacc : ∀ u ∈ acc, u.depth ≤ limit) :
    t.depth ≤ limit + 1 := by
  obtain ⟨htree, hitems, -⟩ := ih
  unfold items? at h
  split at h
  · cases h
  rename_i u after hu
  have hall : ∀ v ∈ u :: acc, v.depth ≤ limit := List.forall_mem_cons.2 ⟨htree hu, hacc⟩
  split at h
  · exact hitems h hall
  · cases h
    exact Nat.succ_le_succ (depthItems_le_iff.2 fun v hv => hall v (List.mem_reverse.1 hv))
  · cases h

theorem members (ih : Bounded fuel) {readable : Bool} {acc : List (String × Tree)}
    (h : members? (fuel + 1) limit readable acc cs = some (t, rest))
    (hacc : ∀ m ∈ acc, m.2.depth ≤ limit) : t.depth ≤ limit + 1 := by
  obtain ⟨htree, -, hmembers⟩ := ih
  unfold members? at h
  split at h
  · split at h
    · cases h
    split at h
    · split at h
      · cases h
      rename_i u after hu
      have hall : ∀ key, ∀ m ∈ (key, u) :: acc, m.2.depth ≤ limit :=
        fun key => List.forall_mem_cons.2 ⟨htree hu, hacc⟩
      split at h
      · exact hmembers h (hall _)
      · cases h
        split
        · exact Nat.succ_le_succ
            (treeDepthMembers_le_iff.2 fun m hm => hall _ m (List.mem_reverse.1 hm))
        · exact Nat.zero_le _
      · cases h
    · cases h
  · cases h

end Bounded

theorem bounded (fuel : Nat) : Bounded fuel := by
  induction fuel with
  | zero => exact ⟨by simp [tree?], by simp [items?], by simp [members?]⟩
  | succ fuel ih => exact ⟨ih.tree, ih.items, ih.members⟩

/-- What is read is nested no deeper than the limit. -/
theorem depth_le_of_read? {limit : Nat} {text : List Char} {t : Tree}
    (h : read? limit text = some t) : t.depth ≤ limit := by
  unfold read? at h
  split at h
  · rename_i u rest hread
    split at h
    · cases h
      exact (bounded _).1 hread
    · cases h
  · cases h

end Barrage.Json
