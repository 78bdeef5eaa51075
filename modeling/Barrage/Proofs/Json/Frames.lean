import Barrage.Frame
import Barrage.Proofs.Json.Reading

/-!
# Frames are read back

The line of a frame is read as the frame (`ofLine?_line`), as long as the numbers in its content are
whole and its text has no more nested containers than a reader takes. A frame that was read is always
of that shape, up to its numbers (`canonical_of_ofLine?`).
-/

namespace Barrage

open Json (Tree Value)

namespace Frame

/-- Whether all numbers in the content of a frame are whole. -/
def Whole : Frame → Prop
  | .handshake _ => True
  | .message e => e.content.Whole

/-- Whether the keys of all objects in the content of a frame increase. -/
def Canonical : Frame → Prop
  | .handshake _ => True
  | .message e => e.content.Canonical

/-! ### What is written is read -/

theorem whole_toValue {f : Frame} (hf : f.Whole) : f.toValue.Whole := by
  cases f with
  | handshake t =>
    simp [Value.Whole, toValue, Token.toValue, Value.Everywhere, Value.EverywhereMembers,
      Value.NumberWhole]
  | message e =>
    have hcontent : Value.Everywhere Value.NumberWhole e.content := hf
    simp [Value.Whole, toValue, Envelope.toValue, Value.Everywhere, Value.EverywhereMembers,
      Value.NumberWhole, hcontent]

/-- A frame is read from its own tree. -/
theorem ofTree?_toTree {f : Frame} (hf : f.Canonical) : ofTree? f.toValue.toTree = some f := by
  cases f with
  | handshake t =>
    simp [toValue, Token.toValue, Value.toTree, Value.toTreeMembers, ofTree?, ofFields?, Json.only?,
      Token.read?, Form.fields?, Json.pick?, Form.text?]
  | message e =>
    have hcontent := Json.value?_toTree (v := e.content) hf
    simp [toValue, Envelope.toValue, Value.toTree, Value.toTreeMembers, ofTree?, ofFields?,
      Json.only?, Envelope.ofTree?, Form.fields?, Json.pick?, MessageType.ofTree?,
      MessageType.ofName?_name, hcontent]

/-- The text of a frame stands between braces. -/
theorem exists_toValue_write_eq (f : Frame) : ∃ cs, f.toValue.write = '{' :: cs ++ ['}'] := by
  obtain ⟨ms, hms⟩ : ∃ ms, f.toValue = .object ms := by
    cases f <;> exact ⟨_, rfl⟩
  obtain ⟨cs, hcs⟩ := Json.exists_writeMembers_eq_append ms
  exact ⟨cs, by rw [hms, Value.write, hcs, List.cons_append]⟩

/-- The text of a frame has no blank to trim. -/
theorem trimChars_toValue_write (f : Frame) : Text.trimChars f.toValue.write = f.toValue.write := by
  obtain ⟨cs, hcs⟩ := f.exists_toValue_write_eq
  have hopen : Text.isBlank '{' = false := by decide
  have hclose : Text.isBlank '}' = false := by decide
  simp [hcs, Text.trimChars, hopen, hclose]

/-- A line is trimmed to the text of its frame. -/
theorem trimChars_write (f : Frame) : Text.trimChars f.write = f.toValue.write := by
  obtain ⟨cs, hcs⟩ := f.exists_toValue_write_eq
  have hopen : Text.isBlank '{' = false := by decide
  have hclose : Text.isBlank '}' = false := by decide
  have hline : Text.isBlank '\n' = true := by decide
  simp [write, hcs, Text.trimChars, hopen, hclose, hline]

/-- From the text of a value whose numbers are whole, with or without blanks around it, a frame is read
from the tree of the value, if the text is not nested too deeply. -/
theorem ofChars?_of_write {v : Value} (hw : v.Whole) (hdepth : v.depth ≤ Json.nestingLimit)
    {cs : List Char} (hcs : Text.trimChars cs = v.write) : ofChars? cs = ofTree? v.toTree := by
  have hread := Json.read?_write hw hdepth
  obtain ⟨u, hu⟩ := Option.isSome_iff_exists.1 (Json.isSome_value?_toTree v)
  simp [ofChars?, hcs, hread, hu]

/-- A frame whose numbers are whole is read from its own text. -/
theorem ofChars?_eq_some {f : Frame} (hc : f.Canonical) (hw : f.Whole)
    (hdepth : f.toValue.depth ≤ Json.nestingLimit) {cs : List Char}
    (hcs : Text.trimChars cs = f.toValue.write) : ofChars? cs = some f :=
  (ofChars?_of_write (whole_toValue hw) hdepth hcs).trans (ofTree?_toTree hc)

/-- A frame is read from its own line. -/
theorem ofLine?_line {f : Frame} (hc : f.Canonical) (hw : f.Whole)
    (hdepth : f.toValue.depth ≤ Json.nestingLimit) : ofLine? f.line = some f := by
  have := ofChars?_eq_some hc hw hdepth f.trimChars_write
  simpa [ofLine?, line] using this

/-! ### What is read -/

/-- The only member of a name is a member. -/
theorem mem_of_only? {α : Type} {name : String} {members : List (String × α)} {a : α}
    (h : Json.only? name members = some (some a)) : ∃ key, (key, a) ∈ members := by
  unfold Json.only? at h
  split at h
  · cases h
  · rename_i m hm
    obtain rfl : m.2 = a := by simpa using h
    have hmem : m ∈ members.filter (·.1 = name) := by simp [hm]
    exact ⟨m.1, (List.mem_filter.1 hmem).1⟩
  · cases h

/-- The members that are picked are members. -/
theorem mem_of_pick? {α : Type} {names : List String} {members : List (String × α)} {a : α}
    {fields : List (Option α)} (h : Json.pick? members names = some fields)
    (ha : some a ∈ fields) : ∃ key, (key, a) ∈ members := by
  induction names generalizing fields with
  | nil =>
    obtain rfl := Option.some.inj h
    cases ha
  | cons name names ih =>
    obtain ⟨found, hfound, rest, hrest, rfl⟩ :
        ∃ found, Json.only? name members = some found ∧
          ∃ rest, Json.pick? members names = some rest ∧ found :: rest = fields := by
      simpa [Json.pick?, Option.bind_eq_some_iff] using h
    rcases List.mem_cons.1 ha with rfl | ha
    · exact mem_of_only? hfound
    · exact ih hrest ha

/-- A field of a record lies inside the record. -/
theorem depth_lt_of_fields? {names : List String} {t u : Tree} {fields : List (Option Tree)}
    (h : Form.fields? names t = some fields) (hu : some u ∈ fields) : u.depth < t.depth := by
  cases t with
  | object members =>
    obtain ⟨key, hkey⟩ := mem_of_pick? h hu
    exact Nat.lt_succ_of_le (Json.treeDepthMembers_le_iff.1 (Nat.le_refl _) _ hkey)
  | array items =>
    obtain ⟨-, rfl⟩ : items.length ≤ names.length ∧ _ = fields := by
      simpa [Form.fields?, Json.inOrder?] using h
    have hmem : u ∈ items := by
      simpa using hu
    exact Nat.lt_succ_of_le (Json.depthItems_le_iff.1 (Nat.le_refl _) _ hmem)
  | _ => cases h

/-- The content of an envelope that was read is canonical and lies inside the text. -/
theorem content_of_ofTree? {t : Tree} {e : Envelope} (h : Envelope.ofTree? t = some e) :
    e.content.Canonical ∧ e.content.depth < t.depth := by
  unfold Envelope.ofTree? at h
  split at h
  · rename_i type content hfields
    obtain ⟨name, -, h⟩ := Option.bind_eq_some_iff.1 h
    cases content with
    | none =>
      cases h
      have htype := depth_lt_of_fields? hfields List.mem_cons_self
      exact ⟨trivial, Nat.lt_of_le_of_lt (Nat.zero_le _) htype⟩
    | some c =>
      obtain ⟨value, hvalue, h⟩ := Option.bind_eq_some_iff.1 h
      cases h
      have hc := depth_lt_of_fields? hfields (List.mem_cons_of_mem _ List.mem_cons_self)
      exact ⟨Json.canonical_of_value? hvalue,
        Nat.lt_of_le_of_lt (Json.depth_le_of_value? hvalue) hc⟩
  · cases h

theorem depth_toValue_message (e : Envelope) :
    (message e).toValue.depth = e.content.depth + 2 := by
  simp [toValue, Envelope.toValue, Value.depth, Value.depthMembers]

/-- A frame whose fields lie inside a text is canonical and nested no deeper than the text, or as
deeply as a token. -/
theorem canonical_of_ofFields? {t : Tree} {kind : String} {field? : String → Option (Option Tree)}
    {f : Frame} (h : ofFields? kind field? = some f)
    (hfield : ∀ name u, field? name = some (some u) → u.depth < t.depth) :
    f.Canonical ∧ f.toValue.depth ≤ max 2 t.depth := by
  unfold ofFields? at h
  split at h
  · split at h
    · obtain ⟨token, -, rfl⟩ := Option.map_eq_some_iff.1 h
      exact ⟨trivial, Nat.le_max_left _ _⟩
    · cases h
  · split at h
    · split at h
      · rename_i u hu
        obtain ⟨e, he, rfl⟩ := Option.map_eq_some_iff.1 h
        obtain ⟨hcanonical, hdepth⟩ := content_of_ofTree? he
        refine ⟨hcanonical, ?_⟩
        have := hfield _ _ hu
        rw [depth_toValue_message]
        omega
      · cases h
    · cases h

theorem canonical_of_ofTree? {t : Tree} {f : Frame} (h : ofTree? t = some f) :
    f.Canonical ∧ f.toValue.depth ≤ max 2 t.depth := by
  unfold ofTree? at h
  split at h
  · rename_i members
    split at h
    · refine canonical_of_ofFields? h fun name u hu => ?_
      obtain ⟨key, hkey⟩ := mem_of_only? hu
      exact Nat.lt_succ_of_le (Json.treeDepthMembers_le_iff.1 (Nat.le_refl _) _ hkey)
    · cases h
  · rename_i kind u
    refine canonical_of_ofFields? h fun name v hv => ?_
    obtain rfl : u = v := Option.some.inj (Option.some.inj hv)
    exact Nat.lt_succ_of_le (Json.depthItems_le_iff.1 (Nat.le_refl _) _ (by simp))
  · cases h

/-- A frame that was read from a line is canonical, and its own text is not nested too deeply. -/
theorem canonical_of_ofLine? {text : String} {f : Frame} (h : ofLine? text = some f) :
    f.Canonical ∧ f.toValue.depth ≤ Json.nestingLimit := by
  obtain ⟨t, ht, h⟩ := Option.bind_eq_some_iff.1 h
  obtain ⟨v, -, h⟩ := Option.bind_eq_some_iff.1 h
  obtain ⟨hcanonical, hdepth⟩ := canonical_of_ofTree? h
  refine ⟨hcanonical, Nat.le_trans hdepth (Nat.max_le.2 ⟨by decide, Json.depth_le_of_read? ht⟩)⟩

end Frame

end Barrage
