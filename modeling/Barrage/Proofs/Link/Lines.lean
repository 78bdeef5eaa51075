import Barrage.Link.Lines
import Barrage.Proofs.Json.Frames
import Mathlib.Data.List.Basic

/-!
# Frames in a stream

The line of a frame holds one new line, its last byte (`bytes_eq`, `newLine_notMem_textBytes`). A
stream of such lines therefore falls into the same lines again, whether it is split at its new lines
(`splitOn_flatMap_newLine`) or cut by a reader that bounds the length of a line
(`LineReader.cut_flatMap`), and every line into its frame (`read_back`).
-/

namespace Barrage

open Json (Value)

/-! ### New lines -/

theorem newLine_eq_ofNat_iff (n : Nat) : newLine = UInt8.ofNat n ↔ n % 256 = 10 := by
  constructor
  · intro h
    have := congrArg UInt8.toNat h
    simpa [newLine, eq_comm] using this
  · intro h
    apply UInt8.toNat.inj
    simp [newLine, h]

/-- Of all characters only the new line has its byte. -/
theorem newLine_mem_utf8EncodeChar {c : Char} : newLine ∈ String.utf8EncodeChar c ↔ c = '\n' := by
  have hval : c = '\n' ↔ c.val.toNat = 10 := by
    rw [Char.ext_iff, ← UInt32.toNat_inj]
    rfl
  rw [hval]
  unfold String.utf8EncodeChar
  simp only
  -- one byte up to 127; in longer forms every byte is 128 or more
  split_ifs
  all_goals
    simp only [List.mem_cons, List.not_mem_nil, or_false, newLine_eq_ofNat_iff]
    omega

namespace Json

theorem newLine_notMem_toDigits (n : Nat) : '\n' ∉ Nat.toDigits 10 n := by
  intro h
  have := Nat.isDigit_of_mem_toDigits (by decide) (by decide) h
  cases this

theorem newLine_notMem_writeInt (n : Int) : '\n' ∉ writeInt n := by
  cases n with
  | ofNat n => exact newLine_notMem_toDigits n
  | negSucc n => simp [writeInt, newLine_notMem_toDigits]

theorem ne_digitChar : ∀ n < 0x20, '\n' ≠ Nat.digitChar n := by
  decide

theorem newLine_notMem_escape (c : Char) : '\n' ∉ escape c := by
  unfold escape
  split_ifs with _ _ hcontrol
  · decide
  · decide
  · decide
  · decide
  · decide
  · decide
  · decide
  -- a control character is written by its hexadecimal digits, the new line by its letter
  · have hhigh := ne_digitChar (c.toNat / 16) (by omega)
    have hlow := ne_digitChar (c.toNat % 16) (by omega)
    simp [hhigh, hlow]
  · rw [List.mem_singleton]
    rintro rfl
    exact hcontrol (by decide)

theorem newLine_notMem_quote (s : String) : '\n' ∉ quote s := by
  simp [quote, newLine_notMem_escape]

mutual
/-- The text of a whole value has no new line. -/
theorem newLine_notMem_write : ∀ {v : Value}, v.Whole → '\n' ∉ v.write
  | .null, _ => by simp [Value.write]
  | .bool b, _ => by cases b <;> simp [Value.write]
  | .number (.int n), _ => by simpa [Value.write, Number.write] using newLine_notMem_writeInt n
  | .string s, _ => by simpa [Value.write] using newLine_notMem_quote s
  | .array items, h => by simpa [Value.write] using newLine_notMem_writeItems h.2
  | .object members, h => by simpa [Value.write] using newLine_notMem_writeMembers h.2
theorem newLine_notMem_writeItems : ∀ {vs : List Value},
    Value.EverywhereItems Value.NumberWhole vs → '\n' ∉ Value.writeItems vs
  | [], _ => by simp [Value.writeItems]
  | [v], h => by simp [Value.writeItems, newLine_notMem_write h.1]
  | v :: w :: vs, h => by
    simp [Value.writeItems, newLine_notMem_write h.1, newLine_notMem_writeItems h.2]
theorem newLine_notMem_writeMembers : ∀ {ms : List (String × Value)},
    Value.EverywhereMembers Value.NumberWhole ms → '\n' ∉ Value.writeMembers ms
  | [], _ => by simp [Value.writeMembers]
  | [(k, v)], h => by
    simp [Value.writeMembers, newLine_notMem_quote, newLine_notMem_write h.1]
  | (k, v) :: m :: ms, h => by
    simp [Value.writeMembers, newLine_notMem_quote, newLine_notMem_write h.1,
      newLine_notMem_writeMembers h.2]
end

end Json

/-! ### The bytes of a line -/

namespace Frame

/-- The bytes of a frame's text. -/
def textBytes (f : Frame) : List UInt8 := f.toValue.write.flatMap String.utf8EncodeChar

/-- The bytes of a frame's line. -/
def bytes (f : Frame) : List UInt8 := f.line.toUTF8.data.toList

/-- A line is the text of its frame and a new line. -/
theorem bytes_eq (f : Frame) : f.bytes = f.textBytes ++ [newLine] := by
  simp [bytes, line, write, textBytes, List.utf8Encode]
  rfl

theorem newLine_notMem_textBytes {f : Frame} (hf : f.Whole) : newLine ∉ f.textBytes := by
  have := Json.newLine_notMem_write (whole_toValue hf)
  simp only [textBytes, List.mem_flatMap, newLine_mem_utf8EncodeChar]
  rintro ⟨c, hc, rfl⟩
  exact this hc

/-- Bytes that spell a text are read as the text is. -/
theorem ofBytes?_utf8EncodeChar (cs : List Char) :
    ofBytes? (cs.flatMap String.utf8EncodeChar) = ofChars? cs := by
  have hbytes : (⟨(cs.flatMap String.utf8EncodeChar).toArray⟩ : ByteArray) = cs.utf8Encode := by
    ext1
    simp [List.utf8Encode]
  have hread : String.fromUTF8? cs.utf8Encode = some (String.ofList cs) := by
    simp only [String.fromUTF8?, Option.dite_none_right_eq_some]
    exact ⟨(String.ofList cs).isValidUTF8, rfl⟩
  simp [ofBytes?, hbytes, hread, ofLine?]

/-- A frame is read from the bytes of its text. -/
theorem ofBytes?_textBytes {f : Frame} (hc : f.Canonical) (hw : f.Whole)
    (hdepth : f.toValue.depth ≤ Json.nestingLimit) : ofBytes? f.textBytes = some f := by
  rw [textBytes, ofBytes?_utf8EncodeChar]
  exact ofChars?_eq_some hc hw hdepth f.trimChars_toValue_write

end Frame

/-! ### Lines in a stream -/

/-- Up to the first new line there is one line. -/
theorem firstLine_append {room : Nat} {body rest : List UInt8} (hbody : newLine ∉ body)
    (hroom : body.length ≤ room) : firstLine room (body ++ newLine :: rest) = .line body rest := by
  induction body generalizing room with
  | nil =>
    rw [List.nil_append]
    unfold firstLine
    rw [if_pos rfl]
  | cons b body ih =>
    obtain ⟨hb, hbody⟩ : newLine ≠ b ∧ newLine ∉ body := by simpa using hbody
    cases room with
    | zero => exact absurd hroom (by simp)
    | succ room => simp [firstLine, Ne.symm hb, ih hbody (Nat.le_of_succ_le_succ hroom)]

namespace LineReader

theorem cut_nil (limit : Nat) : cut limit [] = (.new, []) := by
  have hnone : firstLine limit [] = .unfinished := by
    unfold firstLine
    rfl
  rw [cut]
  split
  · simp_all
  · rfl
  · simp_all

theorem cut_of_firstLine {limit : Nat} {buffer body rest : List UInt8}
    (h : firstLine limit buffer = .line body rest) :
    cut limit buffer = ((cut limit rest).1, body :: (cut limit rest).2) := by
  rw [cut]
  split
  · rename_i found after hfound
    obtain ⟨rfl, rfl⟩ := FirstLine.line.inj (hfound.symm.trans h)
    rfl
  · simp_all
  · simp_all

/-- Lines that are not too long are cut apart, and nothing remains. -/
theorem cut_flatMap {limit : Nat} {bodies : List (List UInt8)}
    (hbodies : ∀ body ∈ bodies, newLine ∉ body ∧ body.length ≤ limit) :
    cut limit (bodies.flatMap (· ++ [newLine])) = (.new, bodies) := by
  induction bodies with
  | nil => exact cut_nil limit
  | cons body bodies ih =>
    obtain ⟨⟨hbody, hlength⟩, hbodies⟩ := List.forall_mem_cons.1 hbodies
    rw [List.flatMap_cons, List.append_assoc, List.singleton_append,
      cut_of_firstLine (firstLine_append hbody hlength), ih hbodies]

end LineReader

/-- Bodies without a new line are what a stream of their lines splits into. -/
theorem splitOn_flatMap_newLine {bodies : List (List UInt8)}
    (hbodies : ∀ body ∈ bodies, newLine ∉ body) :
    (bodies.flatMap (· ++ [newLine])).splitOn newLine = bodies ++ [[]] := by
  induction bodies with
  | nil => rfl
  | cons body bodies ih =>
    obtain ⟨hbody, hbodies⟩ := List.forall_mem_cons.1 hbodies
    rw [List.splitOn_eq_splitOnP] at ih ⊢
    rw [List.flatMap_cons, List.append_assoc, List.singleton_append,
      List.splitOnP_append_cons_of_forall_mem _ newLine (by simp), ih hbodies, List.cons_append]
    intro b hb
    rw [beq_eq_false_iff_ne]
    rintro rfl
    exact hbody hb

namespace Frame

/-! ### Frames over a stream -/

/-- A frame that a connection carries unchanged. -/
structure Portable (f : Frame) : Prop where
  /-- Its content is a value that a text can denote. -/
  canonical : f.Canonical
  /-- Its numbers are integers. -/
  whole : f.Whole
  /-- Its text is not nested too deeply. -/
  depth_le : f.toValue.depth ≤ Json.nestingLimit

/-- What was read from any line can be carried further, if its numbers are integers. -/
theorem portable_of_ofLine? {text : String} {f : Frame} (h : ofLine? text = some f)
    (hw : f.Whole) : f.Portable :=
  ⟨(canonical_of_ofLine? h).1, hw, (canonical_of_ofLine? h).2⟩

theorem flatMap_bytes (fs : List Frame) :
    fs.flatMap bytes = (fs.map textBytes).flatMap (· ++ [newLine]) := by
  induction fs with
  | nil => rfl
  | cons f fs ih => rw [List.flatMap_cons, ih, bytes_eq, List.map_cons, List.flatMap_cons]

/-- A frame is read back from its line, whose only new line ends it. A stream of lines is cut into
those lines again, and every line is read as its frame, in order. A frame that was read from any text
is read back from the line that writes it anew. -/
theorem read_back :
    (∀ f : Frame, f.Portable →
      ofLine? f.line = some f ∧ ∃ body, f.bytes = body ++ [newLine] ∧ newLine ∉ body) ∧
    (∀ fs : List Frame, (∀ f ∈ fs, f.Portable) →
      ∃ bodies, (fs.flatMap bytes).splitOn newLine = bodies ++ [[]] ∧
        bodies.map ofBytes? = fs.map some ∧
        ∀ limit, (∀ body ∈ bodies, body.length ≤ limit) →
          LineReader.cut limit (fs.flatMap bytes) = (.new, bodies)) ∧
    ∀ (text : String) (f : Frame), ofLine? text = some f → f.Whole → ofLine? f.line = some f := by
  refine ⟨fun f hf => ⟨?_, f.textBytes, f.bytes_eq, newLine_notMem_textBytes hf.whole⟩,
    fun fs hfs => ⟨fs.map textBytes, ?_, ?_, fun limit hlimit => ?_⟩, fun text f htext hw => ?_⟩
  · exact ofLine?_line hf.canonical hf.whole hf.depth_le
  · rw [flatMap_bytes, splitOn_flatMap_newLine]
    intro body hbody
    obtain ⟨f, hf, rfl⟩ := List.mem_map.1 hbody
    exact newLine_notMem_textBytes (hfs f hf).whole
  · rw [List.map_map]
    refine List.map_congr_left fun f hf => ?_
    exact ofBytes?_textBytes (hfs f hf).canonical (hfs f hf).whole (hfs f hf).depth_le
  · rw [flatMap_bytes, LineReader.cut_flatMap]
    intro body hbody
    refine ⟨?_, hlimit body hbody⟩
    obtain ⟨f, hf, rfl⟩ := List.mem_map.1 hbody
    exact newLine_notMem_textBytes (hfs f hf).whole
  · have hf := portable_of_ofLine? htext hw
    exact ofLine?_line hf.canonical hf.whole hf.depth_le

/-- A handshake whose id has a new line, and an envelope read from a text in array form. -/
theorem read_back_of_token_and_array :
    let token : Frame := .handshake ⟨"a\nb", "n", "s"⟩
    let status : Frame := .message ⟨.status, .object [("k", .array [.number (.int (-1)), .null])]⟩
    ofLine? token.line = some token ∧
      (∃ bodies, ([token, status].flatMap bytes).splitOn newLine = bodies ++ [[]] ∧
        bodies.map ofBytes? = [some token, some status]) ∧
      ∃ text, ofLine? text = some status ∧ ofLine? status.line = some status := by
  intro token status
  have htoken : token.Portable := ⟨trivial, trivial, by decide⟩
  have hstatus : status.Portable := by
    refine ⟨?_, ?_, by decide⟩
    · simp [status, Canonical, Value.Canonical, Value.Everywhere, Value.EverywhereMembers,
        Value.EverywhereItems, Value.KeysIncrease]
    · simp [status, Whole, Value.Whole, Value.Everywhere, Value.EverywhereMembers,
        Value.EverywhereItems, Value.NumberWhole, Json.Number.Whole]
  obtain ⟨bodies, hsplit, hread, -⟩ := read_back.2.1 [token, status] (by simp [htoken, hstatus])
  let v : Value := .array [.string "message", .array [.string "STATUS",
    .object [("k", .array [.number (.int (-1)), .null])]]]
  have hwhole : v.Whole := by
    simp [v, Value.Whole, Value.Everywhere, Value.EverywhereMembers, Value.EverywhereItems,
      Value.NumberWhole, Json.Number.Whole]
  have htext : ofLine? (String.ofList v.write) = some status := by
    rw [ofLine?, String.toList_ofList, ofChars?_of_write hwhole (by decide) ?_]
    · rfl
    · rfl
  exact ⟨(read_back.1 token htoken).1, ⟨bodies, hsplit, hread⟩, _, htext,
    read_back.2.2 _ status htext hstatus.whole⟩

end Frame

end Barrage
