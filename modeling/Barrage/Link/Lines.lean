import Barrage.Frame

/-!
Lines in a stream of bytes.

A stream is cut at its new lines, whatever the pieces in which it arrives; what remains at its end is a
line too. A line has at most `limit` bytes before its new line: as soon as more have arrived without
one, the stream is over. A line that is not UTF-8, is blank or holds no frame is passed over.
-/

namespace Barrage

/-- The byte of a new line. -/
def newLine : UInt8 := 10

/-- What the front of a buffer holds. -/
inductive FirstLine where
  /-- A line, and what follows its new line. -/
  | line (bytes rest : List UInt8)
  /-- No new line yet. -/
  | unfinished
  /-- More bytes than a line may have. -/
  | overlong
  deriving Repr, DecidableEq, Inhabited

/-- Looks for the first line, with room for so many bytes. -/
def firstLine : (room : Nat) → List UInt8 → FirstLine
  | _, [] => .unfinished
  | room, b :: rest =>
    if b = newLine then .line [] rest
    else
      match room with
      | 0 => .overlong
      | room + 1 =>
        match firstLine room rest with
        | .line bytes rest => .line (b :: bytes) rest
        | other => other

/-- What follows a line is shorter than the buffer. -/
theorem length_lt_of_firstLine {room : Nat} {buffer bytes rest : List UInt8}
    (h : firstLine room buffer = .line bytes rest) : rest.length < buffer.length := by
  induction buffer generalizing room bytes with
  | nil => simp [firstLine] at h
  | cons b tail ih =>
    unfold firstLine at h
    split at h
    · obtain ⟨-, rfl⟩ := FirstLine.line.inj h
      simp
    · cases room with
      | zero => simp at h
      | succ room =>
        simp only at h
        split at h
        · rename_i found after hf
          obtain ⟨-, rfl⟩ := FirstLine.line.inj h
          have := ih hf
          simp only [List.length_cons]
          omega
        · rename_i hn
          cases hf : firstLine room tail with
          | line found after => exact absurd hf (hn found after)
          | unfinished => simp [hf] at h
          | overlong => simp [hf] at h

/-- What has arrived of the line that is not complete. -/
structure LineReader where
  buffer : List UInt8
  /-- Whether a line was too long; then nothing more is read. -/
  overlong : Bool
  deriving Repr, DecidableEq, Inhabited

namespace LineReader

/-- Before anything has arrived. -/
def new : LineReader := ⟨[], false⟩

/-- Takes the complete lines from a buffer. -/
def cut (limit : Nat) (buffer : List UInt8) : LineReader × List (List UInt8) :=
  match _h : firstLine limit buffer with
  | .line bytes rest =>
    let (reader, lines) := cut limit rest
    (reader, bytes :: lines)
  | .unfinished => (⟨buffer, false⟩, [])
  | .overlong => (⟨[], true⟩, [])
termination_by buffer.length
decreasing_by exact length_lt_of_firstLine _h

/-- Reads a piece of the stream: the lines that it completes. -/
def read (limit : Nat) (r : LineReader) (piece : List UInt8) : LineReader × List (List UInt8) :=
  if r.overlong then (r, []) else cut limit (r.buffer ++ piece)

/-- What remains at the end of the stream. -/
def finish (r : LineReader) : List (List UInt8) :=
  if r.overlong || r.buffer.isEmpty then [] else [r.buffer]

end LineReader

/-- The frame that a line holds. -/
def Frame.ofBytes? (line : List UInt8) : Option Frame :=
  (String.fromUTF8? ⟨line.toArray⟩).bind Frame.ofLine?

end Barrage
