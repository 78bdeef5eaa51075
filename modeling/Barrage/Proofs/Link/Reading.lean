import Barrage.Link.Stream
import Barrage.Proofs.Link.Cutting
import Mathlib.Data.List.TakeWhile

/-!
# The frames of a stream

`framesOf` reads the frames off a whole stream: those in its lines, up to the first line that is too long.
A line that is passed over brings none, and can be put in or left out wherever a line begins
(`framesOf_insert`, `framesOf_insert_last`).

What a reader brings to a connection, piece by piece, are the frames of the stream and then, once it is
over, the end of the reading (`Connection.Brings.receive`, `Connection.Brings.receiveEnd`).
-/

namespace Barrage

/-! ### The frames of a stream -/

/-- What has become of a stream. -/
inductive StreamEnd where
  | goesOn
  /-- The peer has ended it. -/
  | ended
  /-- It can no longer be read. -/
  | broken
  deriving Repr, DecidableEq, Inhabited

/-- The lines of a stream; what follows the last new line is one when the stream has ended. -/
def linesOf (ending : StreamEnd) (stream : List UInt8) : List (List UInt8) :=
  completeLines stream ++ if ending = .ended ∧ lastPart stream ≠ [] then [lastPart stream] else []

/-- The frames of a stream: those in its lines, up to the first line that is too long. -/
def framesOf (limit : Nat) (ending : StreamEnd) (stream : List UInt8) : List Frame :=
  ((linesOf ending stream).takeWhile (·.length ≤ limit)).filterMap Frame.ofBytes?

/-- Whether nothing more comes of a stream. -/
def isExhausted (limit : Nat) (ending : StreamEnd) (stream : List UInt8) : Bool :=
  decide (Exceeds limit stream) || ending != .goesOn

/-- Whether a line is passed over. -/
inductive PassedOver (line : List UInt8) : Prop where
  | notText (h : String.fromUTF8? ⟨line.toArray⟩ = none)
  | blank {text : String} (h : String.fromUTF8? ⟨line.toArray⟩ = some text)
      (blank : Text.trim text = "")
  | notFrame {text : String} (h : String.fromUTF8? ⟨line.toArray⟩ = some text)
      (notFrame : Frame.ofLine? text = none)

/-- A blank text holds no frame. -/
theorem Frame.ofLine?_of_blank {text : String} (h : Text.trim text = "") :
    Frame.ofLine? text = none := by
  have htrim : Text.trimChars text.toList = [] := by
    simpa [Text.trim] using congrArg String.toList h
  simp only [Frame.ofLine?, Frame.ofChars?, htrim]
  rfl

/-- The lines that are passed over are those that hold no frame. -/
theorem passedOver_iff {line : List UInt8} : PassedOver line ↔ Frame.ofBytes? line = none := by
  constructor
  · rintro (h | ⟨h, hblank⟩ | ⟨h, hframe⟩)
    · simp [Frame.ofBytes?, h]
    · simp [Frame.ofBytes?, h, Frame.ofLine?_of_blank hblank]
    · simp [Frame.ofBytes?, h, hframe]
  · intro h
    cases htext : String.fromUTF8? ⟨line.toArray⟩ with
    | none => exact .notText htext
    | some text => exact .notFrame htext (by simpa [Frame.ofBytes?, htext] using h)

/-! ### Lines that are passed over -/

section Insertion

variable {limit : Nat} {before line : List UInt8} (ending : StreamEnd) (after : List UInt8)

theorem linesOf_append (hbefore : lastPart before = []) :
    linesOf ending (before ++ after) = completeLines before ++ linesOf ending after := by
  rw [linesOf, completeLines_append_of_lastPart hbefore, lastPart_append_of_lastPart hbefore,
    List.append_assoc, linesOf]

theorem linesOf_line (hline : newLine ∉ line) :
    linesOf ending (line ++ newLine :: after) = line :: linesOf ending after := by
  rw [linesOf, completeLines_append hline, lastPart_append hline, List.cons_append, linesOf]

theorem exceeds_line (hline : newLine ∉ line) (hlength : line.length ≤ limit) :
    Exceeds limit (line ++ newLine :: after) ↔ Exceeds limit after := by
  simp [Exceeds, splitOn_newLine_append hline, Nat.not_lt.2 hlength]

/-- A line that is passed over brings no frame, whatever comes before and after it. -/
theorem filterMap_takeWhile_insert (hlength : line.length ≤ limit) (hpassed : PassedOver line)
    (lines more : List (List UInt8)) :
    ((lines ++ line :: more).takeWhile (·.length ≤ limit)).filterMap Frame.ofBytes? =
      ((lines ++ more).takeWhile (·.length ≤ limit)).filterMap Frame.ofBytes? := by
  rw [List.takeWhile_append, List.takeWhile_append, List.takeWhile_cons_of_pos (by simpa using hlength)]
  split
  · rw [List.filterMap_append, List.filterMap_append, List.filterMap_cons_none (passedOver_iff.1 hpassed)]
  · rfl

/-- A line that is passed over can be put in or left out wherever a line begins. -/
theorem framesOf_insert (hbefore : lastPart before = []) (hline : newLine ∉ line)
    (hlength : line.length ≤ limit) (hpassed : PassedOver line) :
    framesOf limit ending (before ++ (line ++ newLine :: after)) =
        framesOf limit ending (before ++ after) ∧
      isExhausted limit ending (before ++ (line ++ newLine :: after)) =
        isExhausted limit ending (before ++ after) := by
  constructor
  · rw [framesOf, linesOf_append _ _ hbefore, linesOf_line _ _ hline,
      filterMap_takeWhile_insert hlength hpassed, ← linesOf_append _ _ hbefore, framesOf]
  · simp only [isExhausted, exceeds_append_of_lastPart hbefore, exceeds_line _ hline hlength]

/-- So it can at the end of a stream, without a new line. -/
theorem framesOf_insert_last (hbefore : lastPart before = []) (hline : newLine ∉ line)
    (hlength : line.length ≤ limit) (hpassed : PassedOver line) :
    framesOf limit ending (before ++ line) = framesOf limit ending before ∧
      isExhausted limit ending (before ++ line) = isExhausted limit ending before := by
  have hsplit := splitOn_newLine_of_notMem hline
  have hover : Exceeds limit (before ++ line) ↔ Exceeds limit before := by
    have hnone : ¬Exceeds limit line := by simp [Exceeds, hsplit, hlength]
    have hempty : ¬Exceeds limit [] := by simp [Exceeds]
    rw [exceeds_append_of_lastPart hbefore]
    conv_rhs => rw [← List.append_nil before, exceeds_append_of_lastPart hbefore]
    simp only [hnone, hempty]
  have hlines : linesOf ending (before ++ line) =
      completeLines before ++ if ending = .ended ∧ line ≠ [] then [line] else [] := by
    rw [linesOf_append _ _ hbefore, linesOf]
    simp [completeLines, lastPart, hsplit]
  have hwithout : linesOf ending before = completeLines before ++ [] := by simp [linesOf, hbefore]
  refine ⟨?_, by simp only [isExhausted, hover]⟩
  rw [framesOf, framesOf, hlines, hwithout]
  split_ifs
  · exact filterMap_takeWhile_insert hlength hpassed _ []
  · rfl

end Insertion

/-! ### What the reader brings -/

namespace Connection

/-- The frame that an event brings. -/
def Event.frame? : Event → Option Frame
  | .receive frame => some frame
  | _ => none

/-- Whether an event says that nothing more will be read. -/
def Event.isEnd : Event → Bool
  | .endReading => true
  | _ => false

/-- The frames in some events. -/
def framesIn (events : List Event) : List Frame := events.filterMap Event.frame?

/-- Whether one of some events says that nothing more will be read. -/
def endedIn (events : List Event) : Bool := events.any Event.isEnd

theorem framesIn_append (events events' : List Event) :
    framesIn (events ++ events') = framesIn events ++ framesIn events' := List.filterMap_append

theorem endedIn_append (events events' : List Event) :
    endedIn (events ++ events') = (endedIn events || endedIn events') := List.any_append

/-- What a stream brings: its frames, and then, once it is over, the end of the reading. -/
structure Brings (frames : List Frame) (done : Bool) (events : List Event) : Prop where
  frames_eq : framesIn events = frames
  ended_eq : endedIn events = done
  inbound : ∀ e ∈ events, e.isEnd = true ∨ ∃ frame, e = .receive frame
  /-- After the end there is nothing but the end. -/
  last : events.Pairwise fun e e' => e.isEnd = true → e'.isEnd = true

theorem brings_nil : Brings [] false [] := ⟨rfl, rfl, nofun, .nil⟩

theorem brings_end : Brings [] true [.endReading] :=
  ⟨rfl, rfl, by simp [Event.isEnd], List.pairwise_singleton _ _⟩

theorem brings_receiptsOf (lines : List (List UInt8)) :
    Brings (lines.filterMap Frame.ofBytes?) false (receiptsOf lines) := by
  unfold receiptsOf
  generalize lines.filterMap Frame.ofBytes? = frames
  refine ⟨?_, ?_, ?_, ?_⟩
  · simp [framesIn, List.filterMap_map, Function.comp_def, Event.frame?]
  · simp [endedIn, Event.isEnd]
  · simp
  · simp [List.pairwise_map, Event.isEnd, List.pairwise_of_forall]

theorem Brings.append {frames frames' : List Frame} {done done' : Bool}
    {events events' : List Event} (h : Brings frames done events)
    (h' : Brings frames' done' events') (hdone : done = true → frames' = []) :
    Brings (frames ++ frames') (done || done') (events ++ events') := by
  refine ⟨?_, ?_, ?_, List.pairwise_append.2 ⟨h.last, h'.last, ?_⟩⟩
  · rw [framesIn_append, h.frames_eq, h'.frames_eq]
  · rw [endedIn_append, h.ended_eq, h'.ended_eq]
  · exact fun e he => (List.mem_append.1 he).elim (h.inbound e) (h'.inbound e)
  · intro e he e' he' hend
    rcases h'.inbound e' he' with hend' | ⟨frame, rfl⟩
    · exact hend'
    · -- there was an end before, so there is no frame any more
      have hover : done = true := h.ended_eq ▸ List.any_eq_true.2 ⟨e, he, hend⟩
      have hframe : frame ∈ framesIn events' := List.mem_filterMap.2 ⟨_, he', rfl⟩
      rw [h'.frames_eq, hdone hover] at hframe
      cases hframe

end Connection

section Reading

open Connection (Brings brings_end brings_receiptsOf)

variable {limit : Nat} {stream : List UInt8}

theorem framesOf_goesOn (limit : Nat) (stream : List UInt8) :
    framesOf limit .goesOn stream =
      (LineReader.cut limit stream).2.filterMap Frame.ofBytes? := by
  simp [framesOf, linesOf, LineReader.cut_eq]

/-- What is left of a stream that breaks is not a line. -/
theorem framesOf_broken (limit : Nat) (stream : List UInt8) :
    framesOf limit .broken stream = framesOf limit .goesOn stream := by simp [framesOf, linesOf]

theorem overlong_cut (limit : Nat) (stream : List UInt8) :
    (LineReader.cut limit stream).1.overlong = isExhausted limit .goesOn stream := by
  rw [LineReader.cut_eq, isExhausted]
  split_ifs with hexceeds
  · simp [hexceeds]
  · simp [hexceeds]

/-- What a piece brings on its own. -/
theorem brings_receive (limit : Nat) (r : LineReader) (piece : List UInt8) :
    Brings ((r.read limit piece).2.filterMap Frame.ofBytes?) (r.read limit piece).1.overlong
      (r.receive limit piece).2 := by
  have hlines := brings_receiptsOf (r.read limit piece).2
  simp only [LineReader.receive]
  cases hover : (r.read limit piece).1.overlong with
  | true => simpa using hlines.append brings_end (by simp)
  | false => simpa using hlines

/-- With a piece a stream has brought the frames that it has with it. -/
theorem Connection.Brings.receive {events : List Connection.Event}
    (h : Brings (framesOf limit .goesOn stream) (isExhausted limit .goesOn stream) events)
    (piece : List UInt8) :
    Brings (framesOf limit .goesOn (stream ++ piece)) (isExhausted limit .goesOn (stream ++ piece))
      (events ++ ((LineReader.cut limit stream).1.receive limit piece).2) := by
  have hpiece := brings_receive limit (LineReader.cut limit stream).1 piece
  have hread := LineReader.cut_append limit stream piece
  -- a reader that has met a line that is too long reads nothing more
  have hclosed : isExhausted limit .goesOn stream = true →
      (LineReader.cut limit stream).1.read limit piece = ((LineReader.cut limit stream).1, []) := by
    intro hover
    rw [LineReader.read, overlong_cut, hover, if_pos rfl]
  have hdone : isExhausted limit .goesOn (stream ++ piece) = (isExhausted limit .goesOn stream ||
      ((LineReader.cut limit stream).1.read limit piece).1.overlong) := by
    rw [← overlong_cut, hread]
    cases hover : isExhausted limit .goesOn stream with
    | false => rfl
    | true => simp [hclosed hover, overlong_cut, hover]
  rw [hdone, framesOf_goesOn, hread, List.filterMap_append, ← framesOf_goesOn]
  exact h.append hpiece fun hover => by rw [hclosed hover, List.filterMap_nil]

theorem finish_cut (limit : Nat) (stream : List UInt8) :
    (LineReader.cut limit stream).1.finish =
      if Exceeds limit stream ∨ lastPart stream = [] then [] else [lastPart stream] := by
  rw [LineReader.cut_eq]
  by_cases hexceeds : Exceeds limit stream <;> simp [LineReader.finish, hexceeds]

/-- A stream that has ended has what remains in the reader as its last line. -/
theorem framesOf_ended (limit : Nat) (stream : List UInt8) :
    framesOf limit .ended stream = framesOf limit .goesOn stream ++
      (LineReader.cut limit stream).1.finish.filterMap Frame.ofBytes? := by
  have hexceeds : Exceeds limit stream ↔
      (∃ line ∈ completeLines stream, limit < line.length) ∨ limit < (lastPart stream).length := by
    simp only [Exceeds, splitOn_newLine_eq, List.mem_append, List.mem_singleton, or_and_right,
      exists_or, exists_eq_left]
  rw [finish_cut, framesOf, framesOf, ← List.filterMap_append]
  refine congrArg (List.filterMap Frame.ofBytes?) ?_
  simp only [linesOf, reduceCtorEq, false_and, if_false, true_and, List.append_nil]
  by_cases hall : ∀ line ∈ completeLines stream, line.length ≤ limit
  · have hcomplete : ∀ line ∈ completeLines stream, decide (line.length ≤ limit) = true := by
      simpa using hall
    rw [List.takeWhile_append_of_pos hcomplete, List.takeWhile_eq_self_iff.2 hcomplete]
    have hlast : Exceeds limit stream ↔ limit < (lastPart stream).length := by
      rw [hexceeds, or_iff_right]
      rintro ⟨line, hline, hlong⟩
      exact absurd (hall line hline) (Nat.not_le.2 hlong)
    congr 1
    by_cases hempty : lastPart stream = []
    · simp [hempty]
    · by_cases hlong : limit < (lastPart stream).length
      · simp [hempty, hlast, hlong]
      · simp [hempty, hlast, hlong, Nat.not_lt.1 hlong]
  · have hlong : ∃ line ∈ completeLines stream, limit < line.length := by simpa using hall
    have hstops : ¬(completeLines stream).takeWhile (·.length ≤ limit) = completeLines stream := by
      rw [List.takeWhile_eq_self_iff]
      simpa using hall
    have hover : Exceeds limit stream ∨ lastPart stream = [] := .inl (hexceeds.2 (.inl hlong))
    rw [if_pos hover, List.append_nil, List.takeWhile_append, if_neg]
    exact fun hlength => hstops ((List.takeWhile_prefix _).eq_of_length hlength)

/-- What the end of a stream brings is what it has more when it has ended. -/
theorem Connection.Brings.receiveEnd {events : List Connection.Event}
    (h : Brings (framesOf limit .goesOn stream) (isExhausted limit .goesOn stream) events) :
    Brings (framesOf limit .ended stream) true
      (events ++ (LineReader.cut limit stream).1.receiveEnd) := by
  have hend := (brings_receiptsOf (LineReader.cut limit stream).1.finish).append brings_end (by simp)
  rw [framesOf_ended]
  simpa [LineReader.receiveEnd] using h.append hend fun hover => by
    simp [LineReader.finish, overlong_cut, hover]

end Reading

end Barrage
