import Barrage.Proofs.Link.Lines
import Mathlib.Data.Nat.Init
import Mathlib.Order.Nat

/-!
# A stream in pieces

A reader gets a stream in pieces and cuts it into lines as they arrive. What it has read is what it
reads from the whole stream at once (`LineReader.cut_append`): the lines between the new lines, up to the
first one that is too long (`LineReader.cut_eq`).

`Splitter` is the same reader with a memory of how far its buffer has been searched. It resumes the
search there, and reads what a reader reads that searches from the front (`Splitter.read_eq`).
-/

namespace Barrage

/-! ### The first line -/

/-- What a first line says about the buffer that it was found in. -/
def FirstLine.Describes (room : Nat) (buffer : List UInt8) : FirstLine → Prop
  | .line body rest => buffer = body ++ newLine :: rest ∧ newLine ∉ body ∧ body.length ≤ room
  | .unfinished => newLine ∉ buffer ∧ buffer.length ≤ room
  | .overlong => ∃ body rest, buffer = body ++ rest ∧ newLine ∉ body ∧ body.length = room + 1

theorem firstLine_describes (room : Nat) (buffer : List UInt8) :
    (firstLine room buffer).Describes room buffer := by
  induction buffer generalizing room with
  | nil =>
    unfold firstLine
    exact ⟨List.not_mem_nil, Nat.zero_le _⟩
  | cons b tail ih =>
    unfold firstLine
    split_ifs with hb
    · subst hb
      exact ⟨rfl, List.not_mem_nil, Nat.zero_le _⟩
    · have hb : newLine ≠ b := Ne.symm hb
      cases room with
      | zero => exact ⟨[b], tail, rfl, by simpa using hb, rfl⟩
      | succ room =>
        have htail := ih room
        cases hfound : firstLine room tail with
        | line body rest =>
          simp only [hfound] at htail ⊢
          obtain ⟨rfl, hbody, hlength⟩ := htail
          exact ⟨rfl, by simp [hb, hbody], by simpa using hlength⟩
        | unfinished =>
          simp only [hfound] at htail ⊢
          exact ⟨by simp [hb, htail.1], by simpa using htail.2⟩
        | overlong =>
          simp only [hfound] at htail ⊢
          obtain ⟨body, rest, rfl, hbody, hlength⟩ := htail
          exact ⟨b :: body, rest, rfl, by simp [hb, hbody], by simpa using hlength⟩

/-- More bytes than there is room for, without a new line, are too long a line. -/
theorem firstLine_overlong {room : Nat} {body : List UInt8} (hbody : newLine ∉ body)
    (hlength : room < body.length) (rest : List UInt8) :
    firstLine room (body ++ rest) = .overlong := by
  induction body generalizing room with
  | nil => exact absurd hlength (Nat.not_lt_zero _)
  | cons b body ih =>
    obtain ⟨hb, hbody⟩ : newLine ≠ b ∧ newLine ∉ body := by simpa using hbody
    cases room with
    | zero => simp [firstLine, Ne.symm hb]
    | succ room => simp [firstLine, Ne.symm hb, ih hbody (Nat.lt_of_succ_lt_succ hlength)]

/-- What is long enough to be unfinished is unfinished. -/
theorem firstLine_unfinished {room : Nat} {buffer : List UInt8} (hbuffer : newLine ∉ buffer)
    (hlength : buffer.length ≤ room) : firstLine room buffer = .unfinished := by
  have hfound := firstLine_describes room buffer
  cases hcases : firstLine room buffer with
  | line body rest =>
    rw [hcases] at hfound
    exact absurd (hfound.1 ▸ by simp) hbuffer
  | unfinished => rfl
  | overlong =>
    rw [hcases] at hfound
    obtain ⟨body, rest, rfl, -, hover⟩ := hfound
    simp only [List.length_append] at hlength
    omega

/-! ### The parts of a stream -/

/-- The complete lines of a stream. -/
def completeLines (stream : List UInt8) : List (List UInt8) := (stream.splitOn newLine).dropLast

/-- What follows the last new line of a stream. -/
def lastPart (stream : List UInt8) : List UInt8 := (stream.splitOn newLine).getLastD []

/-- Whether a stream has a line, or the beginning of one, of more than `limit` bytes. -/
def Exceeds (limit : Nat) (stream : List UInt8) : Prop :=
  ∃ part ∈ stream.splitOn newLine, limit < part.length

instance (limit : Nat) (stream : List UInt8) : Decidable (Exceeds limit stream) :=
  inferInstanceAs (Decidable (∃ part ∈ stream.splitOn newLine, limit < part.length))

theorem splitOn_newLine_ne_nil (stream : List UInt8) : stream.splitOn newLine ≠ [] := by
  rw [List.splitOn_eq_splitOnP]
  exact List.splitOnP_ne_nil _ _

theorem splitOn_newLine_of_notMem {stream : List UInt8} (h : newLine ∉ stream) :
    stream.splitOn newLine = [stream] := by
  rw [List.splitOn_eq_splitOnP, List.splitOnP_eq_singleton]
  intro b hb
  rw [beq_eq_false_iff_ne]
  rintro rfl
  exact h hb

theorem splitOn_newLine_append {body : List UInt8} (hbody : newLine ∉ body) (rest : List UInt8) :
    (body ++ newLine :: rest).splitOn newLine = body :: rest.splitOn newLine := by
  rw [List.splitOn_eq_splitOnP, List.splitOnP_append_cons_of_forall_mem _ newLine (by simp)]
  · rw [List.splitOn_eq_splitOnP]
  · intro b hb
    rw [beq_eq_false_iff_ne]
    rintro rfl
    exact hbody hb

/-- The first part of a stream goes on from its front without a new line. -/
theorem exists_splitOn_newLine_append {body : List UInt8} (hbody : newLine ∉ body)
    (rest : List UInt8) :
    ∃ more parts, (body ++ rest).splitOn newLine = (body ++ more) :: parts := by
  by_cases hrest : newLine ∈ rest
  · obtain ⟨more, after, rfl, hmore⟩ := List.eq_append_cons_of_mem hrest
    refine ⟨more, after.splitOn newLine, ?_⟩
    rw [← List.append_assoc, splitOn_newLine_append (by simp [hbody, hmore])]
  · exact ⟨rest, [], splitOn_newLine_of_notMem (by simp [hbody, hrest])⟩

theorem completeLines_append {body : List UInt8} (hbody : newLine ∉ body) (rest : List UInt8) :
    completeLines (body ++ newLine :: rest) = body :: completeLines rest := by
  rw [completeLines, splitOn_newLine_append hbody,
    List.dropLast_cons_of_ne_nil (splitOn_newLine_ne_nil rest), completeLines]

theorem lastPart_append {body : List UInt8} (hbody : newLine ∉ body) (rest : List UInt8) :
    lastPart (body ++ newLine :: rest) = lastPart rest := by
  have hne := splitOn_newLine_ne_nil rest
  simp [lastPart, splitOn_newLine_append hbody, List.getLastD_eq_getLast?, List.getLast?_cons,
    List.getLast?_eq_some_getLast hne]

theorem splitOn_newLine_eq (stream : List UInt8) :
    stream.splitOn newLine = completeLines stream ++ [lastPart stream] := by
  have hne := splitOn_newLine_ne_nil stream
  rw [completeLines, lastPart, List.getLastD_eq_getLast?, List.getLast?_eq_some_getLast hne]
  exact (List.dropLast_append_getLast hne).symm

/-- What comes later goes on from the last part of what came before. -/
theorem splitOn_newLine_append_eq (before after : List UInt8) :
    (before ++ after).splitOn newLine =
      completeLines before ++ (lastPart before ++ after).splitOn newLine := by
  induction hlength : before.length using Nat.strong_induction_on generalizing before with
  | _ n ih =>
    by_cases hmem : newLine ∈ before
    · obtain ⟨body, rest, rfl, hbody⟩ := List.eq_append_cons_of_mem hmem
      have hrest := ih rest.length (by simp [← hlength]; omega) rest rfl
      rw [List.append_assoc, List.cons_append, splitOn_newLine_append hbody, hrest,
        completeLines_append hbody, lastPart_append hbody, List.cons_append]
    · have hsplit := splitOn_newLine_of_notMem hmem
      simp [completeLines, lastPart, hsplit]

section Boundary

variable {before : List UInt8} (hbefore : lastPart before = []) (after : List UInt8)

include hbefore

/-- After the end of a line a stream goes on as a stream of its own. -/
theorem splitOn_newLine_append_of_lastPart :
    (before ++ after).splitOn newLine = completeLines before ++ after.splitOn newLine := by
  rw [splitOn_newLine_append_eq, hbefore, List.nil_append]

theorem completeLines_append_of_lastPart :
    completeLines (before ++ after) = completeLines before ++ completeLines after := by
  rw [completeLines, splitOn_newLine_append_of_lastPart hbefore,
    List.dropLast_append_of_ne_nil (splitOn_newLine_ne_nil after)]
  rfl

theorem lastPart_append_of_lastPart : lastPart (before ++ after) = lastPart after := by
  rw [lastPart, splitOn_newLine_append_of_lastPart hbefore, splitOn_newLine_eq after]
  simp

theorem exceeds_append_of_lastPart {limit : Nat} :
    Exceeds limit (before ++ after) ↔
      (∃ line ∈ completeLines before, limit < line.length) ∨ Exceeds limit after := by
  simp only [Exceeds, splitOn_newLine_append_of_lastPart hbefore, List.mem_append, or_and_right,
    exists_or]

end Boundary

/-! ### Reading in pieces -/

namespace LineReader

variable {limit : Nat} {buffer piece : List UInt8}

theorem cut_of_unfinished (h : firstLine limit buffer = .unfinished) :
    cut limit buffer = (⟨buffer, false⟩, []) := by
  rw [cut]
  split <;> simp_all

theorem cut_of_overlong (h : firstLine limit buffer = .overlong) :
    cut limit buffer = (⟨[], true⟩, []) := by
  rw [cut]
  split <;> simp_all

/-- What arrives in two pieces is cut as if it had arrived at once. -/
theorem cut_append (limit : Nat) (buffer piece : List UInt8) :
    cut limit (buffer ++ piece) =
      (((cut limit buffer).1.read limit piece).1,
        (cut limit buffer).2 ++ ((cut limit buffer).1.read limit piece).2) := by
  induction hlength : buffer.length using Nat.strong_induction_on generalizing buffer with
  | _ n ih =>
    have hfound := firstLine_describes limit buffer
    cases hcases : firstLine limit buffer with
    | line body rest =>
      rw [hcases] at hfound
      obtain ⟨rfl, hbody, hroom⟩ := hfound
      have hrest := ih rest.length (by simp [← hlength]; omega) rest rfl
      have hfirst : firstLine limit (body ++ newLine :: (rest ++ piece)) = .line body (rest ++ piece) :=
        firstLine_append hbody hroom
      rw [List.append_assoc, List.cons_append, cut_of_firstLine hfirst, cut_of_firstLine hcases, hrest,
        List.cons_append]
    | unfinished =>
      rw [cut_of_unfinished hcases]
      simp [read]
    | overlong =>
      rw [hcases] at hfound
      obtain ⟨body, rest, rfl, hbody, hover⟩ := hfound
      rw [List.append_assoc, cut_of_overlong (firstLine_overlong hbody (by omega) _),
        cut_of_overlong hcases]
      simp [read]

/-- A stream is cut into its complete lines up to the first one that is too long; without one its last
part remains. -/
theorem cut_eq (limit : Nat) (stream : List UInt8) :
    cut limit stream =
      (if Exceeds limit stream then ⟨[], true⟩ else ⟨lastPart stream, false⟩,
        (completeLines stream).takeWhile (·.length ≤ limit)) := by
  induction hlength : stream.length using Nat.strong_induction_on generalizing stream with
  | _ n ih =>
    have hfound := firstLine_describes limit stream
    cases hcases : firstLine limit stream with
    | line body rest =>
      rw [hcases] at hfound
      obtain ⟨rfl, hbody, hroom⟩ := hfound
      -- the first line is one that fits, and the rest is shorter
      have hrest := ih rest.length (by simp [← hlength]; omega) rest rfl
      have hexceeds : Exceeds limit (body ++ newLine :: rest) ↔ Exceeds limit rest := by
        simp [Exceeds, splitOn_newLine_append hbody, Nat.not_lt.2 hroom]
      rw [cut_of_firstLine hcases, hrest, completeLines_append hbody, lastPart_append hbody,
        List.takeWhile_cons_of_pos (by simpa using hroom)]
      simp only [hexceeds]
    | unfinished =>
      rw [hcases] at hfound
      have hsplit := splitOn_newLine_of_notMem hfound.1
      rw [cut_of_unfinished hcases, if_neg (by simp [Exceeds, hsplit, hfound.2])]
      simp [lastPart, completeLines, hsplit]
    | overlong =>
      rw [hcases] at hfound
      obtain ⟨body, rest, rfl, hbody, hover⟩ := hfound
      obtain ⟨more, parts, hsplit⟩ := exists_splitOn_newLine_append hbody rest
      have hlong : limit < (body ++ more).length := by simp only [List.length_append]; omega
      rw [cut_of_overlong hcases, if_pos ⟨body ++ more, by simp [hsplit], hlong⟩]
      -- the first part is too long, whether or not a line end follows it
      cases parts with
      | nil => simp [completeLines, hsplit]
      | cons part parts =>
        rw [completeLines, hsplit, List.dropLast_cons_of_ne_nil (List.cons_ne_nil _ _),
          List.takeWhile_cons_of_neg (by simpa using hlong)]

/-- Reads some pieces of a stream, one after the other. -/
def readAll (limit : Nat) (r : LineReader) : List (List UInt8) → LineReader × List (List UInt8)
  | [] => (r, [])
  | piece :: pieces =>
    let (r, lines) := r.read limit piece
    let (r, more) := r.readAll limit pieces
    (r, lines ++ more)

theorem read_append (limit : Nat) (r : LineReader) (first second : List UInt8) :
    r.read limit (first ++ second) =
      (((r.read limit first).1.read limit second).1,
        (r.read limit first).2 ++ ((r.read limit first).1.read limit second).2) := by
  cases hover : r.overlong with
  | true => simp [read, hover]
  | false =>
    have hcut := cut_append limit (r.buffer ++ first) second
    rw [List.append_assoc] at hcut
    simpa [read, hover] using hcut

theorem readAll_cons (limit : Nat) (r : LineReader) (piece : List UInt8)
    (pieces : List (List UInt8)) :
    r.readAll limit (piece :: pieces) =
      (((r.read limit piece).1.readAll limit pieces).1,
        (r.read limit piece).2 ++ ((r.read limit piece).1.readAll limit pieces).2) := rfl

/-- What a reader gets in pieces it reads as it would at once. -/
theorem readAll_eq_read (limit : Nat) (r : LineReader) (piece : List UInt8)
    (pieces : List (List UInt8)) :
    r.readAll limit (piece :: pieces) = r.read limit (piece :: pieces).flatten := by
  induction pieces generalizing r piece with
  | nil => simp [readAll]
  | cons next pieces ih => rw [readAll_cons, ih, ← read_append, ← List.flatten_cons]

/-- Whatever the pieces, a new reader reads the stream that they make up. -/
theorem readAll_new (limit : Nat) (pieces : List (List UInt8)) :
    readAll limit .new pieces = cut limit pieces.flatten := by
  cases pieces with
  | nil => exact (cut_nil limit).symm
  | cons piece pieces => exact readAll_eq_read limit .new piece pieces

end LineReader

/-! ### A search that is resumed -/

/-- A reader that knows how much of its buffer it has searched. -/
structure Splitter where
  buffer : List UInt8
  /-- How many bytes at the front were searched and hold no new line. -/
  searched : Nat
  /-- Whether a line was too long; then nothing more is read. -/
  overlong : Bool

namespace Splitter

variable {limit : Nat} {s : Splitter}

/-- Before anything has arrived. -/
def new : Splitter := ⟨[], 0, false⟩

/-- What is still to be searched; a line that is not too long ends among the first `limit + 1` bytes. -/
def window (limit : Nat) (s : Splitter) : List UInt8 := (s.buffer.take (limit + 1)).drop s.searched

/-- Looks for the first line. -/
def look (limit : Nat) (s : Splitter) : FirstLine :=
  if newLine ∈ s.window limit then
    let length := s.searched + (s.window limit).idxOf newLine
    .line (s.buffer.take length) (s.buffer.drop (length + 1))
  else if limit < s.buffer.length then .overlong
  else .unfinished

theorem length_lt_of_look {bytes rest : List UInt8} (h : s.look limit = .line bytes rest) :
    rest.length < s.buffer.length := by
  unfold look at h
  split_ifs at h with hmem
  obtain ⟨-, rfl⟩ := FirstLine.line.inj h
  have hne : 0 < s.buffer.length := by
    refine List.length_pos_of_mem (a := newLine) ?_
    exact List.mem_of_mem_take (List.mem_of_mem_drop hmem)
  simp only [List.length_drop]
  omega

/-- Takes the complete lines from the buffer. -/
def cut (limit : Nat) (s : Splitter) : Splitter × List (List UInt8) :=
  match _h : s.look limit with
  | .line bytes rest =>
    let (s, lines) := cut limit ⟨rest, 0, false⟩
    (s, bytes :: lines)
  | .unfinished => (⟨s.buffer, min (limit + 1) s.buffer.length, false⟩, [])
  | .overlong => (⟨[], 0, true⟩, [])
termination_by s.buffer.length
decreasing_by exact length_lt_of_look _h

/-- Reads a piece of the stream: the lines that it completes. -/
def read (limit : Nat) (s : Splitter) (piece : List UInt8) : Splitter × List (List UInt8) :=
  if s.overlong then (s, []) else cut limit { s with buffer := s.buffer ++ piece }

/-- Reads some pieces of a stream, one after the other. -/
def readAll (limit : Nat) (s : Splitter) : List (List UInt8) → Splitter × List (List UInt8)
  | [] => (s, [])
  | piece :: pieces =>
    let (s, lines) := s.read limit piece
    let (s, more) := s.readAll limit pieces
    (s, lines ++ more)

/-- The reader that searches its buffer from the front. -/
def forget (s : Splitter) : LineReader := ⟨s.buffer, s.overlong⟩

/-- Whether what counts as searched holds no new line, and is not too long for a line. -/
structure Sound (limit : Nat) (s : Splitter) : Prop where
  clean : newLine ∉ s.buffer.take s.searched
  searched_le : s.searched ≤ s.buffer.length
  searched_le_limit : s.searched ≤ limit

theorem sound_new (limit : Nat) : new.Sound limit := ⟨by simp [new], Nat.le_refl _, Nat.zero_le _⟩

/-- What was searched, what is to be searched, and what no line reaches that is not too long. -/
theorem Sound.buffer_eq (h : s.Sound limit) :
    s.buffer = s.buffer.take s.searched ++ (s.window limit ++ s.buffer.drop (limit + 1)) := by
  have hfront : s.buffer.take s.searched = (s.buffer.take (limit + 1)).take s.searched := by
    rw [List.take_take, Nat.min_eq_left (Nat.le_succ_of_le h.searched_le_limit)]
  rw [hfront, window, ← List.append_assoc, List.take_append_drop, List.take_append_drop]

/-- The search finds what a search from the front finds. -/
theorem Sound.look_eq (h : s.Sound limit) : s.look limit = firstLine limit s.buffer := by
  have hbuffer := h.buffer_eq
  have hclean := h.clean
  have hsearched : (s.buffer.take s.searched).length = s.searched := by simp [h.searched_le]
  have hwindow : s.searched + (s.window limit).length ≤ limit + 1 := by
    have := h.searched_le_limit
    simp only [window, List.length_drop, List.length_take]
    omega
  -- the part that was searched before has no line end, so that the search may begin behind it
  generalize s.buffer.take s.searched = front at hbuffer hclean hsearched
  generalize htail : s.buffer.drop (limit + 1) = tail at hbuffer
  unfold look
  split_ifs with hmem hover
  · obtain ⟨body, rest, hsplit, hbody⟩ := List.eq_append_cons_of_mem hmem
    have hidx : (s.window limit).idxOf newLine = body.length := by
      rw [hsplit, List.idxOf_append_of_notMem hbody, List.idxOf_cons_self, Nat.add_zero]
    have hline : s.buffer = (front ++ body) ++ newLine :: (rest ++ tail) := by
      rw [hbuffer, hsplit]
      simp
    have hroom : (front ++ body).length ≤ limit := by
      rw [hsplit] at hwindow
      simp only [List.length_append, List.length_cons] at hwindow ⊢
      omega
    dsimp only
    rw [hidx, ← hsearched, ← List.length_append, hline, List.take_left, List.drop_length_add_append,
      firstLine_append (by simp [hclean, hbody]) hroom]
    rfl
  · -- a whole window without a line end is more than a line may have
    have hlong : limit < (front ++ s.window limit).length := by
      have := congrArg List.length hbuffer
      have := congrArg List.length htail
      simp only [List.length_append, List.length_drop] at *
      omega
    rw [hbuffer, ← List.append_assoc, firstLine_overlong (by simp [hclean, hmem]) hlong]
  · -- otherwise all of the buffer was searched
    have hnone : tail = [] := by
      rw [← htail, List.drop_eq_nil_iff]
      omega
    rw [firstLine_unfinished _ (Nat.not_lt.1 hover)]
    rw [hbuffer, hnone]
    simp [hclean, hmem]

/-- The lines are those that are cut with a search from the front. -/
theorem Sound.cut_eq (h : s.Sound limit) :
    (s.cut limit).1.Sound limit ∧
      ((s.cut limit).1.forget, (s.cut limit).2) = LineReader.cut limit s.buffer := by
  induction hlength : s.buffer.length using Nat.strong_induction_on generalizing s with
  | _ n ih =>
    have hlook := h.look_eq
    rw [cut]
    split
    · rename_i body rest hline
      have hshorter := length_lt_of_look hline
      have hfresh : Sound limit ⟨rest, 0, false⟩ := ⟨by simp, Nat.zero_le _, Nat.zero_le _⟩
      obtain ⟨hsound, hrest⟩ := ih rest.length (by omega) hfresh rfl
      refine ⟨hsound, ?_⟩
      rw [LineReader.cut_of_firstLine (hlook ▸ hline), ← hrest]
    · rename_i hnone
      have hfound := firstLine_describes limit s.buffer
      rw [← hlook, hnone] at hfound
      rw [LineReader.cut_of_unfinished (hlook ▸ hnone)]
      refine ⟨⟨?_, Nat.min_le_right _ _, (Nat.min_le_right _ _).trans hfound.2⟩, rfl⟩
      exact fun hmem => hfound.1 (List.mem_of_mem_take hmem)
    · rename_i hover
      rw [LineReader.cut_of_overlong (hlook ▸ hover)]
      exact ⟨⟨by simp, Nat.le_refl _, Nat.zero_le _⟩, rfl⟩

theorem Sound.append (h : s.Sound limit) (piece : List UInt8) :
    ({ s with buffer := s.buffer ++ piece } : Splitter).Sound limit := by
  refine ⟨?_, ?_, h.searched_le_limit⟩
  · rw [List.take_append_of_le_length h.searched_le]
    exact h.clean
  · exact h.searched_le.trans (by simp)

theorem Sound.read_eq (h : s.Sound limit) (piece : List UInt8) :
    (s.read limit piece).1.Sound limit ∧
      ((s.read limit piece).1.forget, (s.read limit piece).2) = s.forget.read limit piece := by
  cases hover : s.overlong with
  | true => simp [read, LineReader.read, forget, hover, h]
  | false => simpa [read, LineReader.read, forget, hover] using (h.append piece).cut_eq

/-- Whatever the pieces, a search that is resumed reads what a search from the front reads. -/
theorem Sound.readAll_eq (h : s.Sound limit) (pieces : List (List UInt8)) :
    ((s.readAll limit pieces).1.forget, (s.readAll limit pieces).2) =
      s.forget.readAll limit pieces := by
  induction pieces generalizing s with
  | nil => rfl
  | cons piece pieces ih =>
    obtain ⟨hsound, hread⟩ := h.read_eq piece
    rw [LineReader.readAll_cons, ← hread, ← ih hsound]
    rfl

end Splitter

end Barrage
