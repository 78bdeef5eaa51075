import Barrage.Proofs.Link.Reader
import Barrage.Proofs.Link.Reading

/-!
# What a connection hears of a stream

An `Inlet` is a connection with the stream that arrives on it, in any pieces, while the connection sends,
writes and does whatever else does not close it from this side. The frames that it handles, the status of
its handshake and the envelopes that it dispatches are those of the frames of the stream
(`Inlet.stream_decides`): `heard`, `standing` and `dispatched` say which they are.
-/

namespace Barrage

/-! ### What a connection makes of it -/

namespace Connection

variable {c d : Connection} {role : LinkRole} {taken asked : String → Bool} {event : Event}
  {effects : List LinkEffect} {frames : List Frame} {frame : Frame} {done : Bool}

/-- The frames that a connection handles: all if the first one lets the handshake succeed, otherwise none
after that. -/
def heard (role : LinkRole) (taken : String → Bool) : List Frame → List Frame
  | [] => []
  | frame :: frames => if verdict role taken frame = .succeeded then frame :: frames else [frame]

/-- Where the handshake stands after some frames, and after the end of the stream if it is done. -/
def standing (role : LinkRole) (taken : String → Bool) : List Frame → Bool → HandshakeStatus
  | [], false => .pending
  | [], true => .failed .connectionClosed
  | frame :: _, _ => verdict role taken frame

/-- The envelopes that are dispatched: those after the handshake. -/
def dispatched (role : LinkRole) (taken : String → Bool) (frames : List Frame) : List Envelope :=
  (heard role taken frames).tail.filterMap Frame.envelope?

/-- What a connection has made of the events that its stream brought. -/
structure Hears (role : LinkRole) (taken : String → Bool) (events : List Event)
    (handled : List Frame) (delivered : List Envelope) (c : Connection) : Prop where
  role_eq : c.role = role
  coherent : c.Coherent
  status_eq : c.status = standing role taken (framesIn events) (endedIn events)
  reading_eq : c.reading = !c.closed
  closed_iff : c.closed = true ↔ endedIn events = true ∨ ∃ error, c.status = .failed error
  handled_eq : handled = heard role taken (framesIn events)
  delivered_eq : delivered = dispatched role taken (framesIn events)

theorem hears_start (role : LinkRole) (taken : String → Bool) :
    Hears role taken [] [] [] (start role) :=
  ⟨rfl, coherent_start role, rfl, rfl, by simp [start, endedIn], rfl, rfl⟩

section Hearing

variable {events : List Event} {handled : List Frame} {delivered : List Envelope}

theorem framesIn_snoc_receive (events : List Event) (frame : Frame) :
    framesIn (events ++ [.receive frame]) = framesIn events ++ [frame] := framesIn_append _ _

theorem endedIn_snoc_receive (events : List Event) (frame : Frame) :
    endedIn (events ++ [.receive frame]) = endedIn events := by
  rw [endedIn_append]
  exact Bool.or_false _

theorem heard_snoc {first : Frame} {rest : List Frame}
    (hfirst : verdict role taken first = .succeeded) (frame : Frame) :
    heard role taken (first :: rest ++ [frame]) = heard role taken (first :: rest) ++ [frame] := by
  simp [heard, hfirst]

/-- The first frame that is handled. -/
theorem Hears.first (h : Hears role taken events handled delivered c)
    (hgoes : endedIn events = false) (hnone : framesIn events = []) (frame : Frame) :
    Hears role taken (events ++ [.receive frame]) (handled ++ [frame])
      (delivered ++ (c.step taken (.receive frame)).2.filterMap LinkEffect.envelope?)
      (c.step taken (.receive frame)).1 := by
  have hpending : c.status = .pending := by rw [h.status_eq, hnone, hgoes]; rfl
  obtain ⟨hstatus, hanswered⟩ := receive_pending h.coherent hpending taken frame
  rw [h.role_eq] at hstatus
  have hmove := move_step h.coherent taken (.receive frame)
  refine ⟨hmove.role_eq.trans h.role_eq, hmove.coherent h.coherent, ?_, hanswered.reading_eq, ?_, ?_, ?_⟩
  · rw [hstatus, framesIn_snoc_receive, hnone, List.nil_append, standing]
  · rw [endedIn_snoc_receive, hgoes]
    constructor
    · exact fun hclosed => .inr (hanswered.failed hclosed)
    · rintro (hfalse | ⟨error, hfailed⟩)
      · cases hfalse
      · exact (hmove.coherent h.coherent).closed_of_failed hfailed
  · rw [h.handled_eq, framesIn_snoc_receive, hnone]
    simp [heard]
  · rw [h.delivered_eq, framesIn_snoc_receive, hnone, hanswered.silent]
    simp [dispatched, heard]

/-- A connection handles a frame if it still reads. -/
theorem Hears.receive (h : Hears role taken events handled delivered c)
    (hgoes : endedIn events = false) (frame : Frame) :
    Hears role taken (events ++ [.receive frame]) (handled ++ if c.reading then [frame] else [])
      (delivered ++ (c.step taken (.receive frame)).2.filterMap LinkEffect.envelope?)
      (c.step taken (.receive frame)).1 := by
  have hstatus := h.status_eq
  have hclosed := h.closed_iff
  rw [hgoes] at hstatus hclosed
  cases hframes : framesIn events with
  -- the first frame decides the handshake
  | nil =>
    have hpending : c.status = .pending := by rw [hstatus, hframes, standing]
    have hopen : c.closed = false := by simp [← Bool.not_eq_true, hclosed, hpending]
    rw [h.reading_eq, hopen]
    exact h.first hgoes hframes frame
  | cons first rest =>
    rw [hframes, standing] at hstatus
    -- a later one is handled just when the first one let the handshake succeed
    rcases verdict_cases role taken first with hfirst | ⟨error, hfirst⟩
    · have hopen : c.closed = false := by simp [← Bool.not_eq_true, hclosed, hstatus, hfirst]
      have hreading : c.reading = true := by rw [h.reading_eq, hopen]; rfl
      obtain ⟨hsame, hdelivered⟩ :=
        step_receive_of_succeeded (hstatus.trans hfirst) hreading taken frame
      rw [hsame, hdelivered, hreading, if_pos rfl]
      refine ⟨h.role_eq, h.coherent, ?_, h.reading_eq, ?_, ?_, ?_⟩
      · rw [framesIn_snoc_receive, hframes, List.cons_append, standing, hstatus]
      · rw [endedIn_snoc_receive]
        exact h.closed_iff
      · rw [h.handled_eq, framesIn_snoc_receive, hframes, heard_snoc hfirst]
      · rw [h.delivered_eq, framesIn_snoc_receive, hframes, dispatched, dispatched, heard_snoc hfirst]
        cases hframe : frame.envelope? with
        | none => simp [heard, hfirst, hframe]
        | some e => simp [heard, hfirst, hframe]
    · have hshut : c.closed = true := hclosed.2 (.inr ⟨error, hstatus.trans hfirst⟩)
      have hreading : c.reading = false := by rw [h.reading_eq, hshut]; rfl
      have hsame : c.step taken (.receive frame) = (c, []) := by simp [step, Connection.receive, hreading]
      rw [hsame, hreading]
      refine ⟨h.role_eq, h.coherent, ?_, h.reading_eq, ?_, ?_, ?_⟩
      · rw [framesIn_snoc_receive, hframes, List.cons_append, standing, hstatus]
      · rw [endedIn_snoc_receive]
        exact h.closed_iff
      · simp [h.handled_eq, framesIn_snoc_receive, hframes, heard, hfirst]
      · simp [h.delivered_eq, framesIn_snoc_receive, hframes, dispatched, heard, hfirst]

/-- The end of the stream makes a handshake fail that is pending. -/
theorem standing_end (role : LinkRole) (taken : String → Bool) (frames : List Frame) (done : Bool) :
    standing role taken frames true =
      ((standing role taken frames done).fail .connectionClosed).1 := by
  cases frames with
  | nil => cases done <;> rfl
  | cons first rest =>
    have hresolved : standing role taken (first :: rest) done ≠ .pending :=
      verdict_ne role taken first (.inl rfl)
    rw [HandshakeStatus.fail, HandshakeStatus.resolve_of_ne_pending hresolved]
    rfl

/-- The end of the stream closes a connection that was open. -/
theorem Hears.endReading (h : Hears role taken events handled delivered c) :
    Hears role taken (events ++ [.endReading]) handled
      (delivered ++ (c.step taken .endReading).2.filterMap LinkEffect.envelope?)
      (c.step taken .endReading).1 := by
  have hframes : framesIn (events ++ [.endReading]) = framesIn events := by
    rw [framesIn_append]
    exact List.append_nil _
  have hended : endedIn (events ++ [.endReading]) = true := by
    rw [endedIn_append]
    exact Bool.or_true _
  have hmove := move_step h.coherent taken .endReading
  have hstatus : (c.status.fail .connectionClosed).1 =
      standing role taken (framesIn (events ++ [.endReading])) (endedIn (events ++ [.endReading])) := by
    rw [hframes, hended, standing_end _ _ _ (endedIn events), h.status_eq]
  cases hclosed : c.closed with
  -- a connection that is closed already has stopped reading
  | true =>
    have hreading : c.reading = false := by rw [h.reading_eq, hclosed]; rfl
    have hsame : c.step taken .endReading = (c, []) := by
      simp [step, Connection.endReading, hreading]
    have hresolved := h.coherent.ne_pending hclosed
    rw [HandshakeStatus.fail, HandshakeStatus.resolve_of_ne_pending hresolved] at hstatus
    rw [hsame, List.filterMap_nil, List.append_nil]
    refine ⟨h.role_eq, h.coherent, hstatus, h.reading_eq, ?_, ?_, ?_⟩
    · simp [hended, hclosed]
    · rw [hframes, h.handled_eq]
    · rw [hframes, h.delivered_eq]
  | false =>
    have hreading : c.reading = true := by rw [h.reading_eq, hclosed]; rfl
    have hends : c.step taken .endReading =
        ({ c.ended .connectionClosed with reading := false }, c.exits ++ c.losses) := by
      simp [step, Connection.endReading, hreading, forceClose, markClosed_live hclosed]
    rw [hends] at hmove
    rw [hends, List.filterMap_append, filterMap_exits, filterMap_losses, List.append_nil, List.append_nil]
    refine ⟨h.role_eq, hmove.coherent h.coherent, hstatus, rfl, ?_, ?_, ?_⟩
    · simp [hended, ended]
    · rw [hframes, h.handled_eq]
    · rw [hframes, h.delivered_eq]

/-- Whether an event comes from this side, not from the stream. -/
def Event.isOwn : Event → Bool
  | .receive _ => false
  | .endReading => false
  | _ => true

theorem Move.of_quiet (hmove : Move asked c event d effects) (hown : event.isOwn = true)
    (hquiet : d.closed = c.closed) :
    d.status = c.status ∧ effects.filterMap LinkEffect.envelope? = [] := by
  cases hmove with
  | idle _ _ _ => exact ⟨rfl, rfl⟩
  | send e => exact ⟨(send_keeps c e).2.2.1, rfl⟩
  | write _ _ => exact ⟨rfl, rfl⟩
  | deliver _ => cases hown
  | echo _ _ => cases hown
  | letIn _ _ _ _ => cases hown
  | reject _ _ _ _ => cases hown
  | finish _ hopen => exact absurd (hopen.symm.trans hquiet.symm) Bool.false_ne_true
  | drop _ _ _ => exact ⟨rfl, rfl⟩
  | sever _ _ hopen => exact absurd (hopen.symm.trans hquiet.symm) Bool.false_ne_true

/-- What does not close the connection from this side changes nothing that is heard. -/
theorem Hears.aside (h : Hears role taken events handled delivered c) (hown : event.isOwn = true)
    (hquiet : (c.step asked event).1.closed = c.closed) :
    Hears role taken events handled
      (delivered ++ (c.step asked event).2.filterMap LinkEffect.envelope?)
      (c.step asked event).1 := by
  have hmove := move_step h.coherent asked event
  have hcoherent := hmove.coherent h.coherent
  obtain ⟨hstatus, hsilent⟩ := hmove.of_quiet hown hquiet
  refine ⟨hmove.role_eq.trans h.role_eq, hcoherent, hstatus.trans h.status_eq, ?_, ?_, h.handled_eq, ?_⟩
  · cases hclosed : c.closed with
    | true =>
      have hreading : c.reading = false := by rw [h.reading_eq, hclosed]; rfl
      rw [reading_step hreading, hquiet, hclosed]
      rfl
    | false => rw [(hcoherent.live (hquiet.trans hclosed)).2.2, hquiet, hclosed]; rfl
  · rw [hquiet, hstatus]
    exact h.closed_iff
  · rw [hsilent, List.append_nil, h.delivered_eq]

end Hearing

end Connection

/-! ### A connection with its stream -/

/-- A connection with the stream that arrives on it. -/
structure Inlet where
  reader : LineReader
  ending : StreamEnd
  /-- What the stream has brought and the connection has still to take. -/
  waiting : List Connection.Event
  connection : Connection

namespace Inlet

open Connection (Brings Hears)

/-- A new connection, on whose stream nothing has arrived. -/
def start (role : LinkRole) : Inlet := ⟨.new, .goesOn, [], .start role⟩

/-- What happens to a connection with a stream, and what comes of it. -/
inductive Act where
  /-- A piece of the stream arrives. -/
  | arrive (piece : List UInt8)
  /-- The stream ends, or breaks. -/
  | finish
  /-- The connection takes what the stream brought, and may handle a frame. -/
  | hear (event : Connection.Event) (handled? : Option Frame) (effects : List LinkEffect)
  /-- Something else happens to the connection. -/
  | aside (event : Connection.Event) (effects : List LinkEffect)

/-- The bytes that an act brings. -/
def Act.piece : Act → List UInt8
  | .arrive piece => piece
  | _ => []

/-- What an act takes of what the stream has brought. -/
def Act.event? : Act → Option Connection.Event
  | .hear event _ _ => some event
  | _ => none

/-- The frame that is handled in an act. -/
def Act.frame? : Act → Option Frame
  | .hear _ handled? _ => handled?
  | _ => none

/-- The envelopes that are dispatched in an act. -/
def Act.envelopes : Act → List Envelope
  | .hear _ _ effects => effects.filterMap LinkEffect.envelope?
  | .aside _ effects => effects.filterMap LinkEffect.envelope?
  | _ => []

/-- The bytes that arrived. -/
def arrived (acts : List Act) : List UInt8 := acts.flatMap Act.piece

/-- What the connection has taken of what the stream has brought. -/
def taken (acts : List Act) : List Connection.Event := acts.filterMap Act.event?

/-- The frames that the connection handled. -/
def handled (acts : List Act) : List Frame := acts.filterMap Act.frame?

/-- The envelopes that were dispatched. -/
def delivered (acts : List Act) : List Envelope := acts.flatMap Act.envelopes

/-- The steps of a connection with a stream, as long as neither the timer of the handshake nor a close
from this side closes it. The registry is asked for a name once at most, when the first frame is handled;
`names` tells what it says then. -/
inductive Step (limit : Nat) (names : String → Bool) (s : Inlet) : Act → Inlet → Prop where
  | arrive (piece : List UInt8) (goes : s.ending = .goesOn) :
      Step limit names s (.arrive piece)
        { s with
          reader := (s.reader.receive limit piece).1
          waiting := s.waiting ++ (s.reader.receive limit piece).2 }
  | finish (goes : s.ending = .goesOn) :
      Step limit names s .finish
        { s with ending := .ended, waiting := s.waiting ++ s.reader.receiveEnd }
  | breaks (goes : s.ending = .goesOn) :
      Step limit names s .finish
        { s with ending := .broken, waiting := s.waiting ++ [.endReading] }
  | hear (event : Connection.Event) (rest : List Connection.Event)
      (next : s.waiting = event :: rest) :
      Step limit names s
        (.hear event (if s.connection.reading then event.frame? else none)
          (s.connection.step names event).2)
        { s with waiting := rest, connection := (s.connection.step names event).1 }
  | aside (asked : String → Bool) (event : Connection.Event) (own : event.isOwn = true)
      (quiet : (s.connection.step asked event).1.closed = s.connection.closed) :
      Step limit names s (.aside event (s.connection.step asked event).2)
        { s with connection := (s.connection.step asked event).1 }

variable {limit : Nat} {names : String → Bool} {role : LinkRole} {acts : List Act} {s t : Inlet}

@[simp]
theorem arrived_snoc (acts : List Act) (a : Act) :
    arrived (acts ++ [a]) = arrived acts ++ a.piece := by simp [arrived]

@[simp]
theorem taken_snoc (acts : List Act) (a : Act) :
    taken (acts ++ [a]) = taken acts ++ a.event?.toList := filterMap_snoc _ _ _

@[simp]
theorem handled_snoc (acts : List Act) (a : Act) :
    handled (acts ++ [a]) = handled acts ++ a.frame?.toList := filterMap_snoc _ _ _

@[simp]
theorem delivered_snoc (acts : List Act) (a : Act) :
    delivered (acts ++ [a]) = delivered acts ++ a.envelopes := by simp [delivered]

/-- What a stream has brought so far, and what the connection has made of it. -/
structure Steady (limit : Nat) (names : String → Bool) (role : LinkRole) (acts : List Act)
    (s : Inlet) : Prop where
  reader_eq : s.reader = (LineReader.cut limit (arrived acts)).1
  brings : Brings (framesOf limit s.ending (arrived acts)) (isExhausted limit s.ending (arrived acts))
    (taken acts ++ s.waiting)
  hears : Hears role names (taken acts) (handled acts) (delivered acts) s.connection

theorem steady_start (limit : Nat) (names : String → Bool) (role : LinkRole) :
    Steady limit names role [] (start role) := by
  have hframes : framesOf limit .goesOn [] = [] := by simp [framesOf_goesOn, LineReader.cut_nil]
  have hover : isExhausted limit .goesOn [] = false := by
    rw [← overlong_cut, LineReader.cut_nil]
    rfl
  refine ⟨by simp [arrived, start, LineReader.cut_nil], ?_, Connection.hears_start role names⟩
  simpa [arrived, taken, start, hframes, hover] using Connection.brings_nil

/-- What the connection takes is the next of what the stream has brought. -/
theorem Steady.hear (h : Steady limit names role acts s) {event : Connection.Event}
    {rest : List Connection.Event} (hnext : s.waiting = event :: rest) :
    Hears role names (taken acts ++ [event])
      (handled acts ++ (if s.connection.reading then event.frame? else none).toList)
      (delivered acts ++ (s.connection.step names event).2.filterMap LinkEffect.envelope?)
      (s.connection.step names event).1 := by
  have hbrings := h.brings
  rw [hnext] at hbrings
  rcases hbrings.inbound event (by simp) with hend | ⟨frame, rfl⟩
  · cases event with
    | endReading =>
      have hnone :
          (if s.connection.reading then Connection.Event.endReading.frame? else none) = none :=
        ite_self _
      rw [hnone, Option.toList_none, List.append_nil]
      exact h.hears.endReading
    | _ => cases hend
  · -- a frame does not come after the end
    have hgoes : Connection.endedIn (taken acts) = false := by
      rw [← Bool.not_eq_true, Connection.endedIn, List.any_eq_true]
      rintro ⟨e, he, hend⟩
      have hlast := (List.pairwise_append.1 hbrings.last).2.2 e he _ List.mem_cons_self hend
      cases hlast
    have hheard := h.hears.receive hgoes frame
    cases hreading : s.connection.reading <;> simpa [hreading, Connection.Event.frame?] using hheard

/-- The invariant is kept by each step. -/
theorem Steady.step {a : Act} (h : Steady limit names role acts s)
    (hstep : Step limit names s a t) : Steady limit names role (acts ++ [a]) t := by
  have hreader := h.reader_eq
  have hbrings := h.brings
  have hhears := h.hears
  cases hstep with
  | arrive piece hgoes =>
    rw [hgoes] at hbrings
    refine ⟨?_, ?_, by simpa [Act.event?, Act.frame?, Act.envelopes] using hhears⟩
    · rw [arrived_snoc, Act.piece, LineReader.cut_append, ← hreader]
      rfl
    · simpa [Act.piece, Act.event?, hgoes, hreader] using hbrings.receive piece
  | finish hgoes =>
    rw [hgoes] at hbrings
    have hend : isExhausted limit .ended (arrived acts) = true := by simp [isExhausted]
    refine ⟨by simpa [Act.piece] using hreader, ?_,
      by simpa [Act.event?, Act.frame?, Act.envelopes] using hhears⟩
    simpa [Act.piece, Act.event?, hreader, hend] using hbrings.receiveEnd
  | breaks hgoes =>
    rw [hgoes] at hbrings
    have hend : isExhausted limit .broken (arrived acts) = true := by simp [isExhausted]
    refine ⟨by simpa [Act.piece] using hreader, ?_,
      by simpa [Act.event?, Act.frame?, Act.envelopes] using hhears⟩
    simpa [Act.piece, Act.event?, hend, framesOf_broken] using
      hbrings.append Connection.brings_end fun _ => rfl
  | hear event rest hnext =>
    refine ⟨by simpa [Act.piece] using hreader, by simpa [Act.piece, Act.event?, hnext] using hbrings, ?_⟩
    simpa [Act.event?, Act.frame?, Act.envelopes] using h.hear hnext
  | aside asked event hown hquiet =>
    refine ⟨by simpa [Act.piece] using hreader, by simpa [Act.piece, Act.event?] using hbrings, ?_⟩
    simpa [Act.event?, Act.frame?, Act.envelopes] using hhears.aside hown hquiet

theorem steady_of_trace (h : Trace (Step limit names) (start role) acts s) :
    Steady limit names role acts s := by
  induction h with
  | nil => exact steady_start limit names role
  | snoc _ hstep ih => exact ih.step hstep

theorem heard_extends (role : LinkRole) (names : String → Bool) {frames all : List Frame}
    (h : frames <+: all) : Connection.heard role names frames <+: Connection.heard role names all := by
  obtain ⟨more, rfl⟩ := h
  cases frames with
  | nil => exact List.nil_prefix
  | cons first rest =>
    simp only [Connection.heard, List.cons_append]
    split
    · rw [← List.cons_append]
      exact List.prefix_append _ _
    · exact List.prefix_rfl

theorem dispatched_prefix (role : LinkRole) (names : String → Bool) {frames all : List Frame}
    (h : frames <+: all) :
    Connection.dispatched role names frames <+: Connection.dispatched role names all := by
  have htail := (heard_extends role names h).drop 1
  rw [List.drop_one, List.drop_one] at htail
  exact htail.filterMap _

theorem Steady.framesIn_prefix (h : Steady limit names role acts s) :
    Connection.framesIn (taken acts) <+: framesOf limit s.ending (arrived acts) := by
  rw [← h.brings.frames_eq, Connection.framesIn_append]
  exact List.prefix_append _ _

/-- However a stream is cut into pieces, and whatever the connection does meanwhile, as long as nothing
closes it from this side: the frames that it handles, the status of its handshake and the envelopes that
it dispatches are those of the frames in the lines of the stream. A line may have `limit` bytes; one that
has more ends the connection, and so does the end of the stream. A line that is passed over, as the
beginning, within or at the end of the stream, makes no difference. A reader that resumes its search where
it stopped cuts every stream into the same lines, too. -/
theorem stream_decides (limit : Nat) :
    (∀ role names acts s, Trace (Step limit names) (start role) acts s →
      let frames := framesOf limit s.ending (arrived acts)
      let exhausted := isExhausted limit s.ending (arrived acts)
      handled acts <+: Connection.heard role names frames ∧
      delivered acts <+: Connection.dispatched role names frames ∧
      (s.waiting = [] →
        handled acts = Connection.heard role names frames ∧
        s.connection.status = Connection.standing role names frames exhausted ∧
        delivered acts = Connection.dispatched role names frames ∧
        (s.connection.closed = true ↔
          exhausted = true ∨ ∃ error, s.connection.status = .failed error))) ∧
    (∀ ending before line, lastPart before = [] → newLine ∉ line → line.length ≤ limit →
      PassedOver line →
      (∀ after,
        framesOf limit ending (before ++ (line ++ newLine :: after)) =
          framesOf limit ending (before ++ after) ∧
        isExhausted limit ending (before ++ (line ++ newLine :: after)) =
          isExhausted limit ending (before ++ after)) ∧
      framesOf limit ending (before ++ line) = framesOf limit ending before ∧
      isExhausted limit ending (before ++ line) = isExhausted limit ending before) ∧
    ∀ pieces : List (List UInt8),
      ((Splitter.new.readAll limit pieces).1.forget, (Splitter.new.readAll limit pieces).2) =
        (if Exceeds limit pieces.flatten then ⟨[], true⟩ else ⟨lastPart pieces.flatten, false⟩,
          (completeLines pieces.flatten).takeWhile (·.length ≤ limit)) := by
  refine ⟨fun role names acts s htrace => ?_,
    fun ending before line hbefore hline hlength hpassed =>
      ⟨fun after => framesOf_insert ending after hbefore hline hlength hpassed,
        framesOf_insert_last ending hbefore hline hlength hpassed⟩, fun pieces => ?_⟩
  · have h := steady_of_trace htrace
    refine ⟨?_, ?_, fun hwaiting => ?_⟩
    · rw [h.hears.handled_eq]
      exact heard_extends role names h.framesIn_prefix
    · rw [h.hears.delivered_eq]
      exact dispatched_prefix role names h.framesIn_prefix
    · have hbrings := h.brings
      rw [hwaiting, List.append_nil] at hbrings
      rw [← hbrings.frames_eq, ← hbrings.ended_eq]
      exact ⟨h.hears.handled_eq, h.hears.status_eq, h.hears.delivered_eq, h.hears.closed_iff⟩
  · rw [(Splitter.sound_new limit).readAll_eq, ← LineReader.cut_eq]
    exact LineReader.readAll_new limit pieces

/-- The echo of a token in two pieces, in a line of just as many bytes as a line may have. A blank line
may come first. -/
theorem stream_decides_of_echo :
    let own : Token := ⟨"a", "n", "s"⟩
    let text := (Frame.handshake own).textBytes
    let free : String → Bool := fun _ => false
    (∃ acts s, Trace (Step text.length free) (start (.initiator own)) acts s ∧
      arrived acts = text ++ [newLine] ∧ handled acts = [.handshake own] ∧
      handled acts = Connection.heard (.initiator own) free
        (framesOf text.length s.ending (arrived acts))) ∧
    framesOf text.length .goesOn ([] ++ ([32] ++ newLine :: (text ++ [newLine]))) =
      framesOf text.length .goesOn (text ++ [newLine]) := by
  intro own text free
  have hportable : (Frame.handshake own).Portable := ⟨trivial, trivial, by decide⟩
  have htext : newLine ∉ text := Frame.newLine_notMem_textBytes hportable.whole
  have hframe : Frame.ofBytes? text = some (.handshake own) :=
    Frame.ofBytes?_textBytes hportable.canonical hportable.whole hportable.depth_le
  -- the first piece completes no line, the second one that of the frame
  have hfirst : LineReader.new.receive text.length (text.take 3) = (⟨text.take 3, false⟩, []) := by
    have hline : firstLine text.length (text.take 3) = .unfinished :=
      firstLine_unfinished (fun h => htext (List.mem_of_mem_take h)) (List.length_take_le' 3 text)
    simp [LineReader.receive, LineReader.read, LineReader.new, LineReader.cut_of_unfinished hline,
      receiptsOf]
  have hsecond : LineReader.receive text.length ⟨text.take 3, false⟩ (text.drop 3 ++ [newLine]) =
      (.new, [.receive (.handshake own)]) := by
    have hline : firstLine text.length (text ++ [newLine]) = .line text [] :=
      firstLine_append htext le_rfl
    have hcut := LineReader.cut_of_firstLine hline
    rw [LineReader.cut_nil] at hcut
    simp [LineReader.receive, LineReader.read, ← List.append_assoc, hcut, receiptsOf, hframe,
      LineReader.new]
  have hnil : Trace (Step text.length free) (start (.initiator own)) [] _ := .nil
  have htrace := ((hnil.snoc (.arrive (text.take 3) rfl)).snoc
    (.arrive (text.drop 3 ++ [newLine]) rfl)).snoc
    (.hear (.receive (.handshake own)) [] (by simp [start, hfirst, hsecond]))
  have hdecides := (stream_decides text.length).1 (.initiator own) free _ _ htrace
  have hblank : PassedOver [32] := by
    rw [passedOver_iff]
    exact Frame.ofBytes?_utf8EncodeChar [' ']
  have hinsert := (stream_decides text.length).2.1 .goesOn [] [32] (by simp [lastPart]) (by decide)
    (by decide) hblank
  refine ⟨⟨_, _, htrace, ?_, ?_, (hdecides.2.2 rfl).1⟩, (hinsert.1 (text ++ [newLine])).1⟩
  · simp [arrived, Act.piece, ← List.append_assoc]
  · rfl

end Inlet

end Barrage
