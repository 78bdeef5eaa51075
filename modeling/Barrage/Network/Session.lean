import Barrage.Link.Stream
import Barrage.Settings

/-!
A program under way over its connections.

A program is a state with connections in it; it says what each occurrence does to the state. A session
keeps beside that state what is going on at the socket of each connection, and sees to it: frames that
have to be written, sides to close, times to wait for. It has no sockets. What is to be done with them
it says as errands, and what comes of them it is told as occurrences.
-/

namespace Barrage.Network

/-- What is going on at the socket of a connection. -/
structure Wire where
  reader : LineReader
  /-- Whether a frame is being written. -/
  busy : Bool
  /-- Whether the time for the writer of a closed connection is running. -/
  closing : Bool
  /-- Whether the socket is done with. -/
  ended : Bool

/-- A wire over which nothing has come or gone. -/
def Wire.new : Wire := ⟨.new, false, false, false⟩

/-- What a session is told. -/
inductive Occurrence where
  /-- A socket was accepted. -/
  | accepted
  | arrived (wire : Nat) (piece : List UInt8)
  | ended (wire : Nat)
  /-- Reading failed. -/
  | broken (wire : Nat)
  | written (wire : Nat) (failure? : Option String)
  /-- A time is over that was set for a connection. -/
  | elapsed (wire : Nat) (event : Connection.Event)
  | signalled
  | awoken
  deriving Inhabited

/-- What a session wants to be done. -/
inductive Errand where
  /-- The accepted socket becomes that of the newest wire. -/
  | adopt
  | write (wire : Nat) (frame : Frame)
  /-- Nothing more is written. -/
  | shut (wire : Nat)
  /-- Nothing more is read. -/
  | abandon (wire : Nat)
  /-- The session is told of an occurrence after some milliseconds. -/
  | tell (milliseconds : Nat) (o : Occurrence)

/-- A program over connections, which are known by their numbers. -/
structure Program (σ : Type) where
  connection? : σ → Nat → Option Connection
  onConnection : σ → Nat → Connection.Event → σ
  accept : σ → σ
  next? : σ → Option σ
  tick : Nat → σ → σ
  signal : σ → σ
  deadline? : σ → Option Nat

/-- What is kept beside the state of a program. -/
structure Records where
  wires : Array Wire
  /-- The moment for which an alarm was set last. -/
  alarm : Option Nat

/-- Of a program without connections. -/
def Records.new : Records := ⟨#[], none⟩

/-- One more connection; its handshake has some time. -/
def Records.addWire (limits : Settings.Transport) (r : Records) : Records × Errand :=
  ({ r with wires := r.wires.push .new },
    .tell limits.handshakeTimeout (.elapsed r.wires.size .timeout))

/-- A program under way. -/
structure Session (σ : Type) extends Records where
  state : σ

namespace Session

variable {σ : Type} (p : Program σ) (limits : Settings.Transport) (s : Session σ)

/-- Changes what is kept of a connection. -/
def setWire (wire : Nat) (change : Wire → Wire) : Session σ :=
  { s with wires := s.wires.modify wire change }

/-- Some events of a connection, in order. -/
def happen (wire : Nat) (events : List Connection.Event) : Session σ :=
  { s with state := events.foldl (fun state event => p.onConnection state wire event) s.state }

/-- Sees to the socket of a connection: what is to be done there next, if anything is. -/
def tend? (wire : Nat) : Option (Session σ × Errand) := do
  let w ← s.wires[wire]?
  let c ← p.connection? s.state wire
  if c.draining && !w.closing then
    return (s.setWire wire fun w => { w with closing := true },
      .tell limits.disconnectTimeout (.elapsed wire .endGrace))
  if c.writing && !w.busy then
    if let some frame := c.nextFrame? then
      return (s.setWire wire fun w => { w with busy := true }, .write wire frame)
    if c.writerIsDone then
      return (s.happen p wire [.write], .shut wire)
  if c.isOver && !w.ended then
    return (s.setWire wire fun w => { w with ended := true }, .abandon wire)
  none

/-- Lets the program take a step, or else sees to the first connection that needs it. -/
def next? : Option (Session σ × List Errand) :=
  match p.next? s.state with
  | some state => some ({ s with state := state }, [])
  | none =>
    (List.range s.wires.size).findSome? fun wire =>
      (s.tend? p limits wire).map fun (s, errand) => (s, [errand])

/-- One occurrence. -/
def handle : Occurrence → Session σ × List Errand
  | .accepted =>
    let state := p.accept s.state
    if (p.connection? state s.wires.size).isSome then
      let (records, errand) := s.toRecords.addWire limits
      (⟨records, state⟩, [.adopt, errand])
    else ({ s with state := state }, [])
  | .arrived wire piece =>
    match s.wires[wire]? with
    | some w =>
      let (reader, events) := w.reader.receive limits.maxFrameLength piece
      ((s.setWire wire fun w => { w with reader := reader }).happen p wire events, [])
    | none => (s, [])
  | .ended wire =>
    match s.wires[wire]? with
    | some w => (s.happen p wire w.reader.receiveEnd, [])
    | none => (s, [])
  | .broken wire => (s.happen p wire [.endReading], [])
  | .written wire failure? =>
    let event : Connection.Event :=
      match failure? with
      | none => .write
      | some detail => .failWriting detail
    ((s.setWire wire fun w => { w with busy := false }).happen p wire [event], [])
  | .elapsed wire event => (s.happen p wire [event], [])
  | .signalled => ({ s with state := p.signal s.state }, [])
  | .awoken => ({ s with alarm := none }, [])

/-- Asks for an alarm at the next moment at which the program goes on by itself. -/
def setAlarm (now : Nat) : Session σ × List Errand :=
  match p.deadline? s.state with
  | none => (s, [])
  | some moment =>
    if s.alarm = some moment then (s, [])
    else ({ s with alarm := some moment }, [.tell (moment - now) .awoken])

end Session

end Barrage.Network
