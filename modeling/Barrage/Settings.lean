import Barrage.Text.Blank
import Barrage.Text.Decimal
import Barrage.Toml.Reader

/-!
Settings of the fleet.

Eight numbers govern connections, schedulers and processes: seven times in milliseconds and the
longest line that a connection accepts. Each has a default, may be set in a TOML text under its
section and name, and may be overridden by a variable of the environment whose trimmed text is a
number of 64 bits; any other text leaves the setting alone. The file is the one given on the command
line, else the one that a variable names, else the one of the usual name in the working directory.
-/

namespace Barrage

/-- The settings. -/
structure Settings where
  /-- Time for the handshake of a new connection. -/
  handshakeTimeout : UInt64
  /-- Time for queued writes when a connection closes. -/
  disconnectTimeout : UInt64
  /-- The longest line accepted, in bytes. -/
  maxFrameBytes : UInt64
  /-- How long an idle worker waits for work. -/
  workerKeepAlive : UInt64
  /-- Time for work in flight when a scheduler stops. -/
  terminationTimeout : UInt64
  /-- Time to wait for the configuration, and again for the start. -/
  startTimeout : UInt64
  /-- Time to wait for the acknowledgement of a disconnect. -/
  disconnectAckTimeout : UInt64
  /-- Time from the last offset to the collection of results. -/
  pollerDelay : UInt64
  deriving Repr, DecidableEq

/-- The defaults. -/
def Settings.default : Settings :=
  ⟨5000, 2000, 67108864, 60000, 5000, 10000, 5000, 50⟩

instance : Inhabited Settings := ⟨Settings.default⟩

/-- One of the settings. -/
inductive Setting where
  | handshakeTimeout
  | disconnectTimeout
  | maxFrameBytes
  | workerKeepAlive
  | terminationTimeout
  | startTimeout
  | disconnectAckTimeout
  | pollerDelay
  deriving Repr, DecidableEq, Inhabited

namespace Setting

/-- All settings. -/
def all : List Setting :=
  [handshakeTimeout, disconnectTimeout, maxFrameBytes, workerKeepAlive, terminationTimeout,
    startTimeout, disconnectAckTimeout, pollerDelay]

/-- The variable that overrides a setting. -/
def variableName : Setting → String
  | handshakeTimeout => "FLEETLOAD_HANDSHAKE_TIMEOUT_MS"
  | disconnectTimeout => "FLEETLOAD_DISCONNECT_TIMEOUT_MS"
  | maxFrameBytes => "FLEETLOAD_MAX_FRAME_BYTES"
  | workerKeepAlive => "FLEETLOAD_WORKER_KEEP_ALIVE_MS"
  | terminationTimeout => "FLEETLOAD_TERMINATION_TIMEOUT_MS"
  | startTimeout => "FLEETLOAD_START_TIMEOUT_MS"
  | disconnectAckTimeout => "FLEETLOAD_DISCONNECT_ACK_TIMEOUT_MS"
  | pollerDelay => "FLEETLOAD_POLLER_DELAY_MS"

/-- The section of a text that holds a setting. -/
def sectionName : Setting → String
  | handshakeTimeout => "transport"
  | disconnectTimeout => "transport"
  | maxFrameBytes => "transport"
  | workerKeepAlive => "scheduler"
  | terminationTimeout => "scheduler"
  | startTimeout => "process"
  | disconnectAckTimeout => "process"
  | pollerDelay => "process"

/-- The name of a setting in its section. -/
def key : Setting → String
  | handshakeTimeout => "handshake_timeout_ms"
  | disconnectTimeout => "disconnect_timeout_ms"
  | maxFrameBytes => "max_frame_bytes"
  | workerKeepAlive => "worker_keep_alive_ms"
  | terminationTimeout => "termination_timeout_ms"
  | startTimeout => "start_timeout_ms"
  | disconnectAckTimeout => "disconnect_ack_timeout_ms"
  | pollerDelay => "poller_delay_ms"

end Setting

namespace Settings

/-- The value of a setting. -/
def get (s : Settings) : Setting → UInt64
  | .handshakeTimeout => s.handshakeTimeout
  | .disconnectTimeout => s.disconnectTimeout
  | .maxFrameBytes => s.maxFrameBytes
  | .workerKeepAlive => s.workerKeepAlive
  | .terminationTimeout => s.terminationTimeout
  | .startTimeout => s.startTimeout
  | .disconnectAckTimeout => s.disconnectAckTimeout
  | .pollerDelay => s.pollerDelay

/-- Gives a setting a value. -/
def set (s : Settings) (x : Setting) (v : UInt64) : Settings :=
  match x with
  | .handshakeTimeout => { s with handshakeTimeout := v }
  | .disconnectTimeout => { s with disconnectTimeout := v }
  | .maxFrameBytes => { s with maxFrameBytes := v }
  | .workerKeepAlive => { s with workerKeepAlive := v }
  | .terminationTimeout => { s with terminationTimeout := v }
  | .startTimeout => { s with startTimeout := v }
  | .disconnectAckTimeout => { s with disconnectAckTimeout := v }
  | .pollerDelay => { s with pollerDelay := v }

/-! ### The environment -/

/-- The number that the text of a variable stands for. -/
def override? (text : String) : Option UInt64 :=
  (Text.parseBelow? UInt64.size (Text.trimChars text.toList)).map UInt64.ofNat

/-- Overrides one setting by its variable. -/
def overrideOne (lookup : String → Option String) (s : Settings) (x : Setting) : Settings :=
  match (lookup x.variableName).bind override? with
  | some v => s.set x v
  | none => s

/-- Overrides the settings by their variables. -/
def applyEnvironment (lookup : String → Option String) (s : Settings) : Settings :=
  Setting.all.foldl (overrideOne lookup) s

/-! ### Texts -/

/-- Reads the settings of a section, given in order, from the section's value. -/
def readSection? {V : Type} [Form V] (settings : List Setting) (v : V) (s : Settings) :
    Option Settings := do
  let fields ← Form.fields? (settings.map Setting.key) v
  (settings.zip fields).foldlM (fun s field =>
    match field.2 with
    | none => some s
    | some v => (Form.longWord? v).map fun n => s.set field.1 n) s

/-- Reads settings. -/
def read? {V : Type} [Form V] (v : V) : Option Settings := do
  let names := ["transport", "scheduler", "process"]
  let fields ← Form.fields? names v
  (names.zip fields).foldlM (fun s field =>
    match field.2 with
    | none => some s
    | some v => readSection? (Setting.all.filter fun x => x.sectionName = field.1) v s) default

/-- The JSON form of settings. -/
def toValue (s : Settings) : Json.Value :=
  .object (["process", "scheduler", "transport"].map fun name =>
    (name, .object ((Setting.all.filter fun x => x.sectionName = name).map fun x =>
      (x.key, .nat (s.get x).toNat))))

/-- Reads settings from a text. -/
def parse? (text : String) : Option Settings := (Toml.parse? text).bind read?

/-- Why a file did not give settings. -/
inductive LoadError where
  | unreadable (path : String)
  | malformed (path : String)
  deriving Repr, DecidableEq, Inhabited

/-- The text of an error, up to the detail that it ends with. -/
def LoadError.message : LoadError → String
  | .unreadable path => "failed to read config " ++ path ++ ": "
  | .malformed path => "failed to parse config " ++ path ++ ": "

/-- The usual name of the file. -/
def fileName : String := "fleetload.toml"

/-- The path of the file: the one given, else the one that the environment names, else the usual one
in the working directory when it is there. -/
def path? (given : Option String) (lookup : String → Option String) (directory : String)
    (isThere : Bool) : Option String :=
  match given with
  | some path => some path
  | none =>
    match lookup "FLEETLOAD_CONFIG" with
    | some path => some path
    | none => if isThere then some (directory ++ "/" ++ fileName) else none

/-- Settings from the file of a path, if there is one, and the environment. -/
def load (path : Option String) (read? : String → Option String)
    (lookup : String → Option String) : Except LoadError Settings :=
  match path with
  | none => .ok (default.applyEnvironment lookup)
  | some path =>
    match read? path with
    | none => .error (.unreadable path)
    | some text =>
      match parse? text with
      | none => .error (.malformed path)
      | some s => .ok (s.applyEnvironment lookup)

/-! ### What the parts of the program take from the settings -/

/-- The limits of a connection. -/
structure Transport where
  handshakeTimeout : Nat
  disconnectTimeout : Nat
  maxFrameLength : Nat
  deriving Repr, DecidableEq, Inhabited

/-- The limits of the run of a process. -/
structure Run where
  startTimeout : Nat
  disconnectAckTimeout : Nat
  pollerDelay : Nat
  terminationTimeout : Nat
  workerKeepAlive : Nat
  deriving Repr, DecidableEq, Inhabited

/-- The limits of connections. -/
def transport (s : Settings) : Transport :=
  ⟨s.handshakeTimeout.toNat, s.disconnectTimeout.toNat, s.maxFrameBytes.toNat⟩

/-- The limits of runs. -/
def run (s : Settings) : Run :=
  ⟨s.startTimeout.toNat, s.disconnectAckTimeout.toNat, s.pollerDelay.toNat,
    s.terminationTimeout.toNat, s.workerKeepAlive.toNat⟩

end Settings

/-! ### The shared secret -/

/-- The secret when none is given. -/
def defaultSecret : String := "change-me-in-production"

/-- The secret given, else that of the environment, else the default. -/
def resolveSecret (given : Option String) (lookup : String → Option String) : String :=
  (given <|> lookup "FLEETLOAD_SECRET").getD defaultSecret

end Barrage
