import Barrage.CommandLine.Ended
import Barrage.Console.Count
import Barrage.Console.Run

/-!
The command line of the console.

The console runs a profile, aborts a run, counts test processes, or shuts the daemons down. Options for
all commands may stand before the command, behind it, or both; then the later one counts. Settings,
profile and artifact are read before anything is sent, and the first that cannot be read ends it.
-/

namespace Barrage.CommandLine

/-- What the console is to do. -/
inductive ConsoleCommand where
  | run (artifact? : Option String) (limits : RunLimits)
  | abort
  | count (patience : Nat)
  | shutdown
  deriving Repr, DecidableEq, Inhabited

/-- The arguments of the console. -/
structure ConsoleArguments where
  json : Bool
  secret? : Option String
  config? : Option String
  profile : String
  command : ConsoleCommand
  deriving Repr, DecidableEq, Inhabited

namespace ConsoleArguments

/-- The name of the program. -/
def program : String := "fleetload"

/-- The options of all commands. -/
def sharedSwitches : List Switch := [.text "log-level", .flag "json", .text "secret", .path "config"]

/-- An option with a number of milliseconds. -/
def milliseconds (name : String) : Switch := .value name fun text => (longNumber? text).isSome

/-- The names of the commands with their own options. -/
def commands : List (String × List Switch) :=
  [("run",
      [.path "profile", .path "artifact", milliseconds "ready-timeout-ms",
        milliseconds "run-timeout-ms", milliseconds "abort-grace-ms"]),
    ("abort", [.path "profile"]),
    ("count", [.path "profile", milliseconds "timeout-ms"]),
    ("shutdown", [.path "profile"])]

/-- What may stand before the command. -/
def grammar : Grammar := ⟨sharedSwitches, commands.map Prod.fst, true⟩

/-- What may stand behind a command. -/
def commandGrammar (name : String) : Grammar :=
  ⟨(commands.lookup name).getD [] ++ sharedSwitches, [], false⟩

/-- The command of a name with its options. -/
def commandOf (name : String) (given : Given) : ConsoleCommand :=
  match name with
  | "run" =>
    .run (given.text? "artifact")
      { ready := given.getD "ready-timeout-ms" longNumber? RunLimits.default.ready
        run := (given.text? "run-timeout-ms").bind longNumber?
        abortGrace := given.getD "abort-grace-ms" longNumber? RunLimits.default.abortGrace }
  | "abort" => .abort
  | "count" => .count (given.getD "timeout-ms" longNumber? 5000)
  | _ => .shutdown

/-- Reads the arguments of the console. -/
def read (arguments : List String) : Except Halt ConsoleArguments := do
  let front ← grammar.read arguments
  match front.command? with
  | none => throw .misuse
  | some (name, rest) =>
    let back ← (commandGrammar name).read rest
    let profile ← back.given.required "profile" some
    let given := back.given ++ front.given
    return {
      json := (given.text? "json").isSome
      secret? := given.text? "secret"
      config? := given.text? "config"
      profile := profile
      command := commandOf name back.given }

/-- What the console needs for its work. -/
structure Prepared where
  settings : Settings
  secret : String
  profile : LoadProfile
  artifact? : Option (List UInt8)
  deriving DecidableEq, Inhabited

/-- The path of the artifact. -/
def artifactPath? (a : ConsoleArguments) : Option String :=
  match a.command with
  | .run artifact? _ => artifact?
  | _ => none

/-- Reads what the console needs. -/
def prepare {m : Type → Type} [Monad m] (a : ConsoleArguments) (s : Surroundings m) :
    m (Except (List String) Prepared) := do
  match ← s.settings a.config? "load config" with
  | .error complaint => return .error complaint
  | .ok settings =>
    match LoadProfile.load a.profile (← s.text? a.profile) with
    | .error e => return .error e.chain
    | .ok profile =>
      match a.artifactPath? with
      | none => return .ok ⟨settings, s.secret a.secret?, profile, none⟩
      | some path =>
        match ← s.bytes? path with
        | some bytes => return .ok ⟨settings, s.secret a.secret?, profile, some bytes⟩
        | none => return .error ["failed to read artifact " ++ path]

/-- The text that shows a report. -/
def showReport (a : ConsoleArguments) (report : RunReport) : String :=
  if a.json then report.toJson ++ "\n" else String.join (report.lines.map (· ++ "\n"))

/-- The text that shows numbers of test processes. -/
def showCounts (a : ConsoleArguments) (counts : List (UInt32 × UInt64)) : String :=
  if a.json then countJson counts ++ "\n" else String.join ((countLines counts).map (· ++ "\n"))

/-- How the console ends after a run. -/
def exitCode (stopped : Bool) (report : RunReport) : ExitCode :=
  if stopped then .interrupted else if report.isSuccess then .success else .failure

/-! ### The program -/

/-- What is done for the console over the network. -/
structure Service (m : Type → Type) where
  /-- Connects to a daemon. -/
  reach : Endpoint → m SendResult
  /-- Waits for the handshake with a daemon. -/
  shake : Endpoint → m SendResult
  /-- The moment that it is. -/
  clock : m Nat
  /-- Drives a run to its end. -/
  run : ConsoleRun → m ConsoleRun
  /-- Drives a count to its end. -/
  count : ConsoleCount → m ConsoleCount
  /-- Sends an envelope to every daemon. -/
  sendAll : Envelope → m (Except ConsoleError Unit)
  /-- Closes all links. -/
  disconnect : m Unit

variable {m : Type → Type} [Monad m]

/-- Does what the console was told to do, over open links. -/
def perform (a : ConsoleArguments) (prepared : Prepared) (links : List UInt32) (service : Service m) :
    m Ended := do
  match a.command with
  | .run _ limits =>
    let final ← service.run (.new prepared.profile prepared.artifact? limits links (← service.clock))
    service.disconnect
    match final.result? with
    | some (.ok report) => return .of (a.showReport report) (exitCode final.stopped report)
    | some (.error e) => return .failed e.chain
    | none => return .failed []
  | .count patience =>
    let final ← service.count (.new links patience (← service.clock))
    service.disconnect
    match final.result? with
    | some (.ok counts) => return .of (a.showCounts counts) .success
    | some (.error e) => return .failed e.chain
    | none => return .failed []
  | command =>
    let type : MessageType := match command with
      | .shutdown => .shutdown
      | _ => .abort
    match ← service.sendAll (.signal type) with
    | .error e => return .failed e.chain
    | .ok () =>
      service.disconnect
      return .of "" .success

/-- The whole program. -/
def execute (arguments : List String) (around : Surroundings m) (serviceFor : Prepared → m (Service m)) :
    m Ended := do
  match read arguments with
  | .error halt => return .ofHalt program halt
  | .ok a =>
    match ← a.prepare around with
    | .error complaint => return .failed complaint
    | .ok prepared =>
      let service ← serviceFor prepared
      match ← connectDaemons service.reach service.shake prepared.profile.daemons with
      | .error e => return .failed e.chain
      | .ok links => a.perform prepared links service

end ConsoleArguments

end Barrage.CommandLine
