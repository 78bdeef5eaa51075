import Barrage.CommandLine.Console
import Barrage.CommandLine.Daemon
import Barrage.CommandLine.TestProcess
import Barrage.Console.Desk
import Barrage.Handshake.Nonce
import Barrage.Network.Engine
import Barrage.Process.Station
import Barrage.Time.Calendar
import Std.Time

/-!
The programs of the fleet on the network.
-/

namespace Barrage.Network

open CommandLine

/-- A fresh nonce. -/
def freshNonce : IO String := do
  return Nonce.ofBytes (← IO.getRandomBytes 16).toList

/-- The calendar by the moments of an engine. -/
def calendar (e : Engine) : IO (Nat → Time.Timestamp) := do
  let nanoseconds := (← Std.Time.Timestamp.now).toNanosecondsSinceUnixEpoch.val.toNat
  let moment ← e.now
  return fun n => .ofNanoseconds (nanoseconds + 1000000 * n - 1000000 * moment)

/-! ### The daemon -/

/-- A relay as a program; a signal asks it to shut down. -/
def relayProgram : Program Relay where
  connection? r n := r.server.connections[n]?
  onConnection r n event := r.step (.connection n event)
  accept r := r.step .accept
  next? _ := none
  tick _ r := r
  signal r := r.requestShutdown
  deadline? _ := none

/-- Whether all connections of a stopped relay have come to their end. -/
def isDrained (r : Relay) : Bool := r.server.connections.all fun c => c.closed && !c.draining

/-- What is done for the daemon. -/
def daemonService (settings : Settings) : IO (DaemonArguments.Service IO) := do
  let e ← Engine.new settings.transport
  return {
    listen := e.listen
    serve := fun relay => do
      e.listenTo [.sigint, .sigterm]
      let asked ← e.drive relayProgram Relay.shutdownRequested relay
      let _ ← e.drive relayProgram isDrained asked.stop }

/-! ### The test process -/

/-- A test process as a program, with the number of signals that it got. -/
def stationProgram : Program (Station × Nat) where
  connection? s _ := s.1.client.connection?
  onConnection s _ event := (s.1.onConnection event, s.2)
  accept s := s
  next? s := s.1.next?.map fun station => (station, s.2)
  tick clock s := ({ s.1 with host := s.1.host.tick clock }, s.2)
  signal s :=
    ({ s.1 with host := (s.1.host.signal (ProcessArguments.meaning s.2)).1 }, s.2 + 1)
  deadline? s := s.1.host.deadline?

/-- What is done for a test process. -/
def processService (settings : Settings) (secret : String) : IO (ProcessArguments.Service IO) := do
  let e ← Engine.new settings.transport
  return {
    clock := e.now
    calendar := ← calendar e
    run := fun host => do
      e.listenTo [.sigint, .sigterm]
      let reached ← e.dial host.address
      let station := (Station.new host secret).connect (← freshNonce) reached
      let (final, _) ←
        e.drive stationProgram (fun s => s.1.host.result?.isSome) (station, 0)
      return final.host }

/-! ### The console -/

/-- The console as a program; a signal stops its run. -/
def deskProgram : Program Desk where
  connection? d n := (d.client? n).bind Client.connection?
  onConnection d n event := d.onConnection n event
  accept d := d
  next? := Desk.next?
  tick := Desk.tick
  signal := Desk.stop
  deadline? := Desk.deadline?

/-- What is done for the console. -/
def consoleService (prepared : ConsoleArguments.Prepared) : IO (ConsoleArguments.Service IO) := do
  let e ← Engine.new prepared.settings.transport
  let desk ← IO.mkRef (Desk.new 0)
  let drive (done : Desk → Bool) (begin : Desk → Desk) : IO Desk := do
    let final ← e.drive deskProgram done (begin (← desk.get))
    desk.set final
    return final
  return {
    reach := fun daemon => do
      let reached ← e.dial daemon.address
      let nonce ← freshNonce
      desk.modify fun d => d.openLink daemon prepared.secret nonce reached
      return reached
    shake := fun _ => do
      let link := (← desk.get).links.length - 1
      let handshake? (d : Desk) : Option SendResult := (d.client? link).bind Client.handshake?
      let final ← drive (fun d => (handshake? d).isSome) id
      return (handshake? final).getD (.error .notConnected)
    clock := e.now
    run := fun r => do
      e.listenTo [.sigint]
      let final ← drive (fun d => (d.run?.bind ConsoleRun.result?).isSome) fun d => d.beginRun r
      return final.run?.getD r
    count := fun c => do
      let final ← drive (fun d => (d.count?.bind ConsoleCount.result?).isSome) fun d =>
        d.beginCount c
      return final.count?.getD c
    sendAll := fun envelope => do
      let final ← drive (fun d => d.sendingResult?.isSome) fun d => d.beginSending envelope
      return final.sendingResult?.getD (.ok ())
    disconnect := do
      let _ ← drive Desk.isDisconnected Desk.disconnect }

end Barrage.Network
