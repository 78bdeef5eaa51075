import Barrage.ClientId
import Barrage.Console.Count
import Barrage.Console.Run
import Barrage.Link.Client
import Barrage.Link.Stream

/-!
The console with its clients.

What comes over a link is kept in the order of arrival until the work at hand takes it. Mail of the
work at hand is sent over the links at once, and the answers go back to it.
-/

namespace Barrage

/-- What the console is at. -/
inductive DeskWork where
  | nothing
  | run (r : ConsoleRun)
  | count (c : ConsoleCount)
  | sending (mail : Mail)

/-- A send that is under way: the link, and its number there. -/
structure LinkSend where
  link : Nat
  send : Nat
  deriving Repr, DecidableEq, Inhabited

/-- The console with its clients. -/
structure Desk where
  /-- The daemons with their clients, in order. -/
  links : List (UInt32 × Client)
  /-- What has come in and was not yet given to any work, the oldest first. -/
  inbox : List Inbound
  work : DeskWork
  /-- The sends that the work waits for, in the order of its mail. -/
  underway : List (Except LinkError LinkSend)
  clock : Nat

namespace Desk

/-- A console without links. -/
def new (clock : Nat) : Desk := ⟨[], [], .nothing, [], clock⟩

/-- The client of a link. -/
def client? (d : Desk) (link : Nat) : Option Client := d.links[link]?.map (·.2)

/-! ### Links -/

/-- Opens a link to a daemon, given whether it could be reached. -/
def openLink (d : Desk) (daemon : Endpoint) (secret nonce : String) (reached : SendResult) : Desk :=
  let client := Client.new daemon.address (ClientId.ofConsole daemon.id) secret
  { d with links := d.links ++ [(daemon.id, (client.connect nonce reached).1)] }

/-- What a link brings. -/
def inbound? (daemon : UInt32) : LinkEffect → Option Inbound
  | .deliver e => some (.message daemon e)
  | .lost => some (.lost daemon)
  | .enter _ => none
  | .exit _ => none

/-- Something happens to the connection of a link. -/
def onConnection (d : Desk) (link : Nat) (event : Connection.Event) : Desk :=
  match d.links[link]? with
  | none => d
  | some (daemon, client) =>
    let (client, effects) := client.onConnection event
    { d with
      links := d.links.set link (daemon, client)
      inbox := d.inbox ++ effects.filterMap (inbound? daemon) }

/-- Closes all links. -/
def disconnect (d : Desk) : Desk :=
  (List.range d.links.length).foldl (fun d link => d.onConnection link .close) d

/-- Whether all links have come to their end. -/
def isDisconnected (d : Desk) : Bool := d.links.all fun l => l.2.isDisconnected

/-! ### Mail -/

/-- Sends an envelope to a daemon. -/
def send (d : Desk) (daemon : UInt32) (e : Envelope) : Desk × Except LinkError LinkSend :=
  match d.links.findIdx? fun l => l.1 == daemon with
  | none => (d, .error .notConnected)
  | some link =>
    match d.links[link]? with
    | none => (d, .error .notConnected)
    | some (_, client) =>
      match client.send e with
      | (_, .error error) => (d, .error error)
      | (client, .ok n) =>
        ({ d with links := d.links.set link (daemon, client) }, .ok ⟨link, n⟩)

/-- Sends mail that nobody has answered yet. -/
def hand (d : Desk) (mail : Mail) : Desk :=
  mail.foldl (fun d p =>
    let (d, under) := d.send p.daemon p.envelope
    { d with underway := d.underway ++ [under] }) { d with underway := [] }

/-- How a send was answered, once it was. -/
def answerTo? (d : Desk) : Except LinkError LinkSend → Option SendResult
  | .error error => some (.error error)
  | .ok under =>
    ((d.client? under.link).bind Client.connection?).bind fun c => c.answerTo? under.send

/-- Mail with the answers that have come. -/
def collectAnswers (d : Desk) (mail : Mail) : Mail :=
  (mail.zip d.underway).map fun (p, under) => { p with answer? := d.answerTo? under }

/-! ### Work -/

/-- Begins a run. -/
def beginRun (d : Desk) (r : ConsoleRun) : Desk := { d with work := .run r, underway := [] }

/-- Begins a count. -/
def beginCount (d : Desk) (c : ConsoleCount) : Desk := { d with work := .count c }.hand c.mail

/-- Begins to send an envelope to every daemon. -/
def beginSending (d : Desk) (e : Envelope) : Desk :=
  let mail := Mail.toAll (d.links.map (·.1)) e
  { d with work := .sending mail }.hand mail

/-- The next step of the work at hand, if there is one. -/
def next? (d : Desk) : Option Desk :=
  match d.work with
  | .nothing => none
  | .run r =>
    let ready := { r with inbox := r.inbox ++ d.inbox, mail := d.collectAnswers r.mail }
    ready.next?.map fun after =>
      let d := { d with inbox := [], work := .run after }
      if r.sent.length < after.sent.length then d.hand after.mail else d
  | .count c =>
    let ready := { c with inbox := c.inbox ++ d.inbox, mail := d.collectAnswers c.mail }
    ready.next?.map fun after => { d with inbox := [], work := .count after }
  | .sending _ => none

/-- How the sending to every daemon ended, once it has. -/
def sendingResult? (d : Desk) : Option (Except ConsoleError Unit) :=
  match d.work with
  | .sending mail => Mail.outcome? (d.collectAnswers mail)
  | _ => none

/-- The run at hand. -/
def run? (d : Desk) : Option ConsoleRun :=
  match d.work with
  | .run r => some r
  | _ => none

/-- The count at hand. -/
def count? (d : Desk) : Option ConsoleCount :=
  match d.work with
  | .count c => some c
  | _ => none

/-- Stops the run at hand. -/
def stop (d : Desk) : Desk :=
  match d.work with
  | .run r => { d with work := .run (r.step .stop) }
  | _ => d

/-- The clock moves. -/
def tick (clock : Nat) (d : Desk) : Desk :=
  match d.work with
  | .run r => { d with clock := clock, work := .run (r.step (.tick clock)) }
  | .count c => { d with clock := clock, work := .count { c with clock := clock } }
  | _ => { d with clock := clock }

/-- The moment at which the work at hand goes on by itself. -/
def deadline? (d : Desk) : Option Nat :=
  match d.work with
  | .run r => r.deadline?
  | .count c => c.deadline?
  | _ => none

end Desk

end Barrage
