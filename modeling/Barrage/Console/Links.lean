import Barrage.Console.Failure
import Barrage.Profile.LoadProfile

/-!
The links of the console to the daemons of a profile.

The links are opened one after the other in the order of the profile, and the first that cannot be
opened ends it (`openLinks`). An envelope that goes to several daemons is posted on every link at
once; once all links have answered, the first refusal in their order counts (`outcome?`).
-/

namespace Barrage

/-- Opens links in order: `reach` connects to a daemon, and `shake` waits for its handshake. -/
def openLinks {m : Type → Type} [Monad m] (reach shake : Endpoint → m SendResult) :
    List Endpoint → m (Except ConsoleError (List UInt32))
  | [] => pure (.ok [])
  | daemon :: rest => do
    match ← reach daemon with
    | .error cause => pure (.error (.unreachable daemon.id daemon.address cause))
    | .ok () =>
      match ← shake daemon with
      | .error cause => pure (.error (.handshake daemon.id cause))
      | .ok () =>
        match ← openLinks reach shake rest with
        | .error e => pure (.error e)
        | .ok opened => pure (.ok (daemon.id :: opened))

/-- Opens the links to the daemons of a profile, which has to name one. -/
def connectDaemons {m : Type → Type} [Monad m] (reach shake : Endpoint → m SendResult)
    (daemons : List Endpoint) : m (Except ConsoleError (List UInt32)) :=
  if daemons.isEmpty then pure (.error .noDaemons) else openLinks reach shake daemons

/-- What a link brings to the console. -/
inductive Inbound where
  | message (daemon : UInt32) (e : Envelope)
  | lost (daemon : UInt32)
  deriving Inhabited

/-! ### Envelopes under way -/

/-- An envelope handed to a link, and what the link answered. -/
structure Posting where
  daemon : UInt32
  envelope : Envelope
  answer? : Option SendResult

/-- Envelopes under way, in the order of their links. -/
abbrev Mail := List Posting

namespace Mail

/-- The same envelope for every daemon. -/
def toAll (daemons : List UInt32) (e : Envelope) : Mail := daemons.map fun d => ⟨d, e, none⟩

/-- One envelope for one daemon. -/
def toOne (daemon : UInt32) (e : Envelope) : Mail := [⟨daemon, e, none⟩]

/-- A link answers to the envelope of a number. -/
def answer (n : Nat) (result : SendResult) (mail : Mail) : Mail :=
  mail.modify n fun p => { p with answer? := some result }

/-- How it ended, once every link has answered. -/
def outcome? : Mail → Option (Except ConsoleError Unit)
  | [] => some (.ok ())
  | p :: rest =>
    match p.answer?, outcome? rest with
    | some (.ok ()), some later => some later
    | some (.error cause), some _ => some (.error (.unsent p.envelope.type p.daemon cause))
    | _, _ => none

end Mail

end Barrage
