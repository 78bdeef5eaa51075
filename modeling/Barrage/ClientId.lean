import Barrage.Text.Decimal

/-!
Client ids.

Every connection carries the name of its client: `testproc` and a process number for a test process,
`console` and a daemon number for the link of the console to that daemon, `daemon` and a daemon
number for a daemon itself. An id is read by its prefix and a number of 32 bits, which may carry a
plus sign and leading zeros.
-/

namespace Barrage.ClientId

/-- What precedes the number of a test process. -/
def testProcessMark : String := "testproc"

/-- What precedes the daemon number of a console link. -/
def consoleMark : String := "console"

/-- What precedes the number of a daemon. -/
def daemonMark : String := "daemon"

/-- A mark followed by a number. -/
def numbered (mark : String) (n : UInt32) : String :=
  String.ofList (mark.toList ++ Text.ofNat n.toNat)

/-- The client id of a test process. -/
def ofTestProcess (process : UInt32) : String := numbered testProcessMark process

/-- The client id of the console's link to a daemon. -/
def ofConsole (daemon : UInt32) : String := numbered consoleMark daemon

/-- The client id of a daemon. -/
def ofDaemon (daemon : UInt32) : String := numbered daemonMark daemon

/-- What follows a mark in a text. -/
def afterMark? : (mark text : List Char) → Option (List Char)
  | [], rest => some rest
  | m :: mark, c :: text => if m = c then afterMark? mark text else none
  | _ :: _, [] => none

/-- The number after a mark. -/
def number? (mark id : String) : Option UInt32 := do
  let rest ← afterMark? mark.toList id.toList
  let n ← Text.parseBelow? UInt32.size rest
  return UInt32.ofNat n

/-- The process number in a client id. -/
def testProcess? (id : String) : Option UInt32 := number? testProcessMark id

/-- Whether a client id is that of a test process. -/
def isTestProcess (id : String) : Bool := (testProcess? id).isSome

/-- Whether a client id is that of a console link. -/
def isConsole (id : String) : Bool := (number? consoleMark id).isSome

end Barrage.ClientId
