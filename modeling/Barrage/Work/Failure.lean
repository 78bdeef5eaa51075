import Barrage.Process.Outcome

/-!
How an operation fails.

A failure has a cause and the contexts that were wrapped around it, the innermost first. The cause
may be a request to abort the whole process; it is found under any number of contexts. Only a request
of severity error ends the process.
-/

namespace Barrage

/-- How grave a request to abort is. -/
inductive Severity where
  | warning
  | error
  deriving Repr, DecidableEq, Inhabited

/-- The name of a severity. -/
def Severity.name : Severity → String
  | .warning => "warning"
  | .error => "error"

/-- The request of an operation to abort its process. -/
structure AbortSignal where
  severity : Severity
  reason : String
  deriving Repr, DecidableEq, Inhabited

namespace AbortSignal

/-- The text of a request. -/
def message (s : AbortSignal) : String := s!"{s.severity.name} abort: {s.reason}"

/-- Whether the request ends the process. -/
def isFatal (s : AbortSignal) : Bool := s.severity == .error

/-- The outcome of a process that the request ends. -/
def outcome (s : AbortSignal) : Outcome :=
  match s.severity with
  | .error => .error
  | .warning => .successful

end AbortSignal

/-- Why an operation failed. -/
inductive Cause where
  | plain (message : String)
  | abort (signal : AbortSignal)
  /-- The operation broke off; the text may be missing. -/
  | panicked (message : Option String)
  deriving Repr, DecidableEq, Inhabited

/-- The text of a cause. -/
def Cause.message : Cause → String
  | .plain message => message
  | .abort signal => signal.message
  | .panicked message => "scheduled work panicked: " ++ message.getD "unknown panic"

/-- A cause under its contexts, the innermost first. -/
structure Failure where
  cause : Cause
  contexts : List String
  deriving Repr, DecidableEq, Inhabited

namespace Failure

/-- A failure without contexts. -/
def ofCause (cause : Cause) : Failure := ⟨cause, []⟩

/-- The messages of a failure, the outermost first. -/
def messages (f : Failure) : List String := f.contexts.reverse ++ [f.cause.message]

/-- The outermost message. -/
def message (f : Failure) : String := f.messages.headD ""

/-- All messages in one line. -/
def full (f : Failure) : String := ": ".intercalate f.messages

/-- The request to abort that a failure carries. -/
def signal? (f : Failure) : Option AbortSignal :=
  match f.cause with
  | .abort signal => some signal
  | _ => none

end Failure

end Barrage
