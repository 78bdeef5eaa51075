import Barrage.CommandLine.Arguments
import Barrage.CommandLine.Number
import Barrage.Settings

/-!
What the programs of the fleet have in common on the command line.

A program ends with an exit code: 0 when it did its work, 1 when it failed, 2 when its arguments are
wrong, 130 when it was interrupted. Its settings come from a file and the environment, its secret from
an argument or the environment.
-/

namespace Barrage.CommandLine

/-- How a program ends. -/
inductive ExitCode where
  | success
  | failure
  | misuse
  | interrupted
  deriving Repr, DecidableEq, Inhabited

/-- The number of an exit code. -/
def ExitCode.number : ExitCode → UInt8
  | .success => 0
  | .failure => 1
  | .misuse => 2
  | .interrupted => 130

/-- The version of all programs. -/
def programVersion : String := "0.1.0"

/-- What a program writes that does not do its work, and how it ends. -/
def Halt.answer (program : String) : Halt → String × ExitCode
  | .misuse => ("", .misuse)
  | .version => (program ++ " " ++ programVersion ++ "\n", .success)
  | .help => ("", .success)

/-- What a program finds around it. -/
structure Surroundings (m : Type → Type) where
  /-- The variables of the environment. -/
  lookup : String → Option String
  directory : String
  /-- The bytes of a file, if it is one and can be read. -/
  bytes? : String → m (Option (List UInt8))

namespace Surroundings

variable {m : Type → Type} [Monad m]

/-- The text of a file, if it is one. -/
def text? (s : Surroundings m) (path : String) : m (Option String) := do
  return (← s.bytes? path).bind fun bytes => String.fromUTF8? ⟨bytes.toArray⟩

/-- The settings by the argument given for their file, or what went wrong and when. -/
def settings (s : Surroundings m) (config? : Option String) (context : String) :
    m (Except (List String) Settings) := do
  let isThere := (← s.bytes? Settings.fileName).isSome
  let path? := Settings.path? config? s.lookup s.directory isThere
  let text? ←
    match path? with
    | some path => s.text? path
    | none => pure none
  match Settings.load path? (fun _ => text?) s.lookup with
  | .ok settings => return .ok settings
  | .error e => return .error [context, e.message]

/-- The secret by the argument given for it. -/
def secret (s : Surroundings m) (given? : Option String) : String :=
  resolveSecret given? s.lookup

end Surroundings

/-- The port of a daemon when none is given. -/
def defaultPort : UInt16 := 7400

/-! ### Values of options -/

/-- The text of an option that was given. -/
def Given.text? (g : Given) (name : String) : Option String := g.lookup name

/-- The value of an option, or another one when it was not given. -/
def Given.getD {α : Type} (g : Given) (name : String) (read? : String → Option α) (default : α) : α :=
  ((g.lookup name).bind read?).getD default

/-- The value of an option that has to be given. -/
def Given.required {α : Type} (g : Given) (name : String) (read? : String → Option α) :
    Except Halt α :=
  match (g.lookup name).bind read? with
  | some a => .ok a
  | none => .error .misuse

end Barrage.CommandLine
