/-!
Reading the arguments of a program.

An option is written `--name value`, `--name=value`, or `--name` when it is a flag. It may be given
once. A value that stands by itself may not begin with a dash, unless it is a lone dash. What is no
option is the name of a command, after which the command's own arguments follow, or an error; `--`
allows for nothing behind it. A request for the version or for help ends the reading where it stands.
-/

namespace Barrage.CommandLine

/-- An option that a program knows. -/
structure Switch where
  name : String
  /-- The texts that the option takes as its value; none for a flag. -/
  accepts? : Option (String → Bool)

/-- A flag. -/
def Switch.flag (name : String) : Switch := ⟨name, none⟩

/-- An option with a value of certain texts. -/
def Switch.value (name : String) (accepts : String → Bool) : Switch := ⟨name, some accepts⟩

/-- An option with any text as its value. -/
def Switch.text (name : String) : Switch := .value name fun _ => true

/-- An option with the path of a file as its value. -/
def Switch.path (name : String) : Switch := .value name fun text => !text.isEmpty

/-- What may stand on a command line. -/
structure Grammar where
  switches : List Switch
  /-- The names of the commands, one of which ends the options. -/
  commands : List String
  /-- Whether the version may be asked for. -/
  versioned : Bool

/-- Why a program does not do its work. -/
inductive Halt where
  /-- The arguments are wrong. -/
  | misuse
  | version
  | help
  deriving Repr, DecidableEq, Inhabited

/-- The options given, with their values, the latest first; a flag has an empty one. -/
abbrev Given := List (String × String)

/-- What was read: the options, and the command with the arguments behind it. -/
structure Reading where
  given : Given
  command? : Option (String × List String)
  deriving Repr, DecidableEq, Inhabited

/-- What an argument looks like. -/
inductive Argument where
  | long (name : String) (value? : Option String)
  | short (letter : Char)
  /-- Two dashes. -/
  | terminator
  | plain
  deriving Repr, DecidableEq

/-- Tells arguments apart by their first characters. -/
def Argument.of (text : String) : Argument :=
  match text.toList with
  | ['-', '-'] => .terminator
  | '-' :: '-' :: rest =>
    let name := String.ofList (rest.takeWhile (· ≠ '='))
    match rest.dropWhile (· ≠ '=') with
    | _ :: value => .long name (some (String.ofList value))
    | [] => .long name none
  | '-' :: letter :: _ => .short letter
  | _ => .plain

namespace Grammar

/-- Adds an option with its value, which may be given once. -/
def add (switch : Switch) (value : String) (given : Given) : Except Halt Given :=
  if (given.lookup switch.name).isSome then .error .misuse
  else
    match switch.accepts? with
    | none => .ok ((switch.name, "") :: given)
    | some accepts => if accepts value then .ok ((switch.name, value) :: given) else .error .misuse

/-- The option of a name. -/
def find? (g : Grammar) (name : String) : Option Switch := g.switches.find? fun s => s.name = name

/-- Reads arguments; `pending` is the option whose value comes next. -/
def readFrom (g : Grammar) (given : Given) : (pending : Option Switch) → List String →
    Except Halt Reading
  | none, [] => .ok ⟨given, none⟩
  | some _, [] => .error .misuse
  | some switch, text :: rest =>
    match Argument.of text with
    | .plain =>
      match add switch text given with
      | .ok given => readFrom g given none rest
      | .error halt => .error halt
    | _ => .error .misuse
  | none, text :: rest =>
    if text ∈ g.commands then .ok ⟨given, some (text, rest)⟩
    else
      match Argument.of text with
      | .terminator => if rest.isEmpty then .ok ⟨given, none⟩ else .error .misuse
      | .plain => .error .misuse
      | .short letter =>
        if letter = 'V' && g.versioned then .error .version
        else if letter = 'h' then .error .help
        else .error .misuse
      | .long name value? =>
        if name = "version" && g.versioned then
          .error (if value?.isSome then .misuse else .version)
        else if name = "help" then .error (if value?.isSome then .misuse else .help)
        else
          match g.find? name with
          | none => .error .misuse
          | some switch =>
            match switch.accepts?, value? with
            | none, some _ => .error .misuse
            | some _, none => readFrom g given (some switch) rest
            | _, _ =>
              match add switch (value?.getD "") given with
              | .ok given => readFrom g given none rest
              | .error halt => .error halt

/-- Reads the arguments of a program. -/
def read (g : Grammar) (arguments : List String) : Except Halt Reading :=
  g.readFrom [] none arguments

end Grammar

end Barrage.CommandLine
