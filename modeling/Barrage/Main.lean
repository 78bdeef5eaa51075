import Barrage.Network.Programs

/-!
The programs of the fleet in one: the first argument names the program, and the others are its own.
-/

namespace Barrage

open CommandLine

/-- The bytes of a file, if it is one and can be read. -/
def fileBytes? (path : String) : IO (Option (List UInt8)) := do
  try
    return some (← IO.FS.readBinFile path).toList
  catch _ =>
    return none

/-- The variables that the programs look at. -/
def variableNames : List String :=
  ["FLEETLOAD_CONFIG", "FLEETLOAD_SECRET"] ++ Setting.all.map Setting.variableName

/-- What a program finds around it. -/
def findSurroundings : IO (Surroundings IO) := do
  let found ← variableNames.filterMapM fun name => do
    return (← IO.getEnv name).map fun text => (name, text)
  return ⟨fun name => found.lookup name, ".", fileBytes?⟩

/-- Runs the program of a name. -/
def runProgram (name : String) (arguments : List String) : IO Ended := do
  let around ← findSurroundings
  if name = ConsoleArguments.program then
    ConsoleArguments.execute arguments around Network.consoleService
  else if name = DaemonArguments.program then
    DaemonArguments.execute arguments around Network.daemonService
  else if name = ProcessArguments.program then
    ProcessArguments.execute arguments around Network.processService
  else
    return ⟨"", .misuse, ["unknown program " ++ name]⟩

/-- What is written about a failure: the outermost text, and those below it. -/
def complaintText : List String → String
  | [] => ""
  | [message] => "Error: " ++ message ++ "\n"
  | message :: causes =>
    "Error: " ++ message ++ "\n\nCaused by:\n" ++
      String.join (causes.map fun cause => "    " ++ cause ++ "\n")

end Barrage

/-- Runs a program of the fleet. -/
def main (arguments : List String) : IO UInt32 := do
  let ended ←
    match arguments with
    | [] => pure ⟨"", .misuse, ["no program named"]⟩
    | name :: rest => Barrage.runProgram name rest
  IO.print ended.output
  (← IO.getStdout).flush
  IO.eprint (Barrage.complaintText ended.complaint)
  return ended.code.number.toUInt32
