import Barrage.CommandLine.Surroundings

/-!
How a program of the fleet has ended.
-/

namespace Barrage.CommandLine

/-- What a program wrote, how it ended, and why when it failed. -/
structure Ended where
  output : String
  code : ExitCode
  /-- The texts of the error, the outermost first. -/
  complaint : List String
  deriving Repr, DecidableEq, Inhabited

namespace Ended

/-- The end of a program that does not do its work. -/
def ofHalt (program : String) (halt : Halt) : Ended :=
  ⟨(halt.answer program).1, (halt.answer program).2, []⟩

/-- The end of a program that failed. -/
def failed (complaint : List String) : Ended := ⟨"", .failure, complaint⟩

/-- The end of a program that wrote something. -/
def of (output : String) (code : ExitCode) : Ended := ⟨output, code, []⟩

end Ended

end Barrage.CommandLine
