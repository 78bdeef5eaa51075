/-!
The line that names a program and its build.
-/

namespace Barrage

/-- What is known of the build of a program. -/
structure Build where
  id : String := "unknown build"
  time : String := "unknown time"
  revision : String := "unknown git"
  deriving Repr, DecidableEq, Inhabited

/-- Name, version and build of a program. -/
def Build.banner (b : Build) (package version : String) : String :=
  package ++ " " ++ version ++ " (" ++ b.id ++ ")"

end Barrage
