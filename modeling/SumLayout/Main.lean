import SumLayout.CommandLine

/-!
# The program

The only module with effects: it reads the file that the command asks for and prints the report.
-/

namespace SumLayout.Main

/-- Why a file cannot be read, as the system words it. -/
def reason : IO.Error → String
  | .noFileOrDirectory .. => "No such file or directory (os error 2)"
  | .inappropriateType .. => "Is a directory (os error 21)"
  | .permissionDenied .. => "Permission denied (os error 13)"
  | e => toString e

/-- The text of a file. -/
def contents (path : String) : IO (Except String String) := do
  try return .ok (← IO.FS.readFile path)
  catch e => return .error (reason e)

end SumLayout.Main

def main (arguments : List String) : IO UInt32 := do
  let command := SumLayout.CommandLine.Command.parse arguments
  let contents ← match command.file? with
    | some path => SumLayout.Main.contents path
    | none => pure (.ok "")
  let report := command.run contents
  IO.print report.output
  IO.eprint report.errors
  return report.exitCode
