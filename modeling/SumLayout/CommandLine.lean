import SumLayout.Input.Format
import SumLayout.Listing

/-!
# The command line

Arguments are turned into a command before any file is opened, so a wrong option is reported whether
or not the file exists. `plan` lists the plans on the standard output and reports on the standard
error; `check` only reports. **Both report the same of the same unions**, and end with an exit code
that tells whether every union was planned.
-/

namespace SumLayout.CommandLine

/-- What a run of the program leaves behind. -/
structure Report where
  exitCode : UInt32 := 0
  output : String := ""
  errors : String := ""
  deriving DecidableEq, Repr

/-- The options of `plan`. -/
structure PlanOptions where
  /-- Never overlap. -/
  noOverlap : Bool := false
  /-- List the trees of values. -/
  verbose : Bool := false
  deriving DecidableEq, Repr

/-- Why a command fails as a whole. -/
inductive Failure where
  /-- The file cannot be opened or read. -/
  | unreadable (path reason : String)
  /-- The file can be read, but its text cannot. -/
  | badText (path : Option String) (error : Json.Error)
  | unknownShape (shape context : String)
  | unknownOption (option : String)

/-- The version of the program. -/
def version : String := "0.1.0-alpha.1"

namespace Failure

/-- The failure for what is wrong with a file, whose path may be known. -/
def ofInput (path : Option String) : Input.Error → Failure
  | .json e => .badText path e
  | .unknownShape shape context => .unknownShape shape context

def message : Failure → String
  | unreadable path reason => "cannot read `" ++ path ++ "`: " ++ reason
  | badText path e =>
    (match path with
      | some p => p ++ ": "
      | none => "") ++ "invalid input: " ++ e.message
  | unknownShape shape context => "unknown shape `" ++ shape ++ "` for `" ++ context ++ "`"
  | unknownOption option => "unknown option `" ++ option ++ "`"

end Failure

namespace PlanOptions

/-- Take one more option into account. -/
def add (o : PlanOptions) (argument : String) : Except Failure PlanOptions :=
  if argument = "--no-overlap" then .ok { o with noOverlap := true }
  else if argument = "-v" ∨ argument = "--verbose" then .ok { o with verbose := true }
  else .error (.unknownOption argument)

/-- The options that some arguments give. The first unknown one is reported. -/
def parse (arguments : List String) : Except Failure PlanOptions :=
  arguments.foldlM add {}

/-- The unions as they are planned under the options. -/
def apply (o : PlanOptions) (us : List Union) : List Union :=
  if o.noOverlap then us.map (·.setOption .overlapStructs false) else us

end PlanOptions

/-! ## Reports on outcomes -/

/-- The report on one union. -/
def outcomeText (o : Outcome) : String :=
  String.join (o.diagnostics.map fun d => d.text ++ "\n")

/-- The last line of the report, if planning failed for some union. -/
def summary (os : List Outcome) : String :=
  let failed := os.countP fun o => !o.succeeded
  if failed = 0 then ""
  else "error: " ++ toString failed ++ " of " ++ toString os.length ++ " union(s) failed\n"

/-- The report on some unions. -/
def errorText (os : List Outcome) : String :=
  String.join (os.map outcomeText) ++ summary os

/-- Whether every union was planned. -/
def allPlanned (os : List Outcome) : Bool := os.all (·.succeeded)

/-- The exit code for an answer. -/
def exitCode (ok : Bool) : UInt32 := if ok then 0 else 1

theorem exitCode_eq_zero {ok : Bool} : exitCode ok = 0 ↔ ok = true := by
  cases ok <;> decide

/-- What `plan` leaves behind. -/
def planUnions (o : PlanOptions) (us : List Union) : Report :=
  let os := planAll (o.apply us)
  { exitCode := exitCode (allPlanned os)
    output := Listing.ofPlans o.verbose (os.filterMap (·.plan?))
    errors := errorText os }

/-- What `check` leaves behind. -/
def checkUnions (us : List Union) : Report :=
  let os := planAll us
  { exitCode := exitCode (allPlanned os), errors := errorText os }

/-! ## Commands -/

/-- What the arguments ask for. -/
inductive Command where
  | plan (path : String) (options : PlanOptions)
  | check (path : String)
  /-- Nothing that needs a file. -/
  | done (report : Report)

/-- How to use the program. -/
def usageLines : List String :=
  ["Tagpack - union storage layout planner",
   "",
   "Usage: tagpack <command> [options]",
   "",
   "Commands:",
   "  plan <file.json>   Plan every union and print its layout",
   "  check <file.json>  Report diagnostics only",
   "  help               Show this help message",
   "  version            Show version information",
   "",
   "Plan options:",
   "  --no-overlap       Never overlap storage between cases",
   "  -v, --verbose      Print every case's value tree",
   "",
   "Set RUST_LOG (e.g. RUST_LOG=tagpack_layout=debug) for planner logs."]

/-- How to use the program, as one text. -/
def usage : String := String.join (usageLines.map Listing.line)

/-- The report of a run that fails before any union is planned. -/
def rejected (errors : String) (output : String := "") : Report := { exitCode := 1, output, errors }

/-- The report of a command that fails as a whole. -/
def failed (f : Failure) : Report := rejected ("error: " ++ f.message ++ "\n")

/-- The command that some arguments ask for. -/
def Command.parse : List String → Command
  | [] => .done { output := usage }
  | ["plan"] => .done (rejected "Usage: tagpack plan <file.json> [--no-overlap] [--verbose]\n")
  | "plan" :: path :: rest =>
    match PlanOptions.parse rest with
    | .ok o => .plan path o
    | .error f => .done (failed f)
  | ["check"] => .done (rejected "Usage: tagpack check <file.json>\n")
  | "check" :: path :: _ => .check path
  | command :: _ =>
    if command = "help" ∨ command = "--help" ∨ command = "-h" then .done { output := usage }
    else if command = "version" ∨ command = "--version" ∨ command = "-V" then
      .done { output := "tagpack " ++ version ++ "\n" }
    else .done (rejected ("Unknown command: " ++ command ++ "\n\n") usage)

/-- The file that a command reads. -/
def Command.file? : Command → Option String
  | .plan path _ | .check path => some path
  | .done _ => none

/-- Read the unions of a file, given its text or the reason why there is none. -/
def loadUnions (path : String) (contents : Except String String) : Except Failure (List Union) :=
  match contents with
  | .error reason => .error (.unreadable path reason)
  | .ok text => (Input.parse text).mapError (.ofInput (some path))

/-- Run a command, given the contents of the file that it reads. -/
def Command.run (contents : Except String String) : Command → Report
  | .done report => report
  | .plan path o =>
    match loadUnions path contents with
    | .ok us => planUnions o us
    | .error f => failed f
  | .check path =>
    match loadUnions path contents with
    | .ok us => checkUnions us
    | .error f => failed f

end SumLayout.CommandLine
