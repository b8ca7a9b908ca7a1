import Orphans.CommandLine.Configuration
import Orphans.Report

/-!
# The program

From a list of arguments to what is printed and the exit status. The status is 0 for a finished run,
1 for a run that finds unused files where that counts as a failure and for a directory that cannot
be reached, and 2 for faulty arguments.
-/

namespace Orphans

/-- What a call of the program leaves behind. -/
structure Outcome where
  /-- The exit status. -/
  status : Nat
  /-- What is printed. -/
  output : Text
  /-- What is complained about. -/
  complaint : Text
deriving Repr, DecidableEq

namespace Program

/-- The report of a configuration on a file system. -/
def report (fs : FileSystem) (config : Config) : Report :=
  .ofAnalysis config (.run fs config)

/-- A report as the arguments ask for it. -/
def render (args : Arguments) (report : Report) : Text :=
  if args.json then report.json ++ ['\n'] else report.plain

/-- The outcome of a run with arguments that have been read. -/
def outcomeOf (fs : FileSystem) (args : Arguments) : Outcome :=
  match Config.ofArguments fs args with
  | .error error => ⟨1, [], error.message.toList⟩
  | .ok config =>
    let report := report fs config
    ⟨if args.failOnUnused && !report.unusedFiles.isEmpty then 1 else 0, render args report, []⟩

/-- The outcome of a call of the program. -/
def call (fs : FileSystem) (rootVariable : Option Text) (args : List Text) : Outcome :=
  match Arguments.read rootVariable args with
  | .error (.fault error) => ⟨2, [], error.message.toList⟩
  | .error (.help style) => ⟨0, style.text rootVariable, []⟩
  | .error .version => ⟨0, versionLine.toList ++ ['\n'], []⟩
  | .ok args => outcomeOf fs args

end Program

end Orphans
