import RuleScript.Command.Run

/-!
# The command line

Reads the files that a command names, prints its report, and writes its output.
-/

namespace RuleScript

/-- Why a file cannot be used. -/
def fileCause : IO.Error → String
  | .noFileOrDirectory _ code _ => "No such file or directory (os error " ++ code.toNat.repr ++ ")"
  | .permissionDenied _ code _ => "Permission denied (os error " ++ code.toNat.repr ++ ")"
  | e => e.toString

/-- The contents of a file, or why they cannot be read. -/
def readText (path : String) : IO (Except String String) := do
  try return .ok (← IO.FS.readFile path)
  catch e => return .error (fileCause e)

/-- The contents of the source file of a command. -/
def readSource : Option String → IO (Except String String)
  | none => return .ok ""
  | some path =>
    if Command.isStandardInput path then do return .ok (← (← IO.getStdin).readToEnd)
    else readText path

/-- Prints a report and gives its exit code. -/
def Report.print (report : Report) : IO UInt32 := do
  IO.eprint report.stderr
  IO.print report.stdout
  return UInt32.ofNat report.code

/-- Writes the output of a report, prints it, and gives its exit code. -/
def Report.carryOut (report : Report) (inv : Invocation) : IO UInt32 := do
  match report.write with
  | none => report.print
  | some (path, text) =>
    try
      IO.FS.writeFile path text
      report.print
    catch e => (inv.notWritten report path (fileCause e)).print

end RuleScript

open RuleScript in
/-- The command line. -/
def main (args : List String) : IO UInt32 := do
  match Invocation.ofArguments args with
  | .error refusal => refusal.report.print
  | .ok inv =>
    let level := (← IO.getEnv "RAMATTRA_LOG").bind LogLevel.ofFilter?
    let config ← inv.config.mapM readText
    let source ← readSource inv.command.source?
    (inv.run level config source).carryOut inv
