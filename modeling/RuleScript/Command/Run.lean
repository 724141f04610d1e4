import RuleScript.Command.Arguments
import RuleScript.Compile
import RuleScript.Options.Reader
import RuleScript.Options.Schema
import RuleScript.Rule.Json
import RuleScript.Syntax.Json

/-!
# Running commands

What a command prints and writes, given the contents of the files it reads. Everything that is
printed is worked out here; reading and writing the files is left to the caller.

## Main definitions

* `CommandError`: why a command fails
* `Report`: what a command prints and writes
* `Invocation.run`: the report of a command
-/

namespace RuleScript

/-- Why a command fails. -/
inductive CommandError
  /-- A file cannot be read or written. -/
  | file (path cause : String)
  /-- The options file cannot be read. -/
  | optionsFile (cause : String)
  /-- The options file does not describe options. -/
  | optionsText (error : OptionsError) (text : String)
  /-- The program is refused. -/
  | source (error : Error) (text : String)

namespace CommandError

/-- The wording of an error. -/
def message : CommandError → String
  | file path cause => "I/O error on " ++ path ++ ": " ++ cause
  | optionsFile cause => "Options error: I/O error: " ++ cause
  | optionsText error text => "Options error: JSON error: " ++ error.message text
  | source error text => error.diagnostic.format text

/-- The JSON form of an error. -/
def toJson : CommandError → Json
  | source error text =>
    let d := error.diagnostic
    let p := d.position text
    .obj [("kind", .str d.kind.label), ("message", .str d.message), ("line", .nat p.line),
      ("column", .nat p.column)]
  | e =>
    .obj [("kind", .str "cli"), ("message", .str e.message), ("line", .null), ("column", .null)]

/-- The line that tells of an error. -/
def line (e : CommandError) (json : Bool) : String :=
  (if json then e.toJson.compact else e.message) ++ "\n"

end CommandError

/-- What a command prints and writes. -/
structure Report where
  /-- Zero for success. -/
  code : Nat
  stdout : String := ""
  stderr : String := ""
  /-- A file to write, and its contents. -/
  write : Option (String × String) := none

/-- What a command yields: an output or an error, and the log up to it. -/
structure Performed where
  result : Except CommandError String
  log : List LogEntry := []

namespace Command

/-- Whether a path stands for the standard input: it is a hyphen, with nothing behind it that leads
anywhere. -/
def isStandardInput (path : String) : Bool :=
  match path.splitOn "/" with
  | "-" :: rest => rest.all fun step => step.isEmpty || step == "."
  | _ => false

/-- The file that a command reads. -/
def source? : Command → Option String
  | parse file | analyze file _ | compile file _ _ => some file
  | configSchema => none

/-- The file that a command writes. -/
def output? : Command → Option String
  | compile _ output _ => output
  | _ => none

/-- The outcome for a source text, with its errors told in terms of that text. -/
def performOn {α : Type} (text : String) (x : Logged α) (show_ : α → String) : Performed :=
  match x.result with
  | .ok a => ⟨.ok (show_ a), x.log⟩
  | .error e => ⟨.error (.source e text), x.log⟩

/-- A document as it is printed. -/
def printed (j : Json) : String := j.pretty ++ "\n"

/-- Performs a command on the contents of its source file, if it has one. -/
def perform (options : Options) (source : String) : Command → Performed
  | parse _ => performOn source (parseSource source) fun p => printed p.toJson
  | analyze _ noOptimize =>
    performOn source
      ((analyzeSource options source).andThen (optimizeIf (options.optimize && !noOptimize)))
      fun rules => printed (Rule.toJsonList rules)
  | compile _ _ noOptimize =>
    performOn source
      (compileSource { options with optimize := options.optimize && !noOptimize } source) id
  | configSchema => ⟨.ok (printed Options.schema), []⟩

end Command

namespace Invocation

/-- The options of an invocation, given the contents of the options file if there is one. -/
def options (config : Option (Except String String)) : Except CommandError Options :=
  match config with
  | none => .ok {}
  | some (.error cause) => .error (.optionsFile cause)
  | some (.ok text) =>
    match Options.ofText text with
    | .ok options => .ok options
    | .error e => .error (.optionsText e text)

/-- Performs the command of an invocation. The options come first, then the source. -/
def perform (inv : Invocation) (config : Option (Except String String))
    (source : Except String String) : Performed :=
  match options config, source, inv.command.source? with
  | .error e, _, _ => ⟨.error e, []⟩
  | .ok _, .error cause, some path => ⟨.error (.file path cause), []⟩
  | .ok options, .ok text, some _ => inv.command.perform options text
  | .ok options, _, none => inv.command.perform options ""

/-- The lines of a log, as far as it is asked for. -/
def logText (level : Option LogLevel) (log : List LogEntry) : String :=
  match level with
  | none => ""
  | some level => String.join ((log.filter (·.shownAt level)).map (·.line))

/-- The report of an error. -/
def failed (inv : Invocation) (logged : String) (e : CommandError) : Report :=
  { code := 1, stderr := logged ++ e.line inv.json }

/-- The report of an invocation, given the contents of the files it reads or why they cannot be
read. -/
def run (inv : Invocation) (level : Option LogLevel) (config : Option (Except String String))
    (source : Except String String) : Report :=
  let performed := inv.perform config source
  let logged := logText level performed.log
  match performed.result, inv.command.output? with
  | .error e, _ => inv.failed logged e
  | .ok text, none => { code := 0, stdout := text, stderr := logged }
  | .ok text, some path => { code := 0, stderr := logged, write := some (path, text) }

/-- The report when the file of a report cannot be written. -/
def notWritten (inv : Invocation) (report : Report) (path cause : String) : Report :=
  inv.failed report.stderr (.file path cause)

end Invocation

/-- The report of a command line that asks for no command. -/
def Refusal.report : Refusal → Report
  | usage => { code := 2 }
  | help =>
    { code := 0
      stdout := "Usage: ramattra [--config PATH] [--json] <parse|analyze|compile|config-schema>\n" }
  | version => { code := 0, stdout := "ramattra 0.1.0\n" }

end RuleScript
