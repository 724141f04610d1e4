import RuleScript.Command.Run

/-!
# Commands in a directory

A directory of text files in memory, and what a command line does in it. A directory inside it
exists if it holds a file, and a file can only be written into a directory that exists.

## Main definitions

* `Directory`: the files by name
* `Directory.run`: the report of a command line, and the files afterwards
-/

namespace RuleScript

/-- Text files by name. -/
structure Directory where
  files : Table String := .empty

namespace Directory

/-- Why a file that does not exist cannot be used. -/
def missing : String := "No such file or directory (os error 2)"

/-- Why a directory cannot be used as a file. -/
def notFile : String := "Is a directory (os error 21)"

/-- Why a path cannot go through a file. -/
def notDirectory : String := "Not a directory (os error 20)"

/-- The steps of a path, without those that stay in place. -/
def steps (path : String) : List String :=
  (path.splitOn "/").filter fun step => !step.isEmpty && step != "."

/-- Whether a path can only lead to a directory. -/
def namesDirectory (path : String) : Bool :=
  match (path.splitOn "/").getLast? with
  | some step => step.isEmpty || step == "."
  | none => false

/-- The name of the file at the end of some steps. -/
def nameOf (place : List String) : String := "/".intercalate place

/-- Whether some steps lead to the directory itself or to one inside it. -/
def isDirectory (d : Directory) (place : List String) : Bool :=
  place.isEmpty || d.files.entries.any fun e =>
    place.length < (steps e.1).length && place.isPrefixOf (steps e.1)

/-- Where some steps lead from a place, or why they lead nowhere. All but the last have to lead to a
directory, and no step leads out of the outermost one. -/
def follow (d : Directory) (here : List String) : List String → Except String (List String)
  | [] => .ok here
  | step :: rest =>
    if !d.isDirectory here then
      .error (if d.files.contains (nameOf here) then notDirectory else missing)
    else if step ≠ ".." then d.follow (here ++ [step]) rest
    else if here.isEmpty then .error missing
    else d.follow here.dropLast rest

/-- Where a path leads; there is nothing outside the directory. -/
def locate (d : Directory) (path : String) : Except String (List String) :=
  if path.startsWith "/" then .error missing else d.follow [] (steps path)

/-- The contents of a file, or why they cannot be read. -/
def read (d : Directory) (path : String) : Except String String := do
  let place ← d.locate path
  match d.files.get? (nameOf place) with
  | some text => if namesDirectory path then .error notDirectory else .ok text
  | none => .error (if d.isDirectory place then notFile else missing)

/-- Writes a file, unless there is a reason why it cannot be written. -/
def write (d : Directory) (path text : String) : Except String Directory := do
  let place ← d.locate path
  if d.isDirectory place || namesDirectory path then throw notFile
  return ⟨d.files.insert (nameOf place) text⟩

/-- Runs a command in the directory. -/
def runInvocation (d : Directory) (inv : Invocation) (level : Option LogLevel) (stdin : String) :
    Report × Directory :=
  let source : Except String String :=
    match inv.command.source? with
    | none => .ok ""
    | some file => if Command.isStandardInput file then .ok stdin else d.read file
  let report := inv.run level (inv.config.map d.read) source
  match report.write with
  | none => (report, d)
  | some (path, text) =>
    match d.write path text with
    | .ok d => (report, d)
    | .error cause => (inv.notWritten report path cause, d)

/-- Runs a command line in the directory. -/
def run (d : Directory) (args : List String) (level : Option LogLevel) (stdin : String) :
    Report × Directory :=
  match Invocation.ofArguments args with
  | .error refusal => (refusal.report, d)
  | .ok inv => d.runInvocation inv level stdin

end Directory

end RuleScript
