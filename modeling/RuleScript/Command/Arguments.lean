/-!
# Command lines

A command line names a command, the file it works on, and options. The options `--config` and
`--json` may stand before the command or after it, and where they are given in both places the
latter counts. No option may be given twice in one place, and no path may be empty.

## Main definitions

* `Command`: what to do
* `Invocation`: a command with the options that all commands have
* `Invocation.ofArguments`: what a command line asks for
-/

namespace RuleScript

/-- What to do. -/
inductive Command
  /-- Print the syntax tree. -/
  | parse (file : String)
  /-- Print the rules as data. -/
  | analyze (file : String) (noOptimize : Bool)
  /-- Print the rule text or write it to a file. -/
  | compile (file : String) (output : Option String) (noOptimize : Bool)
  /-- Print the schema of options files. -/
  | configSchema
deriving DecidableEq, Repr

/-- A command with the options that all commands have. -/
structure Invocation where
  command : Command
  /-- The options file. -/
  config : Option String
  /-- Whether errors are printed as JSON. -/
  json : Bool
deriving DecidableEq, Repr

/-- What a command line asks for when it asks for no command. -/
inductive Refusal
  /-- The command line makes no sense. -/
  | usage
  /-- It asks for help. -/
  | help
  /-- It asks for the version. -/
  | version
deriving DecidableEq, Repr

namespace Arguments

/-- The names of the commands. -/
inductive Verb
  | parse
  | analyze
  | compile
  | configSchema
deriving DecidableEq, Repr

/-- The command of a name. -/
def Verb.ofName? : String → Option Verb
  | "parse" => some parse
  | "analyze" => some analyze
  | "compile" => some compile
  | "config-schema" => some configSchema
  | _ => none

/-- The options by name. -/
inductive Flag
  | config
  | json
  | output
  | noOptimize
deriving DecidableEq, Repr

/-- The option of a long name. -/
def Flag.ofLong? : String → Option Flag
  | "config" => some config
  | "json" => some json
  | "output" => some output
  | "no-optimize" => some noOptimize
  | _ => none

/-- Whether the option has a value. -/
def Flag.hasValue : Flag → Bool
  | config | output => true
  | json | noOptimize => false

/-- Whether the option may stand at a place: before the command, or after it. -/
def Flag.allowed (flag : Flag) : Option Verb → Bool
  | none => flag = config || flag = json
  | some .analyze => flag ≠ output
  | some .compile => true
  | some .parse | some .configSchema => flag = config || flag = json

/-- An argument by its form. -/
inductive Argument
  /-- Two hyphens: only plain arguments follow. -/
  | escape
  /-- A long name, with the value after an equals sign if there is one. -/
  | long (name : String) (value : Option String)
  /-- What follows one hyphen. -/
  | short (letters : List Char)
  | plain (text : String)
deriving DecidableEq, Repr

/-- The form of an argument. One hyphen alone is a plain argument. -/
def Argument.ofText (text : String) : Argument :=
  match text.toList with
  | ['-', '-'] => escape
  | '-' :: '-' :: cs =>
    let name := String.ofList (cs.takeWhile (· != '='))
    match cs.dropWhile (· != '=') with
    | '=' :: value => long name (some (String.ofList value))
    | _ => long name none
  | '-' :: c :: cs => short (c :: cs)
  | _ => plain text

/-- What was given at one place, before the command or after it. -/
structure Given where
  config : Option String := none
  json : Bool := false
  output : Option String := none
  noOptimize : Bool := false
  file : Option String := none

/-- Whether an option was given already. -/
def Given.has (g : Given) : Flag → Bool
  | .config => g.config.isSome
  | .json => g.json
  | .output => g.output.isSome
  | .noOptimize => g.noOptimize

/-- Adds an option without a value. -/
def Given.set (g : Given) (flag : Flag) : Except Refusal Given :=
  if g.has flag then .error .usage
  else
    match flag with
    | .json => .ok { g with json := true }
    | .noOptimize => .ok { g with noOptimize := true }
    | .config | .output => .error .usage

/-- Adds an option with a value. -/
def Given.setValue (g : Given) (flag : Flag) (value : String) : Except Refusal Given :=
  if g.has flag ∨ value.isEmpty then .error .usage
  else
    match flag with
    | .config => .ok { g with config := some value }
    | .output => .ok { g with output := some value }
    | .json | .noOptimize => .error .usage

/-- Adds a plain argument; every command but the last takes one. -/
def Given.setFile (g : Given) (verb : Verb) (text : String) : Except Refusal Given :=
  if verb = .configSchema ∨ g.file.isSome ∨ text.isEmpty then .error .usage
  else .ok { g with file := some text }

/-- An option, and its value if it stands in the same argument. -/
def flagOf (verb : Option Verb) : Argument → Except Refusal (Flag × Option String)
  | .long "help" none => .error .help
  | .long "version" none => .error (if verb.isNone then .version else .usage)
  | .long name value =>
    match Flag.ofLong? name with
    | some flag => if flag.allowed verb then .ok (flag, value) else .error .usage
    | none => .error .usage
  | .short ('h' :: _) => .error .help
  | .short ('V' :: _) => .error (if verb.isNone then .version else .usage)
  | .short ('o' :: cs) =>
    if !Flag.output.allowed verb then .error .usage
    else
      match cs with
      | [] => .ok (.output, none)
      | '=' :: value => .ok (.output, some (String.ofList value))
      | value => .ok (.output, some (String.ofList value))
  | _ => .error .usage

/-- Adds an option to what was given. An option whose value is the next argument comes back. -/
def Given.add (g : Given) (flag : Flag) (value : Option String) :
    Except Refusal (Given × Option Flag) := do
  match flag.hasValue, value with
  | false, none => return (← g.set flag, none)
  | false, some _ => throw .usage
  | true, some v => return (← g.setValue flag v, none)
  | true, none => return (g, some flag)

/-- Adds the value of an option, which has to be a plain argument. -/
def Given.addValue (g : Given) (flag : Flag) : Argument → Except Refusal Given
  | .plain value => g.setValue flag value
  | _ => .error .usage

/-- Reads the plain arguments after two hyphens. -/
def readPlain (verb : Verb) (g : Given) : List String → Except Refusal Given
  | [] => .ok g
  | text :: rest => do readPlain verb (← g.setFile verb text) rest

/-- Reads the arguments after a command, the first of which may be the value of an option. -/
def readAfter (verb : Verb) (g : Given) : Option Flag → List String → Except Refusal Given
  | none, [] => .ok g
  | some _, [] => .error .usage
  | some flag, text :: rest => do
    readAfter verb (← g.addValue flag (.ofText text)) none rest
  | none, text :: rest =>
    match Argument.ofText text with
    | .escape => readPlain verb g rest
    | .plain text => do readAfter verb (← g.setFile verb text) none rest
    | argument => do
      let (flag, value) ← flagOf (some verb) argument
      let (g, pending) ← g.add flag value
      readAfter verb g pending rest

/-- Reads the arguments before a command, up to and including its name, the first of which may be
the value of an option. -/
def readBefore (g : Given) :
    Option Flag → List String → Except Refusal (Given × Verb × List String)
  | _, [] => .error .usage
  | some flag, text :: rest => do
    readBefore (← g.addValue flag (.ofText text)) none rest
  | none, text :: rest =>
    match Argument.ofText text with
    | .escape => .error .usage
    | .plain "help" => .error .help
    | .plain name =>
      match Verb.ofName? name with
      | some verb => .ok (g, verb, rest)
      | none => .error .usage
    | argument => do
      let (flag, value) ← flagOf none argument
      let (g, pending) ← g.add flag value
      readBefore g pending rest

/-- The command that was given. -/
def command (verb : Verb) (g : Given) : Except Refusal Command :=
  match verb, g.file with
  | .configSchema, _ => .ok .configSchema
  | _, none => .error .usage
  | .parse, some file => .ok (.parse file)
  | .analyze, some file => .ok (.analyze file g.noOptimize)
  | .compile, some file => .ok (.compile file g.output g.noOptimize)

end Arguments

/-- What a command line asks for. -/
def Invocation.ofArguments (args : List String) : Except Refusal Invocation := do
  let (before, verb, rest) ← Arguments.readBefore {} none args
  let after ← Arguments.readAfter verb {} none rest
  return {
    command := ← Arguments.command verb after
    config := after.config <|> before.config
    json := before.json || after.json }

end RuleScript
