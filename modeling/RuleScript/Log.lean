/-!
# The log

What happens on the way from a source text to rules, as far as a log tells of it.

## Main definitions

* `LogEntry`: what can be logged
* `LogLevel`: how detailed an entry is
* `LogEntry.line`: the line of an entry
-/

namespace RuleScript

/-- How detailed an entry is. -/
inductive LogLevel
  | debug
  | trace
deriving DecidableEq, Repr

/-- The name of a level in the log. -/
def LogLevel.label : LogLevel → String
  | debug => "DEBUG"
  | trace => "TRACE"

/-- What can be logged. -/
inductive LogEntry
  | lexed (tokens : Nat)
  | collected (functions aliases : Nat)
  | inlining (function : String) (depth : Nat)
  | allocated (name : String) (depth slot : Nat)
  | analyzedEvent (event : String) (actions : Nat)
  | analyzedProgram (events slots : Nat)
  | optimized (actions : Nat)
  | assembled (rules bytes : Nat)
deriving DecidableEq, Repr

namespace LogEntry

/-- How detailed an entry is. -/
def level : LogEntry → LogLevel
  | inlining _ _ | allocated _ _ _ => .trace
  | _ => .debug

/-- The part of the program that an entry is from. -/
def target : LogEntry → String
  | lexed _ => "ramattra::compiler"
  | collected _ _ | inlining _ _ | analyzedEvent _ _ | analyzedProgram _ _ =>
    "ramattra::compiler::analyzer"
  | allocated _ _ _ => "ramattra::compiler::scope"
  | optimized _ => "ramattra::compiler::optimize"
  | assembled _ _ => "ramattra::compiler::assembler"

/-- What an entry says. -/
def message : LogEntry → String
  | lexed tokens => "lexed source tokens=" ++ tokens.repr
  | collected functions aliases =>
    "collected declarations functions=" ++ functions.repr ++ " aliases=" ++ aliases.repr
  | inlining function depth => "inlining call function=" ++ function ++ " depth=" ++ depth.repr
  | allocated name depth slot =>
    "allocated slot name=" ++ name ++ " depth=" ++ depth.repr ++ " slot=" ++ slot.repr
  | analyzedEvent event actions =>
    "analyzed event event=" ++ event ++ " statements=" ++ actions.repr
  | analyzedProgram events slots =>
    "analyzed program events=" ++ events.repr ++ " slots=" ++ slots.repr
  | optimized actions => "optimized events statements=" ++ actions.repr
  | assembled rules bytes => "assembled rules=" ++ rules.repr ++ " bytes=" ++ bytes.repr

/-- The line of an entry. -/
def line (e : LogEntry) : String :=
  " " ++ e.level.label ++ " " ++ e.target ++ ": " ++ e.message ++ "\n"

/-- Whether a log of this detail has the entry. -/
def shownAt (e : LogEntry) : LogLevel → Bool
  | .trace => true
  | .debug => e.level = .debug

end LogEntry

/-- The detail that a log filter asks for; most filters ask for none of the entries. -/
def LogLevel.ofFilter? (filter : String) : Option LogLevel :=
  if filter = "ramattra=trace" ∨ filter = "trace" then some trace
  else if filter = "ramattra=debug" ∨ filter = "debug" then some debug
  else none

end RuleScript
