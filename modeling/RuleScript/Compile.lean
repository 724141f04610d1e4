import RuleScript.Lowering.Program
import RuleScript.Rule.Fold
import RuleScript.Rule.Text
import RuleScript.Syntax.Parser

/-!
# From source text to rule text

The whole way: the text is split into tokens, the tokens are read as a program, the program is
lowered to rules, the rules are folded unless the options say otherwise, and are written as text.

## Main definitions

* `Logged`: a result and the log of how it came about
* `parseSource`, `analyzeSource`, `compileSource`: the way to the syntax tree, to the rules, and to
  the text
-/

namespace RuleScript

/-- A result or the first error, and the log up to it. -/
structure Logged (α : Type) where
  result : Except Error α
  log : List LogEntry

namespace Logged

variable {α β : Type}

/-- Goes on with a result. -/
def andThen (x : Logged α) (f : α → Logged β) : Logged β :=
  match x.result with
  | .error e => ⟨.error e, x.log⟩
  | .ok a => ⟨(f a).result, x.log ++ (f a).log⟩

end Logged

/-- The syntax tree of a source text. -/
def parseSource (source : String) : Logged Program :=
  match Lexeme.ofSource source with
  | .error e => ⟨.error e, []⟩
  | .ok tokens => ⟨Program.ofLexemes tokens, [.lexed tokens.length]⟩

/-- The rules of a program. -/
def analyzeProgram (options : Options) (program : Program) : Logged (List Rule) :=
  match program.lower options with
  | .ok rules state => ⟨.ok rules, state.log.reverse⟩
  | .error e state => ⟨.error e, state.log.reverse⟩

/-- The rules of a source text. -/
def analyzeSource (options : Options) (source : String) : Logged (List Rule) :=
  (parseSource source).andThen (analyzeProgram options)

/-- The folded rules. -/
def optimizeRules (rules : List Rule) : Logged (List Rule) :=
  let folded := Rule.foldAll rules
  ⟨.ok folded, [.optimized (folded.foldr (fun r n => Action.total r.body + n) 0)]⟩

/-- The rules, folded if that is asked for. -/
def optimizeIf (wanted : Bool) (rules : List Rule) : Logged (List Rule) :=
  if wanted then optimizeRules rules else ⟨.ok rules, []⟩

/-- The text of rules. -/
def assembleRules (store : String) (rules : List Rule) : Logged String :=
  let text := Rule.script store rules
  ⟨.ok text, [.assembled rules.length text.utf8ByteSize]⟩

/-- The rule text of a source text. -/
def compileSource (options : Options) (source : String) : Logged String :=
  ((analyzeSource options source).andThen (optimizeIf options.optimize)).andThen
    (assembleRules options.variableArray)

end RuleScript
