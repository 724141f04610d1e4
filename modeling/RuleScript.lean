import RuleScript.Text.Span
import RuleScript.Text.Quoted
import RuleScript.Text.Escape
import RuleScript.Decimal.Layout
import RuleScript.Decimal.Reader
import RuleScript.Token.Text
import RuleScript.Table
import RuleScript.Ty.Text
import RuleScript.Token.Lexer
import RuleScript.Syntax.Json
import RuleScript.Syntax.TypeParser
import RuleScript.Syntax.Parser
import RuleScript.Ty.Annotation
import RuleScript.Rule.Json
import RuleScript.Rule.Fold
import RuleScript.Rule.Text
import RuleScript.Registry.Events
import RuleScript.Registry.Constants
import RuleScript.Registry.Functions
import RuleScript.Slots
import RuleScript.Scope
import RuleScript.Log
import RuleScript.Options.Basic
import RuleScript.Lowering.Alias
import RuleScript.Lowering.Typing
import RuleScript.Lowering.Program
import RuleScript.Options.Reader
import RuleScript.Options.Schema
import RuleScript.Compile
import RuleScript.Command.Directory
import RuleScript.Main
import RuleScript.Proofs.Folding
import RuleScript.Proofs.NormalForm
import RuleScript.Proofs.Lowering.Isolation
import RuleScript.Proofs.Lowering.Control
import RuleScript.Proofs.Lowering.Recursion
import RuleScript.Proofs.Lowering.Locality
import RuleScript.Proofs.Lowering.Limits
import RuleScript.Proofs.Lowering.Capture
import RuleScript.Proofs.Lowering.Requests
import RuleScript.Proofs.Lowering.Shadowing
import RuleScript.Proofs.Lowering.Emission
import RuleScript.Proofs.Meaning.Program
import RuleScript.Proofs.Typing.Program
import RuleScript.Proofs.Typing.Inference
import RuleScript.Proofs.Typing.Arguments
import RuleScript.Proofs.Typing.Depth
import RuleScript.Proofs.Script.Pruning
import RuleScript.Proofs.Script.Recovery
import RuleScript.Proofs.Script.Placeholders
import RuleScript.Proofs.Syntax.ProgramReading
import RuleScript.Proofs.Syntax.TypeText
import RuleScript.Proofs.Lexing.Tiling
import RuleScript.Proofs.Syntax.Progress
import RuleScript.Proofs.Places
