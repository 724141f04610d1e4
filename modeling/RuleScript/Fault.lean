import RuleScript.Token.Text
import RuleScript.Ty.Solver
import RuleScript.Ty.Text

/-!
# What can be wrong with a program

Every way in which a program can be refused is a fault. A fault has a kind and a wording, and an
error is a fault at a place in the source.

## Main definitions

* `Fault`: the causes
* `Fault.kind`, `Fault.message`: their kinds and their wording
* `Error`: a fault with its place
* `Diagnostic.format`: the line that a reader of messages gets to see
-/

namespace RuleScript

/-- The kinds of faults. -/
inductive FaultKind
  /-- The text is malformed. -/
  | parse
  /-- A name is undeclared, redeclared or out of context. -/
  | scope
  /-- An operator, argument, assignment or declaration does not fit. -/
  | type
  /-- The storage slots ran out. -/
  | capacity
deriving DecidableEq, Repr

namespace FaultKind

/-- The name of the kind in messages. -/
def label : FaultKind → String
  | parse => "parse"
  | scope => "scope"
  | type => "type"
  | capacity => "capacity"

/-- The kind of a name. -/
def ofLabel? (text : String) : Option FaultKind :=
  [parse, scope, type, capacity].find? (·.label = text)

end FaultKind

/-- The statements that have a condition. -/
inductive Conditional
  | if_
  | while_
deriving DecidableEq, Repr

/-- The word that opens the statement. -/
def Conditional.word : Conditional → String
  | if_ => "if"
  | while_ => "while"

/-- The causes for which a program is refused. -/
inductive Fault
  -- The text does not split into tokens.
  | loneAmpersand
  | unexpectedChar (c : Char)
  | unterminatedComment
  | unterminatedString
  | invalidNumber (text : String)
  | numberTooLarge
  -- The tokens do not follow the grammar.
  | expectedToken (wanted given : Token)
  | expectedIdent (given : Token)
  | expectedDeclaration (given : Token)
  | expectedType (given : Token)
  | expectedMember (given : Token)
  | tokenAfterType (given : Token)
  | unexpectedToken (given : Token)
  | fieldRead (field : String)
  | bareExpression
  | invalidTarget
  -- Names.
  | functionRedeclared (name : String)
  | typeRedeclared (name : String)
  | variableRedeclared (name : String)
  | unknownEvent (name : String)
  | unknownVariable (name : String)
  | unknownIdent (name : String)
  | unknownFunction (name : String) (args : List Ty)
  | returnOutsideFunction
  | breakOutsideLoop
  | continueOutsideLoop
  -- Types.
  | eventArity (name : String) (wanted : Nat)
  | cyclicAlias (name : String)
  | constantAssigned (name : String)
  | assignMismatch (name : String) (wanted given : Ty)
  | fieldOfNonPlayer (field : String) (given : Ty)
  | noReturnType (function : String)
  | returnMismatch (function : String) (wanted given : Ty)
  | constantWithoutValue (name : String)
  | declarationWithoutType
  | declarationMismatch (wanted given : Ty)
  | nonNumberBound (given : Ty)
  | nonBooleanCondition (statement : Conditional) (given : Ty)
  | bracesInString (text : String)
  | emptyArray
  | elementMismatch (item given : Ty)
  | nonBooleanOperand (given : Ty)
  | indexedNonArray (given : Ty)
  | nonNumberIndex
  | noReturnValue (function : String)
  | differingOperands (op : BinOp) (left right : Ty)
  | unsuitedOperand (op : BinOp) (given : Ty)
  | unsuitedOperands (op : BinOp) (left right : Ty)
  | incomparable (op : BinOp) (left right : Ty)
  | arity (function : String) (wanted given : Nat)
  | argumentMismatch (function : String) (index : Nat) (wanted given : Ty)
  | templateWanted (function : String) (index : Nat)
  | recursiveCall (function : String)
  | inlinedTooDeep (function : String) (limit : Nat)
  | returnNotInferred (function : String) (ty : Ty)
  | unsolved (cause : SolveError)
  -- Storage.
  | outOfSlots (limit : Nat)

namespace Fault

/-- The kind of a fault. -/
def kind : Fault → FaultKind
  | loneAmpersand | unexpectedChar _ | unterminatedComment | unterminatedString | invalidNumber _
  | numberTooLarge | expectedToken _ _ | expectedIdent _ | expectedDeclaration _ | expectedType _
  | expectedMember _ | tokenAfterType _ | unexpectedToken _ | fieldRead _ | bareExpression
  | invalidTarget => .parse
  | functionRedeclared _ | typeRedeclared _ | variableRedeclared _ | unknownEvent _
  | unknownVariable _ | unknownIdent _ | unknownFunction _ _ | returnOutsideFunction
  | breakOutsideLoop | continueOutsideLoop => .scope
  | outOfSlots _ => .capacity
  | _ => .type

/-- The wording of a fault. -/
def message : Fault → String
  | loneAmpersand => "Expected '&&' for logical AND"
  | unexpectedChar c => "Unexpected character: '" ++ String.singleton c ++ "'"
  | unterminatedComment => "Unterminated block comment"
  | unterminatedString => "Unterminated string literal"
  | invalidNumber text => "Invalid number: " ++ text
  | numberTooLarge => "Number literal is too large"
  | expectedToken wanted given => "Expected " ++ wanted.shown ++ ", got " ++ given.shown
  | expectedIdent given => "Expected identifier, got " ++ given.shown
  | expectedDeclaration given =>
    "Expected function, event or type declaration, got " ++ given.shown
  | expectedType given => "Expected type, got " ++ given.shown
  | expectedMember given => "Expected identifier after '.', got " ++ given.shown
  | tokenAfterType given => "Unexpected " ++ given.shown ++ " after type"
  | unexpectedToken given => "Unexpected token: " ++ given.shown
  | fieldRead field =>
    "Reading field ." ++ field ++ " is not supported; fields can only be assigned"
  | bareExpression => "Only function calls can be used as statements"
  | invalidTarget => "Invalid assignment target"
  | functionRedeclared name => "Function " ++ name ++ " is already declared"
  | typeRedeclared name => "Type " ++ name ++ " is already declared"
  | variableRedeclared name => "Cannot redeclare existing variable " ++ name
  | unknownEvent name => "Event " ++ name ++ " does not exist."
  | unknownVariable name =>
    "Variable " ++ name ++ " has not been declared. Maybe you meant let " ++ name ++ "?"
  | unknownIdent name => "Undefined identifier " ++ name
  | unknownFunction name args => "No such function " ++ name ++ "(" ++ Ty.textList ", " args ++ ")"
  | returnOutsideFunction => "Cannot return outside of a function"
  | breakOutsideLoop => "Cannot break outside of a loop"
  | continueOutsideLoop => "Cannot continue outside of a loop"
  | eventArity name wanted => "Event " ++ name ++ " has " ++ wanted.repr ++ " arguments."
  | cyclicAlias name => "Type " ++ name ++ " refers to itself"
  | constantAssigned name => "Cannot assign to constant " ++ name
  | assignMismatch name wanted given =>
    "Cannot assign expression of type " ++ given.text ++ " to variable " ++ name ++ " of type "
      ++ wanted.text
  | fieldOfNonPlayer field given =>
    "Cannot assign field ." ++ field ++ " on non-player type " ++ given.text
  | noReturnType function => "Function " ++ function ++ " has no return type"
  | returnMismatch function wanted given =>
    "Function " ++ function ++ " returns " ++ wanted.text ++ " but was given " ++ given.text
  | constantWithoutValue name => "Constant " ++ name ++ " must be initialized"
  | declarationWithoutType => "Cannot declare variable without type annotation or expression"
  | declarationMismatch wanted given =>
    "Declaration annotated as type " ++ wanted.text ++ " given expression of type " ++ given.text
  | nonNumberBound given => "For loop bounds must be numbers, got " ++ given.text
  | nonBooleanCondition statement given =>
    "Condition of " ++ statement.word ++ " must be boolean, got " ++ given.text
  | bracesInString text =>
    "String literal \"" ++ text ++ "\" cannot contain braces; use format to insert values"
  | emptyArray => "Cannot infer type of empty array"
  | elementMismatch item given =>
    "Array element of type " ++ given.text ++ " does not match item type " ++ item.text
  | nonBooleanOperand given => "Operator ! requires a boolean, got " ++ given.text
  | indexedNonArray given => "Cannot index non-array type " ++ given.text
  | nonNumberIndex => "Can only index an array with a number"
  | noReturnValue function => "Function " ++ function ++ " has no return value"
  | differingOperands op left right =>
    "Cannot perform " ++ op.spelling ++ " operation on expressions of differing types ("
      ++ left.text ++ " and " ++ right.text ++ ")"
  | unsuitedOperand op given =>
    "Cannot perform " ++ op.spelling ++ " operation on type " ++ given.text
  | unsuitedOperands op left right =>
    "Cannot perform " ++ op.spelling ++ " operation on types " ++ left.text ++ " and " ++ right.text
  | incomparable op left right =>
    "Cannot compare " ++ left.text ++ " with " ++ right.text ++ " using " ++ op.spelling
  | arity function wanted given =>
    function ++ " expects " ++ wanted.repr ++ " arguments but was given " ++ given.repr
  | argumentMismatch function index wanted given =>
    "Argument " ++ (index + 1).repr ++ " of " ++ function ++ " expects " ++ wanted.text
      ++ " but was given " ++ given.text
  | templateWanted function index =>
    "Argument " ++ (index + 1).repr ++ " of " ++ function ++ " must be a string literal"
  | recursiveCall function => "Recursive call to " ++ function ++ " is not supported"
  | inlinedTooDeep function limit =>
    "Inlining " ++ function ++ " exceeds the maximum depth of " ++ limit.repr
  | returnNotInferred function ty => "Cannot infer return type " ++ ty.text ++ " of " ++ function
  | unsolved cause => cause.message
  | outOfSlots limit => "Too many variables: limit of " ++ limit.repr ++ " slots"

end Fault

/-- A message of a kind about a place in a source text. -/
structure Diagnostic where
  kind : FaultKind
  message : String
  span : Span
deriving DecidableEq, Repr

namespace Diagnostic

/-- Where the message points to. -/
def position (d : Diagnostic) (source : String) : Position := Position.ofOffset source d.span.start

/-- The message with its kind and its line and column. -/
def format (d : Diagnostic) (source : String) : String :=
  let p := d.position source
  "[" ++ d.kind.label ++ "] line " ++ p.line.repr ++ ":" ++ p.column.repr ++ ": " ++ d.message

end Diagnostic

/-- A fault at a place in the source. -/
structure Error where
  fault : Fault
  span : Span

/-- The message of an error. -/
def Error.diagnostic (e : Error) : Diagnostic := ⟨e.fault.kind, e.fault.message, e.span⟩

end RuleScript
