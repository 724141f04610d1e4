import RuleScript.Syntax.Basic
import RuleScript.Token.Basic

/-!
# Programs as tokens

The tokens that write a syntax tree, with parentheses only where the grammar needs them. Each piece
of syntax has a looseness, zero for what nothing can pull apart, and each place in the grammar has a
limit: what is looser than the limit of its place stands in parentheses.

* Annotations: names, arrays and functions without a return type are tight; variadics are looser;
  unions and functions with a return type are loosest.
* Expressions: literals, names, calls, arrays and indices are tight; operators in front of an
  operand are looser; then come the binary operators by their levels. They associate to the left, so
  the right operand has the lower limit.

Every statement is followed by a semicolon. The places of the nodes in a source text are not
written, so `bare` takes them off a tree.

## Main definitions

* `TypeExpr.tokens`, `Expr.tokens`, `Stmt.tokens`, `Program.tokens`: the tokens of a tree
* `TypeExpr.looseness`, `Expr.looseness`: how loosely a piece of syntax is held together
* `TypeExpr.bare`, `Expr.bare`, `Stmt.bare`, `Program.bare`: a tree without its places
* `Program.paired`: every union in a program has two members or more
-/

namespace RuleScript

namespace Token

/-- Tokens in parentheses, where these are needed. -/
def enclosed (needed : Bool) (ts : List Token) : List Token :=
  if needed then .symbol .lparen :: ts ++ [.symbol .rparen] else ts

@[simp] theorem enclosed_true (ts : List Token) :
    enclosed true ts = .symbol .lparen :: (ts ++ [.symbol .rparen]) := rfl

@[simp] theorem enclosed_false (ts : List Token) : enclosed false ts = ts := rfl

/-- Tokens between braces. -/
def braced (ts : List Token) : List Token := .symbol .lbrace :: ts ++ [.symbol .rbrace]

/-- Lists of tokens with a mark between them. -/
def separated (mark : Symbol) : List (List Token) → List Token
  | [] => []
  | ts :: tss => ts ++ tss.flatMap (.symbol mark :: ·)

@[simp] theorem separated_singleton (mark : Symbol) (ts : List Token) :
    separated mark [ts] = ts := by
  simp [separated]

@[simp] theorem separated_cons_cons (mark : Symbol) (ts us : List Token) (tss : List (List Token)) :
    separated mark (ts :: us :: tss) = ts ++ .symbol mark :: separated mark (us :: tss) := by
  simp [separated]

/-- A mark with the tokens behind it, if there are any. -/
def behind (mark : Symbol) : Option (List Token) → List Token
  | none => []
  | some ts => .symbol mark :: ts

end Token

open Token (enclosed braced separated behind)

/-- The symbol of an operator. -/
def BinOp.symbol : BinOp → Symbol
  | add => .plus
  | sub => .minus
  | mul => .star
  | div => .slash
  | eq => .eqEq
  | ne => .ne
  | lt => .lt
  | le => .le
  | gt => .gt
  | ge => .ge
  | and => .and
  | or => .or

@[simp] theorem BinOp.operator?_symbol (op : BinOp) : op.symbol.operator? = some op := by
  cases op <;> rfl

/-! ## Annotations -/

namespace TypeExpr

/-- How loosely an annotation is held together. -/
def looseness : TypeExpr → Nat
  | named _ _ | array _ _ | function _ _ none => 0
  | variadic _ _ => 1
  | function _ _ (some _) | union _ _ => 2

mutual

/-- The tokens of an annotation. -/
def tokens : TypeExpr → List Token
  | named _ name => [.ident name]
  | array _ item =>
    enclosed (0 < item.looseness) item.tokens ++ [.symbol .lbracket, .symbol .rbracket]
  | function _ params ret =>
    .keyword .fn_ :: .symbol .lparen :: separated .comma (tokensWithin 2 params)
      ++ .symbol .rparen :: behind .colon (tokensOption ret)
  | variadic _ inner => .symbol .ellipsis :: enclosed (1 < inner.looseness) inner.tokens
  | union _ members => separated .pipe (tokensWithin 1 members)

/-- The tokens of some annotations, each within a limit. -/
def tokensWithin (limit : Nat) : List TypeExpr → List (List Token)
  | [] => []
  | t :: ts => enclosed (limit < t.looseness) t.tokens :: tokensWithin limit ts

/-- The tokens of an annotation that may be missing. -/
def tokensOption : Option TypeExpr → Option (List Token)
  | none => none
  | some t => some t.tokens

end

/-- The tokens of an annotation within a limit. -/
def within (limit : Nat) (t : TypeExpr) : List Token := enclosed (limit < t.looseness) t.tokens

theorem tokensWithin_eq (limit : Nat) (ts : List TypeExpr) :
    tokensWithin limit ts = ts.map (within limit) := by
  induction ts with
  | nil => rfl
  | cons t ts ih => rw [tokensWithin, ih, List.map_cons, within]

mutual

/-- The annotation without its places. -/
def bare : TypeExpr → TypeExpr
  | named _ name => named .zero name
  | array _ item => array .zero item.bare
  | function _ params ret => function .zero (bareList params) (bareOption ret)
  | variadic _ inner => variadic .zero inner.bare
  | union _ members => union .zero (bareList members)

/-- Some annotations without their places. -/
def bareList : List TypeExpr → List TypeExpr
  | [] => []
  | t :: ts => t.bare :: bareList ts

/-- An annotation that may be missing without its places. -/
def bareOption : Option TypeExpr → Option TypeExpr
  | none => none
  | some t => some t.bare

end

theorem bareList_eq (ts : List TypeExpr) : bareList ts = ts.map bare := by
  induction ts with
  | nil => rfl
  | cons t ts ih => rw [bareList, ih, List.map_cons]

mutual

/-- Every union in the annotation has two members or more. -/
def paired : TypeExpr → Bool
  | named _ _ => true
  | array _ item => item.paired
  | function _ params ret => pairedList params && pairedOption ret
  | variadic _ inner => inner.paired
  | union _ members => 2 ≤ members.length && pairedList members

/-- Every union in some annotations has two members or more. -/
def pairedList : List TypeExpr → Bool
  | [] => true
  | t :: ts => t.paired && pairedList ts

/-- Every union in an annotation that may be missing has two members or more. -/
def pairedOption : Option TypeExpr → Bool
  | none => true
  | some t => t.paired

end

end TypeExpr

/-! ## Expressions -/

namespace Expr

/-- How loosely an expression is held together. -/
def looseness : Expr → Nat
  | not _ _ | typeOf _ _ => 1
  | binary _ op _ _ => op.level + 2
  | _ => 0

mutual

/-- The tokens of an expression. -/
def tokens : Expr → List Token
  | number _ x => [.number x]
  | string _ s => [.string s]
  | boolean _ b => [.keyword (if b then .true_ else .false_)]
  | ident _ name => [.ident name]
  | array _ none items =>
    .symbol .lbracket :: separated .comma (tokensList items) ++ [.symbol .rbracket]
  | array _ (some item) items =>
    .symbol .lt :: item.tokens ++ .symbol .gt :: .symbol .lbracket
      :: separated .comma (tokensList items) ++ [.symbol .rbracket]
  | binary _ op left right =>
    enclosed (op.level + 2 < left.looseness) left.tokens
      ++ .symbol op.symbol :: enclosed (op.level + 1 < right.looseness) right.tokens
  | not _ operand => .symbol .bang :: enclosed (1 < operand.looseness) operand.tokens
  | typeOf _ operand => .keyword .typeOf :: enclosed (1 < operand.looseness) operand.tokens
  | index _ object i =>
    enclosed (0 < object.looseness) object.tokens
      ++ .symbol .lbracket :: i.tokens ++ [.symbol .rbracket]
  | call _ name args =>
    .ident name :: .symbol .lparen :: separated .comma (tokensList args) ++ [.symbol .rparen]

/-- The tokens of some expressions. -/
def tokensList : List Expr → List (List Token)
  | [] => []
  | e :: es => e.tokens :: tokensList es

end

/-- The tokens of an expression within a limit. -/
def within (limit : Nat) (e : Expr) : List Token := enclosed (limit < e.looseness) e.tokens

theorem tokensList_eq (es : List Expr) : tokensList es = es.map tokens := by
  induction es with
  | nil => rfl
  | cons e es ih => rw [tokensList, ih, List.map_cons]

/-- The greatest limit is that of a whole expression. -/
theorem looseness_lt (e : Expr) : e.looseness < BinOp.levels + 2 := by
  unfold looseness
  split
  iterate 2 decide
  · exact Nat.add_lt_add_right (BinOp.level_lt_levels _) 2
  · decide

mutual

/-- The expression without its places. -/
def bare : Expr → Expr
  | number _ x => number .zero x
  | string _ s => string .zero s
  | boolean _ b => boolean .zero b
  | ident _ name => ident .zero name
  | array _ item items => array .zero (item.map TypeExpr.bare) (bareList items)
  | binary _ op left right => binary .zero op left.bare right.bare
  | not _ operand => not .zero operand.bare
  | typeOf _ operand => typeOf .zero operand.bare
  | index _ object i => index .zero object.bare i.bare
  | call _ name args => call .zero name (bareList args)

/-- Some expressions without their places. -/
def bareList : List Expr → List Expr
  | [] => []
  | e :: es => e.bare :: bareList es

end

theorem bareList_eq (es : List Expr) : bareList es = es.map bare := by
  induction es with
  | nil => rfl
  | cons e es ih => rw [bareList, ih, List.map_cons]

mutual

/-- Every union in the expression has two members or more. -/
def paired : Expr → Bool
  | number _ _ | string _ _ | boolean _ _ | ident _ _ => true
  | array _ item items => item.all TypeExpr.paired && pairedList items
  | binary _ _ left right => left.paired && right.paired
  | not _ operand => operand.paired
  | typeOf _ operand => operand.paired
  | index _ object i => object.paired && i.paired
  | call _ _ args => pairedList args

/-- Every union in some expressions has two members or more. -/
def pairedList : List Expr → Bool
  | [] => true
  | e :: es => e.paired && pairedList es

end

theorem pairedList_iff {es : List Expr} :
    pairedList es = true ↔ ∀ e ∈ es, e.paired = true := by
  induction es with
  | nil => simp [pairedList]
  | cons e es ih => simp [pairedList, ih]

end Expr

/-! ## Statements -/

namespace Stmt

mutual

/-- The tokens of a statement, without the semicolon behind it. -/
def tokens : Stmt → List Token
  | block _ body => braced (tokensBody body)
  | declare _ name ty value constant =>
    .keyword (if constant then .const_ else .let_) :: .ident name
      :: behind .colon (ty.map TypeExpr.tokens) ++ behind .eq (value.map Expr.tokens)
  | assign _ name value => .ident name :: .symbol .eq :: value.tokens
  | assignField _ object field value =>
    object.within 0 ++ .symbol .dot :: .ident field :: .symbol .eq :: value.tokens
  | branch _ condition body none =>
    .keyword .if_ :: condition.tokens ++ braced (tokensBody body)
  | branch _ condition body (some otherwise) =>
    .keyword .if_ :: condition.tokens ++ braced (tokensBody body)
      ++ .keyword .else_ :: braced (tokensBody otherwise)
  | loop _ condition body => .keyword .while_ :: condition.tokens ++ braced (tokensBody body)
  | count _ marker first limit body =>
    .keyword .for_ :: .ident marker :: .keyword .in_ :: first.tokens
      ++ .symbol .dotDot :: limit.tokens ++ braced (tokensBody body)
  | ret _ none => [.keyword .return_]
  | ret _ (some value) => .keyword .return_ :: value.tokens
  | stop _ => [.keyword .break_]
  | next _ => [.keyword .continue_]
  | call _ name args =>
    .ident name :: .symbol .lparen :: separated .comma (args.map Expr.tokens) ++ [.symbol .rparen]

/-- The tokens of some statements, each with a semicolon behind it. -/
def tokensBody : List Stmt → List Token
  | [] => []
  | s :: body => s.tokens ++ .symbol .semicolon :: tokensBody body

end

mutual

/-- The statement without its places. -/
def bare : Stmt → Stmt
  | block _ body => block .zero (bareBody body)
  | declare _ name ty value constant =>
    declare .zero name (ty.map TypeExpr.bare) (value.map Expr.bare) constant
  | assign _ name value => assign .zero name value.bare
  | assignField _ object field value => assignField .zero object.bare field value.bare
  | branch _ condition body none => branch .zero condition.bare (bareBody body) none
  | branch _ condition body (some otherwise) =>
    branch .zero condition.bare (bareBody body) (some (bareBody otherwise))
  | loop _ condition body => loop .zero condition.bare (bareBody body)
  | count _ marker first limit body => count .zero marker first.bare limit.bare (bareBody body)
  | ret _ value => ret .zero (value.map Expr.bare)
  | stop _ => stop .zero
  | next _ => next .zero
  | call _ name args => call .zero name (args.map Expr.bare)

/-- Some statements without their places. -/
def bareBody : List Stmt → List Stmt
  | [] => []
  | s :: body => s.bare :: bareBody body

end

mutual

/-- Every union in the statement has two members or more. -/
def paired : Stmt → Bool
  | block _ body => pairedBody body
  | declare _ _ ty value _ => ty.all TypeExpr.paired && value.all Expr.paired
  | assign _ _ value => value.paired
  | assignField _ object _ value => object.paired && value.paired
  | branch _ condition body none => condition.paired && pairedBody body
  | branch _ condition body (some otherwise) =>
    condition.paired && (pairedBody body && pairedBody otherwise)
  | loop _ condition body => condition.paired && pairedBody body
  | count _ _ first limit body => first.paired && (limit.paired && pairedBody body)
  | ret _ value => value.all Expr.paired
  | stop _ | next _ => true
  | call _ _ args => args.all Expr.paired

/-- Every union in some statements has two members or more. -/
def pairedBody : List Stmt → Bool
  | [] => true
  | s :: body => s.paired && pairedBody body

end

end Stmt

/-! ## Declarations -/

/-- The tokens of a generic with its bound. -/
def GenericParam.tokens (g : GenericParam) : List Token :=
  .ident g.name :: behind .colon (g.bound.map TypeExpr.tokens)

/-- The generic without its places. -/
def GenericParam.bare (g : GenericParam) : GenericParam :=
  ⟨g.name, g.bound.map TypeExpr.bare, .zero⟩

/-- The tokens of some generics between angle brackets, if there are any. -/
def GenericParam.tokensList : List GenericParam → List Token
  | [] => []
  | gs => .symbol .lt :: separated .comma (gs.map tokens) ++ [.symbol .gt]

/-- The tokens of a parameter. -/
def Param.tokens (p : Param) : List Token := .ident p.name :: .symbol .colon :: p.ty.tokens

/-- The parameter without its places. -/
def Param.bare (p : Param) : Param := ⟨p.name, p.ty.bare, .zero⟩

namespace FunctionDecl

/-- The tokens of a function. -/
def tokens (d : FunctionDecl) : List Token :=
  .keyword .function_ :: .ident d.name :: GenericParam.tokensList d.generics
    ++ .symbol .lparen :: separated .comma (d.params.map Param.tokens)
    ++ .symbol .rparen :: behind .colon (d.ret.map TypeExpr.tokens)
    ++ braced (Stmt.tokensBody d.body)

/-- The function without its places. -/
def bare (d : FunctionDecl) : FunctionDecl :=
  ⟨d.name, d.generics.map GenericParam.bare, d.params.map Param.bare, d.ret.map TypeExpr.bare,
    Stmt.bareBody d.body, .zero⟩

/-- Every union in the function has two members or more. -/
def paired (d : FunctionDecl) : Bool :=
  d.generics.all (·.bound.all TypeExpr.paired) && d.params.all (·.ty.paired)
    && d.ret.all TypeExpr.paired && Stmt.pairedBody d.body

end FunctionDecl

namespace EventDecl

/-- The tokens of an event. -/
def tokens (d : EventDecl) : List Token :=
  .keyword .event_ :: .ident d.name
    :: .symbol .lparen :: separated .comma (d.args.map fun name => [.ident name])
    ++ .symbol .rparen :: braced (Stmt.tokensBody d.body)

/-- The event without its places. -/
def bare (d : EventDecl) : EventDecl := ⟨d.name, d.args, Stmt.bareBody d.body, .zero⟩

end EventDecl

/-- The tokens of an alias. -/
def AliasDecl.tokens (d : AliasDecl) : List Token :=
  .keyword .type_ :: .ident d.name :: .symbol .eq :: d.ty.tokens

/-- The alias without its places. -/
def AliasDecl.bare (d : AliasDecl) : AliasDecl := ⟨d.name, d.ty.bare, .zero⟩

namespace Item

/-- The tokens of a declaration. -/
def tokens : Item → List Token
  | function d => d.tokens
  | event d => d.tokens
  | typeAlias d => d.tokens

/-- The declaration without its places. -/
def bare : Item → Item
  | function d => function d.bare
  | event d => event d.bare
  | typeAlias d => typeAlias d.bare

/-- Every union in the declaration has two members or more. -/
def paired : Item → Bool
  | function d => d.paired
  | event d => Stmt.pairedBody d.body
  | typeAlias d => d.ty.paired

end Item

namespace Program

/-- The tokens of a program. -/
def tokens (p : Program) : List Token := p.items.flatMap Item.tokens

/-- The program without its places. -/
def bare (p : Program) : Program := ⟨p.items.map Item.bare⟩

/-- Every union in the program has two members or more. -/
def paired (p : Program) : Bool := p.items.all Item.paired

end Program

end RuleScript
