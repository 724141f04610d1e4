import RuleScript.Proofs.Lowering.Points
import RuleScript.Proofs.Run.Provenance

/-!
# Marking lowered code

The rule of an event is marked by following the event. Each declaration without a value is marked
with the slot of its name and depth, in the bodies of inlined functions too; what a body starts with
are the arguments of the call; and nothing else is marked. So a rule is marked in one way.

## Main definitions

* `Expr.Marks`, `Stmt.Marks`: marked code for an expression, and for a statement
* `EventDecl.Marks`: marked code for an event

## Main results

* `EventDecl.Marks.unique`: the rule of an event is marked in one way
-/

namespace RuleScript

namespace Marked

theorem eraseBody_isEmpty (ms : List Marked) : (eraseBody ms).isEmpty = ms.isEmpty := by
  cases ms <;> rfl

/-- A marked action with others before it. -/
def behind (before : List Marked) (m : Marked) : Marked :=
  if before.isEmpty then m else block (before ++ [m])

@[simp] theorem erase_behind (before : List Marked) (m : Marked) :
    (behind before m).erase = .behind (eraseBody before) m.erase := by
  unfold behind Action.behind
  rw [eraseBody_isEmpty]
  split
  · rfl
  · rw [erase, eraseBody_append, eraseBody, eraseBody]

/-- A marked loop whose condition needs actions of its own. -/
def loopWith (check : List Marked) (condition : Value) (body : List Marked) : Marked :=
  if check.isEmpty then loop condition body
  else loop (.ofBool true) (check ++ branch condition.negate [stop] :: body)

@[simp] theorem erase_loopWith (check : List Marked) (condition : Value) (body : List Marked) :
    (loopWith check condition body).erase =
      .loopWith (eraseBody check) condition (eraseBody body) := by
  unfold loopWith Action.loopWith
  rw [eraseBody_isEmpty]
  split
  · rfl
  · simp [erase, eraseBody]

mutual

/-- Whether nothing in an action is marked. -/
def isUnmarked : Marked → Bool
  | block body | branch _ body | loop _ body => isUnmarkedBody body
  | opened _ | pass _ _ _ => false
  | declare _ _ _ | assign _ _ | assignField _ _ _ | call _ _ | stop | next | noop => true

/-- Whether nothing in some actions is marked. -/
def isUnmarkedBody : List Marked → Bool
  | [] => true
  | m :: ms => isUnmarked m && isUnmarkedBody ms

end

/-- Whether the action is the declaration of a parameter. -/
def isPass : Marked → Bool
  | pass _ _ _ => true
  | _ => false

end Marked

/-! ## Following the program -/

/-- The expressions in an expression whose code is kept. Of an operand of `typeof` only the type
counts. -/
def Expr.kept : Expr → List Expr
  | .typeOf _ _ => []
  | e => e.parts

/-- Whether a statement neither has statements inside it nor leaves a variable without a value, and
is no call. -/
def Stmt.isPlain : Stmt → Bool
  | .declare _ _ _ value _ => value.isSome
  | .assign .. | .assignField .. | .ret .. | .stop _ | .next _ => true
  | .block .. | .branch .. | .loop .. | .count .. | .call .. => false

section

open Marked (behind loopWith isUnmarkedBody isPass)

variable (declarations : Declarations) (slots : Slots)

mutual

/-- Marked code for the calls in an expression, where so many scopes are open. -/
inductive Expr.Marks : Nat → Expr → List Marked → Prop
  | kept {depth e ms} (hcall : (Task.expr e).call? = none) (h : Expr.MarksList depth e.kept ms) :
    Expr.Marks depth e ms
  | call {depth span name args ms} (h : Expr.MarksCall depth name args ms) :
    Expr.Marks depth (.call span name args) ms

/-- Marked code for the calls in some expressions, from left to right. -/
inductive Expr.MarksList : Nat → List Expr → List Marked → Prop
  | nil {depth} : Expr.MarksList depth [] []
  | cons {depth e es ms ms'} (h : Expr.Marks depth e ms) (h' : Expr.MarksList depth es ms') :
    Expr.MarksList depth (e :: es) (ms ++ ms')

/-- Marked code for a call: for its arguments, and for the body if the function is one of the
program's own. -/
inductive Expr.MarksCall : Nat → String → List Expr → List Marked → Prop
  | own {depth name args decl before ms} (hdecl : declarations.functions.get? name = some decl)
    (hargs : Expr.MarksList depth args before) (h : FunctionDecl.Marks depth decl ms) :
    Expr.MarksCall depth name args (before ++ [.block ms])
  | target {depth name args before} (hdecl : declarations.functions.get? name = none)
    (hargs : Expr.MarksList depth args before) : Expr.MarksCall depth name args before

/-- Marked code for the body of a call, which is in a scope of its own. The parameters start with
the arguments. -/
inductive FunctionDecl.Marks : Nat → FunctionDecl → List Marked → Prop
  | mk {depth decl params ms} (hlen : params.length = decl.params.length)
    (hparams : params.all isPass = true) (h : Stmt.MarksBody (depth + 1) decl.body ms) :
    FunctionDecl.Marks depth decl (params ++ ms)

/-- Marked code for a statement. -/
inductive Stmt.Marks : Nat → Stmt → Marked → Prop
  | opened {depth span name ty constant slot} (hslot : slots.get? ⟨name, depth⟩ = some slot) :
    Stmt.Marks depth (.declare span name ty none constant) (.opened slot)
  | plain {depth s before m} (hs : s.isPlain = true) (hm : m.isUnmarked = true)
    (h : Expr.MarksList depth s.parts before) : Stmt.Marks depth s (behind before m)
  | call {depth span name args before m} (hm : m.isUnmarked = true)
    (h : Expr.MarksCall depth name args before) :
    Stmt.Marks depth (.call span name args) (behind before m)
  | block {depth span body ms} (h : Stmt.MarksBody (depth + 1) body ms) :
    Stmt.Marks depth (.block span body) (.block ms)
  | branch {depth span e body before c ms} (he : Expr.Marks depth e before)
    (h : Stmt.MarksBody (depth + 1) body ms) :
    Stmt.Marks depth (.branch span e body none) (behind before (.branch c ms))
  | branchElse {depth span e body otherwise before save c c' ms ms'}
    (he : Expr.Marks depth e before) (hsave : isUnmarkedBody save = true)
    (h : Stmt.MarksBody (depth + 1) body ms) (h' : Stmt.MarksBody (depth + 1) otherwise ms') :
    Stmt.Marks depth (.branch span e body (some otherwise))
      (behind before (.block (save ++ [.branch c ms, .branch c' ms'])))
  | loop {depth span e body check c ms} (he : Expr.Marks depth e check)
    (h : Stmt.MarksBody (depth + 1) body ms) :
    Stmt.Marks depth (.loop span e body) (loopWith check c ms)
  | count {depth span marker first limit body before start check c ms step}
    (hfirst : Expr.Marks (depth + 1) first before) (hlimit : Expr.Marks (depth + 1) limit check)
    (hstart : start.isUnmarked = true) (hstep : step.isUnmarked = true)
    (h : Stmt.MarksBody (depth + 2) body ms) :
    Stmt.Marks depth (.count span marker first limit body)
      (behind before (.block [start, loopWith check c (ms ++ [step])]))

/-- Marked code for the statements of a body. -/
inductive Stmt.MarksBody : Nat → List Stmt → List Marked → Prop
  | nil {depth} : Stmt.MarksBody depth [] []
  | cons {depth s body m ms} (h : Stmt.Marks depth s m) (h' : Stmt.MarksBody depth body ms) :
    Stmt.MarksBody depth (s :: body) (m :: ms)

end

/-- Marked code for an event, which has one scope around its body. -/
def EventDecl.Marks (event : EventDecl) (ms : List Marked) : Prop :=
  Stmt.MarksBody declarations slots 1 event.body ms

end

/-! ## There is one way -/

namespace Marked

mutual

/-- The action with nothing marked in it. -/
def ofAction : Action → Marked
  | .block body => block (ofActions body)
  | .branch condition body => branch condition (ofActions body)
  | .loop condition body => loop condition (ofActions body)
  | .declare slot ty value => declare slot ty value
  | .assign slot value => assign slot value
  | .assignField object field value => assignField object field value
  | .call name args => call name args
  | .stop => stop
  | .next => next
  | .noop => noop

/-- The actions with nothing marked in them. -/
def ofActions : List Action → List Marked
  | [] => []
  | a :: as => ofAction a :: ofActions as

end

mutual

theorem ofAction_erase : ∀ {m : Marked}, m.isUnmarked = true → ofAction m.erase = m
  | block body, h => by rw [erase, ofAction, ofActions_eraseBody h]
  | branch _ body, h => by rw [erase, ofAction, ofActions_eraseBody h]
  | loop _ body, h => by rw [erase, ofAction, ofActions_eraseBody h]
  | declare _ _ _, _ | assign _ _, _ | assignField _ _ _, _ | call _ _, _ | stop, _ | next, _
  | noop, _ => rfl

theorem ofActions_eraseBody : ∀ {ms : List Marked}, isUnmarkedBody ms = true →
    ofActions (eraseBody ms) = ms
  | [], _ => rfl
  | m :: ms, h => by
    rw [isUnmarkedBody, Bool.and_eq_true] at h
    rw [eraseBody, ofActions, ofAction_erase h.1, ofActions_eraseBody h.2]

end

/-- An action in which nothing is marked is known by what it marks. -/
theorem eq_of_erase {m m' : Marked} (hm : m.isUnmarked = true) (hm' : m'.isUnmarked = true)
    (h : m.erase = m'.erase) : m = m' := by
  rw [← ofAction_erase hm, h, ofAction_erase hm']

theorem eq_of_eraseBody {ms ms' : List Marked} (hm : isUnmarkedBody ms = true)
    (hm' : isUnmarkedBody ms' = true) (h : eraseBody ms = eraseBody ms') : ms = ms' := by
  rw [← ofActions_eraseBody hm, h, ofActions_eraseBody hm']

@[simp] theorem length_eraseBody (ms : List Marked) : (eraseBody ms).length = ms.length := by
  induction ms with
  | nil => rfl
  | cons m ms ih => rw [eraseBody, List.length_cons, List.length_cons, ih]

/-- What is marked can be taken apart. -/
theorem eraseBody_append_inj {as as' bs bs' : List Marked} (hlen : as.length = as'.length)
    (h : eraseBody (as ++ bs) = eraseBody (as' ++ bs')) :
    eraseBody as = eraseBody as' ∧ eraseBody bs = eraseBody bs' := by
  rw [eraseBody_append, eraseBody_append] at h
  exact List.append_inj h (by simpa using hlen)

/-- The same from the other end. -/
theorem eraseBody_append_inj' {as as' bs bs' : List Marked} (hlen : bs.length = bs'.length)
    (h : eraseBody (as ++ bs) = eraseBody (as' ++ bs')) :
    eraseBody as = eraseBody as' ∧ eraseBody bs = eraseBody bs' := by
  rw [eraseBody_append, eraseBody_append] at h
  exact List.append_inj' h (by simpa using hlen)

/-- Declarations of parameters are known by what they mark. -/
theorem eq_of_isPass {ms ms' : List Marked} (hms : ms.all isPass = true)
    (hms' : ms'.all isPass = true) (h : eraseBody ms = eraseBody ms') : ms = ms' := by
  induction ms generalizing ms' with
  | nil =>
    cases ms' with
    | nil => rfl
    | cons m' ms' => cases h
  | cons m ms ih =>
    cases ms' with
    | nil => cases h
    | cons m' ms' =>
      simp only [List.all_cons, Bool.and_eq_true] at hms hms'
      obtain ⟨hm, hms⟩ := hms
      obtain ⟨hm', hms'⟩ := hms'
      rw [eraseBody, eraseBody, List.cons.injEq] at h
      have heq : m = m' := by
        cases m with
        | pass slot ty value =>
          cases m' with
          | pass slot' ty' value' =>
            obtain ⟨rfl, rfl, rfl⟩ := Action.declare.inj h.1
            rfl
          | _ => cases hm'
        | _ => cases hm
      rw [heq, ih hms hms' h.2]

variable {before before' ms ms' : List Marked} {m m' : Marked} {c c' : Value}

theorem erase_behind_inj (hlen : before.length = before'.length)
    (h : (behind before m).erase = (behind before' m').erase) :
    eraseBody before = eraseBody before' ∧ m.erase = m'.erase := by
  cases before with
  | nil =>
    obtain rfl := List.length_eq_zero_iff.mp hlen.symm
    exact ⟨rfl, h⟩
  | cons a before =>
    cases before' with
    | nil => cases hlen
    | cons a' before' =>
      have hbody := eraseBody_append_inj hlen (Action.block.inj h)
      exact hbody.imp_right fun h => (List.cons.inj h).1

theorem erase_loopWith_inj (hlen : before.length = before'.length)
    (h : (loopWith before c ms).erase = (loopWith before' c' ms').erase) :
    eraseBody before = eraseBody before' ∧ c = c' ∧ eraseBody ms = eraseBody ms' := by
  cases before with
  | nil =>
    obtain rfl := List.length_eq_zero_iff.mp hlen.symm
    exact ⟨rfl, Action.loop.inj h⟩
  | cons a before =>
    cases before' with
    | nil => cases hlen
    | cons a' before' =>
      obtain ⟨hbefore, hrest⟩ := eraseBody_append_inj hlen (Action.loop.inj h).2
      obtain ⟨hleave, hms⟩ := List.cons.inj hrest
      obtain ⟨hc, -⟩ := Action.branch.inj hleave
      exact ⟨hbefore, (Value.not.inj hc).2, hms⟩

end Marked

section

open Marked

variable {declarations : Declarations} {slots : Slots}

mutual

/-- How much code there is for an expression is known from the expression. -/
theorem Expr.Marks.length_eq {depth : Nat} {e : Expr} {ms ms' : List Marked} :
    e.Marks declarations slots depth ms → e.Marks declarations slots depth ms' →
      ms.length = ms'.length
  | .kept _ h, .kept _ h' => h.length_eq h'
  | .call h, .call h' => h.length_eq h'
  | .kept hcall _, .call _ => by cases hcall
  | .call _, .kept hcall _ => by cases hcall

theorem Expr.MarksList.length_eq {depth : Nat} {es : List Expr} {ms ms' : List Marked} :
    Expr.MarksList declarations slots depth es ms → Expr.MarksList declarations slots depth es ms' →
      ms.length = ms'.length
  | .nil, .nil => rfl
  | .cons h hs, .cons h' hs' => by
    rw [List.length_append, List.length_append, h.length_eq h', hs.length_eq hs']

theorem Expr.MarksCall.length_eq {depth : Nat} {name : String} {args : List Expr}
    {ms ms' : List Marked} :
    Expr.MarksCall declarations slots depth name args ms →
      Expr.MarksCall declarations slots depth name args ms' → ms.length = ms'.length
  | .own _ h _, .own _ h' _ => by
    rw [List.length_append, List.length_append, h.length_eq h']
    rfl
  | .target _ h, .target _ h' => h.length_eq h'
  | .own hdecl _ _, .target hdecl' _ => by cases hdecl.symm.trans hdecl'
  | .target hdecl _, .own hdecl' _ _ => by cases hdecl.symm.trans hdecl'

end

mutual

theorem Expr.Marks.unique {depth : Nat} {e : Expr} {ms ms' : List Marked} :
    e.Marks declarations slots depth ms → e.Marks declarations slots depth ms' →
      eraseBody ms = eraseBody ms' → ms = ms'
  | .kept _ h, .kept _ h', he => h.unique h' he
  | .call h, .call h', he => h.unique h' he
  | .kept hcall _, .call _, _ => by cases hcall
  | .call _, .kept hcall _, _ => by cases hcall
termination_by structural h _ _ => h

theorem Expr.MarksList.unique {depth : Nat} {es : List Expr} {ms ms' : List Marked} :
    Expr.MarksList declarations slots depth es ms → Expr.MarksList declarations slots depth es ms' →
      eraseBody ms = eraseBody ms' → ms = ms'
  | .nil, .nil, _ => rfl
  | .cons h hs, .cons h' hs', he => by
    obtain ⟨he, hes⟩ := eraseBody_append_inj (h.length_eq h') he
    rw [h.unique h' he, hs.unique hs' hes]
termination_by structural h _ _ => h

theorem Expr.MarksCall.unique {depth : Nat} {name : String} {args : List Expr}
    {ms ms' : List Marked} :
    Expr.MarksCall declarations slots depth name args ms →
      Expr.MarksCall declarations slots depth name args ms' →
      eraseBody ms = eraseBody ms' → ms = ms'
  | .own hdecl hargs h, .own hdecl' hargs' h', he => by
    obtain ⟨hbefore, hblock⟩ := eraseBody_append_inj (hargs.length_eq hargs') he
    have heq := Option.some.inj (hdecl'.symm.trans hdecl)
    have hbody := h.unique (heq ▸ h') (Action.block.inj (List.cons.inj hblock).1)
    rw [hargs.unique hargs' hbefore, hbody]
  | .target _ h, .target _ h', he => h.unique h' he
  | .own hdecl _ _, .target hdecl' _, _ => by cases hdecl.symm.trans hdecl'
  | .target hdecl _, .own hdecl' _ _, _ => by cases hdecl.symm.trans hdecl'
termination_by structural h _ _ => h

theorem FunctionDecl.Marks.unique {depth : Nat} {decl : FunctionDecl} {ms ms' : List Marked} :
    decl.Marks declarations slots depth ms → decl.Marks declarations slots depth ms' →
      eraseBody ms = eraseBody ms' → ms = ms'
  | .mk hlen hparams h, .mk hlen' hparams' h', he => by
    obtain ⟨hpass, hbody⟩ := eraseBody_append_inj (hlen.trans hlen'.symm) he
    rw [eq_of_isPass hparams hparams' hpass, h.unique h' hbody]
termination_by structural h _ _ => h

/-- **A statement marks its action in one way.** -/
theorem Stmt.Marks.unique {depth : Nat} {s : Stmt} {m m' : Marked} :
    s.Marks declarations slots depth m → s.Marks declarations slots depth m' →
      m.erase = m'.erase → m = m'
  | .opened hslot, .opened hslot', _ => by rw [Option.some.inj (hslot.symm.trans hslot')]
  | .opened _, .plain hs _ _, _ => by cases hs
  | .plain hs hm h, h', he => by
    have hbefore : ∀ {before'}, Expr.MarksList declarations slots depth s.parts before' →
        eraseBody _ = eraseBody before' → _ = before' := fun h' he => h.unique h' he
    cases h' with
    | plain _ hm' h' =>
      obtain ⟨hb, hlast⟩ := erase_behind_inj (h.length_eq h') he
      rw [hbefore h' hb, eq_of_erase hm hm' hlast]
    | _ => cases hs
  | .call hm h, .call hm' h', he => by
    obtain ⟨hb, hlast⟩ := erase_behind_inj (h.length_eq h') he
    rw [h.unique h' hb, eq_of_erase hm hm' hlast]
  | .call _ _, .plain hs _ _, _ => by cases hs
  | .block h, .block h', he => by rw [h.unique h' (Action.block.inj he)]
  | .block _, .plain hs _ _, _ => by cases hs
  | .branch h hbody, .branch h' hbody', he => by
    obtain ⟨hb, hlast⟩ := erase_behind_inj (h.length_eq h') he
    obtain ⟨rfl, hms⟩ := Action.branch.inj hlast
    rw [h.unique h' hb, hbody.unique hbody' hms]
  | .branch _ _, .plain hs _ _, _ => by cases hs
  | .branchElse h hsave hbody hother, .branchElse h' hsave' hbody' hother', he => by
    obtain ⟨hb, hlast⟩ := erase_behind_inj (h.length_eq h') he
    obtain ⟨hsaved, hbranches⟩ := eraseBody_append_inj' (by rfl) (Action.block.inj hlast)
    obtain ⟨hfirst, hsecond⟩ := List.cons.inj hbranches
    obtain ⟨rfl, hms⟩ := Action.branch.inj hfirst
    obtain ⟨rfl, hms'⟩ := Action.branch.inj (List.cons.inj hsecond).1
    rw [h.unique h' hb, eq_of_eraseBody hsave hsave' hsaved, hbody.unique hbody' hms,
      hother.unique hother' hms']
  | .branchElse _ _ _ _, .plain hs _ _, _ => by cases hs
  | .loop h hbody, .loop h' hbody', he => by
    obtain ⟨hb, rfl, hms⟩ := erase_loopWith_inj (h.length_eq h') he
    rw [h.unique h' hb, hbody.unique hbody' hms]
  | .loop _ _, .plain hs _ _, _ => by cases hs
  | .count hfirst hlimit hstart hstep hbody, .count hfirst' hlimit' hstart' hstep' hbody', he => by
    obtain ⟨hb, hlast⟩ := erase_behind_inj (hfirst.length_eq hfirst') he
    obtain ⟨hmarker, hrest⟩ := List.cons.inj (Action.block.inj hlast)
    obtain ⟨hcheck, rfl, hround⟩ :=
      erase_loopWith_inj (hlimit.length_eq hlimit') (List.cons.inj hrest).1
    obtain ⟨hms, hlast⟩ := eraseBody_append_inj' (by rfl) hround
    rw [hfirst.unique hfirst' hb, eq_of_erase hstart hstart' hmarker, hlimit.unique hlimit' hcheck,
      hbody.unique hbody' hms, eq_of_erase hstep hstep' (List.cons.inj hlast).1]
  | .count _ _ _ _ _, .plain hs _ _, _ => by cases hs
termination_by structural h _ _ => h

theorem Stmt.MarksBody.unique {depth : Nat} {body : List Stmt} {ms ms' : List Marked} :
    Stmt.MarksBody declarations slots depth body ms →
      Stmt.MarksBody declarations slots depth body ms' → eraseBody ms = eraseBody ms' → ms = ms'
  | .nil, .nil, _ => rfl
  | .cons h hs, .cons h' hs', he => by
    obtain ⟨he, hes⟩ := List.cons.inj he
    rw [h.unique h' he, hs.unique hs' hes]
termination_by structural h _ _ => h

end

/-- **A rule is marked in one way.** -/
theorem EventDecl.Marks.unique {event : EventDecl} {ms ms' : List Marked}
    (h : event.Marks declarations slots ms) (h' : event.Marks declarations slots ms')
    (he : eraseBody ms = eraseBody ms') : ms = ms' := Stmt.MarksBody.unique h h' he

end

end RuleScript
