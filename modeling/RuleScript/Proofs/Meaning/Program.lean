import RuleScript.Proofs.Meaning.Stmt

/-!
# Lowering preserves meaning

Every rule does what its event does. A rule is run on one array with arbitrary contents, and the
event is run directly, with a cell for each declaration and with calls that see only their own
arguments. Whatever the target makes of constants, values and actions, both have the same effects
and end in the same way. Only when the event reads what was never stored, its direct run is
undefined; then the rule has had the same effects up to there, and what it does after that is left
open.

## Main definitions

* `Rule.Implements`: a rule does what an event does

## Main results

* `FunctionDecl.inline_performs`: the code for a call answers the call
* `Program.lower_implements`: lowering preserves meaning
-/

namespace RuleScript

open RuleScript.Computation
open RuleScript.Action (execBody)

variable {target : Target} {guard : Guard target} {concrete : Ty → Prop} {rounds : Nat}

/-! ## Bodies that have frames of their own -/

namespace Stmt

variable {env : Env} {ctx : Context target} {cells : Cells target} {frames : Frames target}

theorem runIn_eq (body : List Stmt) :
    runIn ctx rounds frames body = runWith (runBody ctx rounds body) frames >>= fun p =>
      match p with
      | (.normal, frames') => pure frames'
      | _ => throw .stuck := by
  funext e
  simp only [runIn, runWith, bind, EStateM.bind]
  cases runBody ctx rounds body ⟨frames, e⟩ with
  | ok exit s => cases exit <;> rfl
  | error halt s => rfl

/-- A body outside of all loops ends normally. -/
theorem runIn_performs {slots : Slots} {body : List Stmt} {actions : List Action}
    (h : BodySimulated guard rounds ctx env slots body actions)
    (hmirrors : env.Mirrors guard ctx cells frames) (hloop : env.scopes.enclosingLoop? = none) :
    Performs guard rounds actions cells
      (fun frames' cells' => ∃ scopes, env.scopes.Declares slots scopes ∧
        Frames.Match guard cells' scopes.visible frames')
      (runIn ctx rounds frames body) := by
  have hnormal : ∀ {p q}, EndedBody guard slots env.scopes p q →
      p.1 = .normal ∧ q.1 = .normal := by
    rintro p q ⟨scopes, -, hended⟩
    have hexit : p.1 = .normal := by
      by_contra hne
      exact hended.inLoop hne hloop
    exact ⟨hexit, hended.exit_eq.symm.trans hexit⟩
  have hsim := (h cells frames hmirrors).simulates fun p q hpq => by
    obtain ⟨exit, cells'⟩ := q
    obtain rfl : exit = .normal := (hnormal hpq).2
    exact Scopes.finish_normal
  rw [Performs, runIn_eq, ← bind_pure (runWith (execBody guard rounds actions) cells)]
  refine Simulates.bind hsim ?_ fun _ => .pure _
  rintro ⟨exit, frames'⟩ ⟨exit', cells'⟩ hended
  obtain ⟨rfl, rfl⟩ := hnormal hended
  obtain ⟨scopes, hdeclares, hended⟩ := hended
  exact Simulates.pure ⟨rfl, scopes, hdeclares, hended.frames⟩

end Stmt

/-! ## Calls -/

namespace FunctionDecl

/-- The slot of a parameter is deeper than the call. -/
theorem agree_set {depth : Nat} {s t : Slots} {cells cells' : Cells target} {key : SlotKey}
    {slot : Slot} (h : Cells.Agree depth s cells cells') (ht : t.Valid) (hs : s.Extends t)
    (hkey : t.get? key = some slot) (hdeep : depth < key.depth)
    (hnamed : key.depth < Slots.hiddenDepth) (d : Datum target.Thing) :
    Cells.Agree depth s cells (cells'.set slot d) := by
  intro key' slot' hkey' hdepth
  refine Eq.trans (if_neg ?_) (h key' slot' hkey' hdepth)
  rintro rfl
  cases ht.key_unique hkey (hs.get? hkey')
  omega

/-- The frame after some more arguments. -/
def bindFrame (frame : Table (Cell target.Thing)) (params : List Param) (tys : List Ty)
    (data : List (Datum target.Thing)) : Table (Cell target.Thing) :=
  (params.zip (tys.zip data)).foldl
    (fun frame (p, ty, d) => frame.insert p.name (.var ty (some d))) frame

/-- Binding the parameters of a call answers evaluating its arguments. -/
theorem bindParams_performs {declarations : Declarations} {types : Table Ty}
    {params : List Param} {args : List Value} {tys : List Ty} {depth : Nat} {s : Slots}
    {given : List (Computation target (Datum target.Thing))} {cells₀ cells : Cells target}
    {env : Env} {frame : Table (Cell target.Thing)} {scopes : Scopes} {actions : List Action}
    {st st' : LowerState} (henv : env.Ready st.slots 0) (hd : env.declarations = declarations)
    (hseen : ∀ name, env.scopes.type? name = types.get? name) (hs : s.Extends st.slots)
    (hdepth : depth < env.scopes.depth) (hgiven : AnsweredList guard depth s cells₀ given args)
    (hagree : Cells.Agree depth s cells₀ cells)
    (htys : params.mapM (fun p => (declarations.within types).resolve p.ty) = .ok tys)
    (hparam : ∀ p v ty d, (p, v) ∈ params.zip args →
      (declarations.within types).resolve p.ty = .ok ty → guard v.ty d = true → guard ty d = true)
    (hlen : args.length = params.length)
    (hmatch : Frames.Match guard cells env.scopes.visible [frame])
    (h : bindParams env (params.zip args) st = .ok (scopes, actions) st') :
    Performs guard rounds actions cells
      (fun data cells' =>
        Frames.Match guard cells' scopes.visible [bindFrame frame params tys data])
      (runList given) := by
  induction params generalizing args tys given cells env frame actions st with
  | nil =>
    obtain rfl : args = [] := List.length_eq_zero_iff.mp hlen
    cases hgiven
    cases htys
    obtain ⟨rfl, rfl, rfl⟩ := bindParams_nil_ok h
    exact .nil hmatch
  | cons p params ih =>
    cases hgiven with
    | nil => cases hlen
    | @cons x v xs args hx hxs =>
      obtain ⟨hhere, ty, slot, t, actions', hty, hslot, hrest, rfl⟩ := bindParams_cons_ok h
      simp only [List.mapM_cons, Except.bind_eq_ok] at htys
      obtain ⟨ty', hty', tys', htys, hok⟩ := htys
      cases hok
      have hresolve : (declarations.within types).resolve p.ty = env.resolve p.ty :=
        Env.resolveIn_congr hd.symm
          (fun name => (Declarations.type?_within name).trans (hseen name).symm) p.ty
      obtain rfl : ty' = ty := Except.ok.inj (hty'.symm.trans (hresolve.trans hty))
      have hgrant := Lower.intern_granted henv.valid henv.depth_lt hslot
      have hdeclares : env.scopes.Declares t.slots
          (env.scopes.declare p.name ⟨ty', false, .slot slot⟩) :=
        .declare .refl hhere rfl hgrant.get?
      have henv' : ({ env with
          scopes := env.scopes.declare p.name ⟨ty', false, .slot slot⟩ } : Env).Ready t.slots 0 :=
        Env.Ready.declares ⟨hgrant.valid, henv.stored.extend hgrant.extend, henv.room⟩ hdeclares
      rw [Performs, Action.runWith_cons, Action.exec, Action.runWith_store, bind_assoc, runList]
      refine (hx cells hagree).bind ?_ fun d => ?_
      · rintro d _ ⟨rfl, hdatum⟩
        rw [pure_bind]
        -- The store goes deeper than the place of the call: the later arguments stay answered.
        have hstored := hmatch.declareSet (by exact henv'.distinct)
          (hparam p v ty' d List.mem_cons_self hty' hdatum)
        have hdone := ih (by exact henv') (by exact hd)
          (by exact fun name => Scopes.type?_declare.trans (hseen name)) (hs.trans hgrant.extend)
          (by exact hdeclares.depth_eq ▸ hdepth) hxs
          (agree_set hagree hgrant.valid (hs.trans hgrant.extend) hgrant.get? hdepth
            henv.depth_lt d)
          htys (fun q w ty d hmem => hparam q w ty d (List.mem_cons_of_mem _ hmem))
          (Nat.succ.inj hlen) hstored hrest
        show Performs guard rounds actions' (cells.set slot d)
          (fun data cells' => Frames.Match guard cells' scopes.visible
            [bindFrame frame (p :: params) (ty' :: tys') data])
          (runList xs >>= fun data => pure (d :: data))
        exact hdone.map fun data cells' hmatch' => hmatch'
      · rw [pure_bind]
        exact Action.execBody_growing guard rounds _ _

/-- The parameters of a call start with the types of its arguments. -/
theorem bindParams_initials {params : List Param} {args : List Value} {env : Env}
    {scopes : Scopes} {actions : List Action} {st st' : LowerState}
    (hlen : args.length = params.length)
    (h : bindParams env (params.zip args) st = .ok (scopes, actions) st') :
    Action.initialsBody actions = args.map (·.ty) := by
  induction params generalizing args env actions st with
  | nil =>
    obtain rfl : args = [] := List.length_eq_zero_iff.mp hlen
    obtain ⟨-, rfl, -⟩ := bindParams_nil_ok h
    rfl
  | cons p params ih =>
    cases args with
    | nil => cases hlen
    | cons v args =>
      obtain ⟨-, ty, slot, t, actions', -, -, hrest, rfl⟩ := bindParams_cons_ok h
      rw [Action.initialsBody, ih (Nat.succ.inj hlen) hrest]
      rfl

/-- The frame that a call starts with, before its arguments. -/
theorem match_entered {cells : Cells target} {function : String} {types : Table Ty}
    {ret : Option ReturnSlot} {outer : List Scope} :
    Frames.Match guard cells (enteredScopes function types ret outer).visible
      [match ret.map (·.ty) with
        | none => Table.empty
        | some ty => Table.empty.insert returnLabel (.var ty none)] := by
  rw [enteredScopes, Scopes.visible_cons]
  refine Frames.Match.cons ⟨rfl, fun i name => ?_⟩ fun name => ?_
  · simp only [Scopes.boundIn, Frames.cell?, ScopeKind.isFunction, if_true, List.getElem?_nil]
    exact .none
  · cases ret with
    | none => exact .none
    | some r =>
      by_cases hname : name = returnLabel
      · subst hname
        show Cell.Matches guard cells ((Table.empty.insert returnLabel _).get? returnLabel)
          ((Table.empty.insert returnLabel _).get? returnLabel)
        rw [Table.get?_insert_self, Table.get?_insert_self]
        exact .var fun d hd => by cases hd
      · show Cell.Matches guard cells ((Table.empty.insert returnLabel _).get? name)
          ((Table.empty.insert returnLabel _).get? name)
        rw [Table.get?_insert_of_ne _ _ hname, Table.get?_insert_of_ne _ _ hname]
        exact .none

/-- **The code for a call answers the call.** -/
theorem inline_performs {declarations : Declarations} {splice? : Option Splice} {depth : Nat}
    {env : Env} {name : String} {decl : FunctionDecl} {args : List Value} {span : Span}
    {out : Spliced} {given : List (Computation target (Datum target.Thing))}
    {cells : Cells target} {st st' : LowerState}
    (hctx : ∀ types, Context.Calls guard concrete rounds splice?
      { declarations, types, call := callWithin declarations rounds depth })
    (henv : env.Ready st.slots 0) (hd : env.declarations = declarations)
    (hdecl : env.declarations.functions.get? name = some decl) (hnew : decl.name ∉ env.inlining)
    (hlen : args.length = decl.params.length)
    (h : inline splice? env decl args span st = .ok out st')
    (hconcrete : Action.Concrete concrete out.body)
    (hgiven : AnsweredList guard env.scopes.depth st.slots cells given args) :
    (∀ r, out.ret = some r → st'.slots.Hidden r.slot) ∧
    Performs guard rounds out.body cells
      (fun result cells' => ∀ r d, out.ret = some r → result = some d →
        cells' r.slot = some d ∧ guard r.ty d = true)
      (runList given >>= callWithin declarations rounds (depth + 1) decl (args.map (·.ty))) := by
  subst hd
  obtain ⟨generics, types, ret, scopes, params, body, t₁, t₂, htyped, hret, hparams, hbody, rfl⟩ :=
    inline_entered_ok h
  obtain ⟨tys, htys⟩ := bindParams_types rfl (fun _ => Scopes.type?_function rfl) hlen hparams
  have hsignature := signature?_eq htyped htys (resolve?_reserved hret)
  obtain ⟨hvalid, hextend, hnext⟩ := reserveReturn_grown (by exact henv.valid) hret
  have hinner := ready_entered types henv hdecl hnew hvalid hextend hnext
  obtain ⟨hk, hdeclares⟩ := bindParams_kept (hinner.le (Nat.zero_le _)) hparams
  have hbodyEnv := (hinner.kept hk).declares hdeclares
  have hgrows := (hctx types).grows
  have hk' := Stmt.lowerBody_kept hgrows hbodyEnv hbody
  obtain ⟨hconcreteParams, hconcreteBody⟩ := Action.concrete_append.mp hconcrete
  refine ⟨fun r hr => hk'.extend.hidden (hk.extend.hidden (hnext r hr).1), ?_⟩
  have hcall : callWithin env.declarations rounds (depth + 1) decl (args.map (·.ty)) =
      fun data => Stmt.runIn
        ⟨env.declarations, types, callWithin env.declarations rounds depth⟩
        rounds [decl.frame ⟨types, tys, ret.map (·.ty)⟩ data] decl.body >>= fun frames =>
          (pure frames.result? : Computation target _) := by
    funext data
    simp only [callWithin, hsignature, ofOption, pure_bind]
  have hargs : ∀ ty ∈ args.map (·.ty), concrete ty := by
    rw [← bindParams_initials hlen hparams]
    exact hconcreteParams
  rw [hcall]
  refine (bindParams_performs (hinner.le (Nat.zero_le _)) rfl (fun _ => Scopes.type?_function rfl)
    hextend (Nat.lt_succ_self _) hgiven .refl htys (fun p v ty d hmem hty hdatum => ?_) hlen
    match_entered hparams).append fun data cells' hmatch => ?_
  -- What an argument passes as, its parameter passes as: the generics stand for its type.
  · have hmem' : (p, v.ty) ∈ decl.params.zip (args.map (·.ty)) := by
      rw [List.zip_map_right]
      exact List.mem_map.mpr ⟨(p, v), hmem, rfl⟩
    exact (hctx types).sound.param htyped (hargs _ (List.of_mem_zip hmem').2) hmem' hty hdatum
  · have hbodySim := Stmt.runBody_simulates (hctx types) hbodyEnv hbody hconcreteBody
    have hseen : ∀ name, scopes.type? name = types.get? name :=
      fun name => hdeclares.type?_eq.trans (Scopes.type?_function rfl)
    refine (Stmt.runIn_performs hbodySim ⟨rfl, hseen, hmatch⟩
      (hdeclares.enclosingLoop?_eq.trans rfl)).map fun frames cells'' hended r d hr hresult => ?_
    obtain ⟨scopes', hdeclares', hmatch'⟩ := hended
    have hfunction : scopes'.enclosingFunction? = some (decl.name, some r) := by
      rw [hdeclares'.enclosingFunction?_eq, hdeclares.enclosingFunction?_eq, ← hr]
      rfl
    obtain ⟨scope, hlast, hb⟩ := ((hbodyEnv.kept hk').declares hdeclares').result_bound hfunction
    exact hmatch'.result? hlast hb hresult

end FunctionDecl

/-- Calls are answered by their code, however deeply they are inlined. -/
theorem FunctionDecl.callWithin_calls (rounds : Nat) (declarations : Declarations)
    (hguard : guard.Sound concrete)
    {n m : Nat} (hle : n ≤ m) (types : Table Ty) :
    Context.Calls guard concrete rounds (spliceWithin n)
      { declarations, types, call := callWithin declarations rounds m } := by
  -- On how deeply calls are inlined: the calls in a body are inlined with one level less.
  induction n generalizing m types with
  | zero =>
    exact ⟨hguard, spliceWithin_grows 0, spliceWithin_typed 0, fun hsplice => by cases hsplice⟩
  | succ n ih =>
    obtain ⟨m, rfl⟩ : ∃ k, m = k + 1 := ⟨m - 1, by omega⟩
    refine ⟨hguard, spliceWithin_grows _, spliceWithin_typed _,
      fun hsplice henv hd hdecl hnew hlen h hconcrete hgiven => ?_⟩
    cases hsplice
    exact inline_performs (fun types => ih (Nat.le_of_succ_le_succ hle) types) henv hd hdecl hnew
      hlen h hconcrete hgiven

/-! ## Events -/

namespace EventDecl

/-- What a trigger provides is in the frame that its event starts with. -/
theorem match_declareArgs {span : Span} {args : List (String × EventArg)} {s scopes : Scopes}
    {cells : Cells target} {frame : Table (Cell target.Thing)}
    (hargs : ∀ arg ∈ args, Ensures (guard arg.2.ty · = true) (Computation.constant arg.2.target))
    (hmatch : Frames.Match guard cells s.visible [frame])
    (h : declareArgs span s args = .ok scopes) :
    Frames.Match guard cells scopes.visible
      [args.foldl (fun frame (name, arg) => frame.insert name (.constant arg.ty arg.target))
        frame] ∧
    (∀ name, scopes.type? name = s.type? name) ∧ scopes.enclosingLoop? = s.enclosingLoop? := by
  induction args generalizing s frame with
  | nil =>
    cases h
    exact ⟨hmatch, fun _ => rfl, rfl⟩
  | cons arg rest ih =>
    obtain ⟨name, arg⟩ := arg
    obtain ⟨-, hrest⟩ := declareArgs_cons_ok h
    have hcell : Cell.Matches guard cells (some ⟨arg.ty, false, .constant arg.target⟩)
        (some (.constant arg.ty arg.target)) := .constant (hargs (name, arg) List.mem_cons_self)
    obtain ⟨hframes, htypes, hloop⟩ :=
      ih (fun arg harg => hargs arg (List.mem_cons_of_mem _ harg))
        (hmatch.declareCell name hcell) hrest
    exact ⟨hframes, fun other => (htypes other).trans Scopes.type?_declare,
      hloop.trans Scopes.enclosingLoop?_declare⟩

/-- **The rule of an event answers the event.** -/
theorem lower_performs {declarations : Declarations} {maxInlineDepth depth : Nat}
    {event : EventDecl} {rule : Rule} {st st' : LowerState} (cells : Cells target)
    (hguard : guard.Sound concrete) (hdepth : maxInlineDepth ≤ depth) (hs : st.slots.Valid)
    (hroom : Stmt.nestingBody event.body + 1 +
      Declarations.callNesting [] declarations.functions.entries < Slots.hiddenDepth)
    (h : event.lower declarations maxInlineDepth st = .ok rule st')
    (hconcrete : Action.Concrete concrete rule.body)
    (htrigger : ∀ trigger, EventDef.find? event.name = some trigger → ∀ arg ∈ trigger.args,
      Ensures (guard arg.ty · = true) (Computation.constant arg.target)) :
    Performs guard rounds rule.body cells (fun _ _ => True)
      (event.run declarations depth rounds) := by
  obtain ⟨trigger, scopes, body, t, hfind, hscopes, hbody, -, rfl⟩ := lower_ok h
  have hready := EventDecl.ready maxInlineDepth hs hscopes hroom
  have hempty : Frames.Match guard cells (Scopes.empty.push .block).visible [Table.empty] := by
    rw [Scopes.visible_push rfl]
    refine Frames.Match.cons ⟨rfl, fun i name => ?_⟩ fun name => .none
    simp only [Scopes.boundIn, Frames.cell?, Scopes.visible, Scopes.empty, Scopes.upToFunction,
      List.getElem?_nil]
    exact .none
  have hargs : ∀ arg ∈ event.args.zip trigger.args,
      Ensures (guard arg.2.ty · = true) (Computation.constant arg.2.target) :=
    fun arg harg => htrigger trigger hfind arg.2 (List.of_mem_zip harg).2
  obtain ⟨hframes, htypes, hloop⟩ := match_declareArgs hargs hempty hscopes
  have hsim := Stmt.runBody_simulates
    (FunctionDecl.callWithin_calls rounds declarations hguard hdepth .empty) hready hbody hconcrete
  have hrun : event.run declarations depth rounds =
      Stmt.runIn ⟨declarations, .empty, FunctionDecl.callWithin declarations rounds depth⟩ rounds
        [event.frame trigger] event.body >>= fun _ => (pure () : Computation target Unit) := by
    simp only [run, hfind, ofOption, pure_bind]
  rw [hrun]
  exact (Stmt.runIn_performs hsim ⟨rfl, htypes, hframes⟩ hloop).map fun _ _ _ => trivial

end EventDecl

/-! ## Programs -/

/-- A rule does what an event does, whatever the target is and whatever the array holds at the
start: for every bound on rounds, both have the same effects and end in the same way, and the rule
ends normally if the event ends. Once the event is undefined, the rule may do anything. -/
def Rule.Implements (declarations : Declarations) (maxInlineDepth : Nat) (event : EventDecl)
    (rule : Rule) : Prop :=
  ∀ (target : Target) (rounds depth : Nat) (cells : Cells target), maxInlineDepth ≤ depth →
    Simulates (fun _ p => p.1 = .normal) (event.run declarations depth rounds)
      (runWith (rule.run (fun _ _ => true) rounds) cells)

namespace Program

/-- What holds of the rule of each event, in whatever state the event is lowered. -/
theorem lowerEvents_forall₂ {declarations : Declarations} {maxInlineDepth : Nat}
    {events : List EventDecl} {rules : List Rule} {st st' : LowerState}
    {P : EventDecl → Rule → Prop}
    (hroom : ∀ event ∈ events, Stmt.nestingBody event.body + 1 +
      Declarations.callNesting [] declarations.functions.entries < Slots.hiddenDepth)
    (hs : st.slots.Valid) (h : lowerEvents declarations maxInlineDepth events st = .ok rules st')
    (hP : ∀ event ∈ events, ∀ rule s s', s.slots.Valid → s'.slots.Extends st'.slots →
      event.lower declarations maxInlineDepth s = .ok rule s' → P event rule) :
    List.Forall₂ P events rules := by
  induction events generalizing st rules with
  | nil =>
    obtain ⟨rfl, -⟩ := lowerEvents_nil_ok h
    exact .nil
  | cons event events ih =>
    obtain ⟨rule, t, rest, hevent, hrest, rfl⟩ := lowerEvents_cons_ok h
    have hone : lowerEvents declarations maxInlineDepth [event] st = .ok [rule] t := by
      simp only [lowerEvents, Lower.bind_ok, Lower.pure_ok]
      exact ⟨rule, t, hevent, [], t, ⟨rfl, rfl⟩, rfl, rfl⟩
    have hvalid : t.slots.Valid := by
      refine (lowerEvents_kept (fun e he => ?_) hs hone).1
      rw [List.mem_singleton.mp he]
      exact hroom event List.mem_cons_self
    have hothers : ∀ e ∈ events, Stmt.nestingBody e.body + 1 +
        Declarations.callNesting [] declarations.functions.entries < Slots.hiddenDepth :=
      fun e he => hroom e (List.mem_cons_of_mem _ he)
    have hextend := (lowerEvents_kept hothers hvalid hrest).2
    exact .cons (hP event List.mem_cons_self rule st t hs hextend hevent)
      (ih hothers hvalid hrest fun e he => hP e (List.mem_cons_of_mem _ he))

/-- **Lowering preserves meaning.** Every event of a program has a rule with its name and its
trigger, and the rule does what the event does. -/
theorem lower_implements {options : Options} {program : Program} {rules : List Rule}
    {st : LowerState} (h : program.lower options = .ok rules st)
    (hnesting : program.nesting < Slots.hiddenDepth) : ∃ declarations,
      Declarations.collect program = .ok declarations ∧
      List.Forall₂
        (fun event rule => rule.name = event.name ∧
          (EventDef.find? event.name).map (·.target) = some rule.trigger ∧
          rule.Implements declarations options.maxInlineDepth event)
        program.events rules := by
  obtain ⟨declarations, t, hcollect, hlower⟩ := lower_ok h
  have hroom := events_room hcollect hnesting
  refine ⟨declarations, hcollect, lowerEvents_forall₂ hroom (Slots.valid_empty _) hlower ?_⟩
  intro event hevent rule s s' hs _ hrule
  have hrule' := hrule
  obtain ⟨trigger, scopes, body, t', hfind, -, -, -, rfl⟩ := EventDecl.lower_ok hrule'
  refine ⟨rfl, by simp [hfind], fun target rounds depth cells hdepth => ?_⟩
  refine SimulatesVia.mono (EventDecl.lower_performs cells Guard.Sound.all hdepth hs
    (hroom event hevent) hrule (fun _ _ => trivial) fun _ _ _ _ => ?_) fun _ p hp => hp.1
  exact fun _ _ _ _ => rfl

/-- A program that counts up to a limit which a function gives, and skips a round. -/
def countedCalls : Program :=
  let z := Span.zero
  let number : TypeExpr := .named z "number"
  ⟨[.function ⟨"limit", [], [⟨"x", number, z⟩], some number,
      [.branch z (.binary z .lt (.ident z "x") (.number z 1.0)) [.ret z (some (.number z 3.0))]
        (some [.ret z (some (.ident z "x"))])], z⟩,
    .event ⟨"server", [],
      [.declare z "x" none (some (.number z 0.0)) false,
        .count z "i" (.number z 0.0) (.call z "limit" [.ident z "x"])
          [.branch z (.binary z .eq (.ident z "i") (.number z 1.0)) [.next z] none,
            .assign z "x" (.binary z .add (.ident z "x") (.ident z "i"))],
        .call z "wait" [.ident z "x"]], z⟩]⟩

theorem lower_implements_countedCalls :
    countedCalls.nesting < Slots.hiddenDepth ∧ ∃ rules st, countedCalls.lower {} = .ok rules st ∧
      ∃ declarations, Declarations.collect countedCalls = .ok declarations ∧
        List.Forall₂
          (fun event rule => rule.name = event.name ∧
            (EventDef.find? event.name).map (·.target) = some rule.trigger ∧
            rule.Implements declarations ({} : Options).maxInlineDepth event)
          countedCalls.events rules := by
  have hnesting : countedCalls.nesting < Slots.hiddenDepth := by decide
  obtain ⟨rules, st, h⟩ : ∃ rules st, countedCalls.lower {} = .ok rules st :=
    exists_of_lowers (by decide +kernel)
  exact ⟨hnesting, rules, st, h, lower_implements h hnesting⟩

end Program

end RuleScript
