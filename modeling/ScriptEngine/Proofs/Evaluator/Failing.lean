import ScriptEngine.Proofs.Task.Failing

/-! # What nodes fail with

If whatever a node asks for fails with errors of a kind only, then so does the node, provided that errors of
the kind stay so when they are given its place.  The proofs follow the definitions of the evaluator.

One place is given to errors by statements that is not their own: that of a single right side, which is
evaluated on behalf of the statement where it stands for two targets (`StmtKind.rightSide?`).
-/
namespace ScriptEngine

open Eval (Fails HandsOn)

/-- The single right side of a declaration or an assignment. -/
def StmtKind.rightSide? : StmtKind → Option Expr
  | .var _ [e] | .assign _ [e] => some e
  | _ => none

/-- **Whatever the evaluator is asked for fails with such errors only.** -/
class Evaluator.Failing (E : EvalError → Prop) (ev : Evaluator) : Prop where
  expr : ∀ e scope, Fails E (ev.expr e scope)
  stmt : ∀ stmt scope frame, Fails E (ev.stmt stmt scope frame)
  inner : ∀ block scope frame, Fails E (ev.inner block scope frame)
  body : ∀ block scope, Fails E (ev.body block scope)
  call : ∀ callee args spread, Fails E (ev.call callee args spread)

namespace Evaluator.Failing
variable {E : EvalError → Prop} {ev : Evaluator}

attribute [instance] expr stmt inner body call

variable [TakesFaults E] [ev.Failing E]

/-! ## Sequences -/

instance (scope : ScopeId) (es : List Expr) : Fails E (ev.exprs scope es) := by
  induction es with
  | nil => exact inferInstanceAs (Fails E (pure []))
  | cons e rest ih =>
    unfold Evaluator.exprs
    infer_instance

instance (scope : ScopeId) (frame : FrameId) (last : Value) (block : Block) :
    Fails E (ev.blockFrom scope frame last block) := by
  induction block generalizing last with
  | nil => exact inferInstanceAs (Fails E (pure _))
  | cons stmt rest ih =>
    refine Fails.bind inferInstance fun flow => ?_
    cases flow <;> infer_instance

instance (block : Block) (scope : ScopeId) (frame : FrameId) : Fails E (ev.block block scope frame) :=
  inferInstanceAs (Fails E (ev.blockFrom _ _ _ _))

instance (block : Block) (scope : ScopeId) (frame : FrameId) :
    Fails E (ev.evalInner block scope frame) := by
  unfold Evaluator.evalInner
  infer_instance

instance (e : Expr) (scope : ScopeId) : Fails E (ev.channel e scope) := by
  refine Fails.bind inferInstance fun v => ?_
  cases v <;> infer_instance

/-! ## Calls -/

instance (callee : Value) (definition : FuncDef) (selfBound : Bool) (fixed : List Value)
    (rest : Option (List Value)) (scope : ScopeId) :
    Fails E (bindParams callee definition selfBound fixed rest scope) := by
  have hrest : Fails E (do
      Eval.defineAll scope (definition.params.zip fixed)
      match rest, definition.params.getLast? with
      | some rest, some name => Eval.define scope name (← Eval.alloc (·.addPlainList rest.toArray))
      | _, _ => pure ()) := by
    refine Fails.bind inferInstance fun _ => ?_
    split <;> infer_instance
  unfold Evaluator.bindParams
  cases selfBound with
  | false => exact hrest
  | true =>
    cases definition.name with
    | none => exact hrest
    | some name => exact Fails.bind inferInstance fun _ => hrest

instance (callee : Value) (definition : FuncDef) (around : ScopeId) (selfBound : Bool)
    (args : List Value) (spread : Bool) :
    Fails E (ev.callScript callee definition around selfBound args spread) := by
  have hresult (flow : Flow) : Fails E (match flow with
      | .value _ => return .nil
      | .ret v => return v
      | flow => Eval.failWith (flow.keyword ++ " outside of a loop") : Eval Value) := by
    cases flow <;> infer_instance
  unfold Evaluator.callScript
  split <;> infer_instance

instance (callee : Value) (items : List Value) : Fails E (ev.callEach callee items) := by
  induction items with
  | nil => exact inferInstanceAs (Fails E (pure []))
  | cons item rest ih =>
    unfold Evaluator.callEach
    infer_instance

instance (args : List Value) (action : HostAction) : Fails E (ev.act args action) := by
  unfold Evaluator.act
  split <;> first | infer_instance | (split <;> infer_instance)

instance (f : HostFunction) (args : List Value) (spread : Bool) :
    Fails E (ev.callHost f args spread) := by
  unfold Evaluator.callHost
  infer_instance

instance (callee : Value) (args : List Value) (spread : Bool) :
    Fails E (ev.callValue callee args spread) := by
  have hcall (f : Function) : Fails E (match f with
      | .script definition around selfBound =>
        ev.callScript callee definition around selfBound args spread
      | .host f => ev.callHost f args spread) := by
    cases f <;> infer_instance
  cases callee <;> unfold Evaluator.callValue <;> infer_instance

/-! ## Expressions -/

instance (target : Expr) (scope : ScopeId) : Fails E (ev.place target scope) := by
  unfold Evaluator.place
  split
  · infer_instance
  · infer_instance
  · refine Fails.bind inferInstance fun package => ?_
    cases package <;> infer_instance
  · infer_instance

instance (scope : ScopeId) (e : Option Expr) : Fails E (ev.optional scope e) := by
  cases e <;> unfold Evaluator.optional <;> infer_instance

instance (op : BinaryOp) (left right : Expr) (scope : ScopeId) :
    Fails E (ev.binary op left right scope) := by
  refine Fails.bind inferInstance fun l => Fails.bind inferInstance fun b => ?_
  split <;> infer_instance

instance (object : Expr) (start stop : Option Expr) (scope : ScopeId) :
    Fails E (ev.slice object start stop scope) := by
  unfold Evaluator.slice
  infer_instance

instance (callee : Expr) (args : List Expr) (scope : ScopeId) :
    Fails E (ev.callParts callee args scope) := by
  unfold Evaluator.callParts
  infer_instance

instance (scope : ScopeId) (map : MapId) (fields : List (Expr × Expr)) :
    Fails E (ev.entries scope map fields) := by
  induction fields with
  | nil => exact inferInstanceAs (Fails E (pure ()))
  | cons field rest ih =>
    unfold Evaluator.entries
    infer_instance

instance (types : Option (TypeExpr × TypeExpr)) (fields : List (Expr × Expr)) (scope : ScopeId) :
    Fails E (ev.mapLiteral types fields scope) := by
  unfold Evaluator.mapLiteral
  cases types <;> infer_instance

instance (elemType : Option TypeExpr) (items : List Expr) (scope : ScopeId) :
    Fails E (ev.listLiteral elemType items scope) := by
  refine Fails.bind inferInstance fun items => ?_
  cases elemType <;> infer_instance

instance (target : Expr) (op : UpdateOp) (scope : ScopeId) : Fails E (ev.update target op scope) := by
  unfold Evaluator.update
  infer_instance

instance (channel : Expr) (scope : ScopeId) : Fails E (ev.receive channel scope) := by
  unfold Evaluator.receive
  infer_instance

instance (scope : ScopeId) (kind : ExprKind) : Fails E (ev.dispatchExpr scope kind) := by
  unfold Evaluator.dispatchExpr
  split <;> try infer_instance
  -- a member of a package, or of a value
  refine Fails.bind inferInstance fun package => ?_
  cases package <;> infer_instance

instance (e : Expr) (scope : ScopeId) [KeptAt E e.pos] : Fails E (ev.evalExpr e scope) := by
  unfold Evaluator.evalExpr
  infer_instance

instance (e : Expr) (scope : ScopeId) [KeptAt E e.pos] : Fails E (ev.commaOk e scope) := by
  unfold Evaluator.commaOk
  split
  · refine Fails.bind inferInstance fun _ => Fails.bind inferInstance fun target =>
      Fails.bind inferInstance fun i => ?_
    cases target <;> infer_instance
  · infer_instance
  · infer_instance

/-! ## Loops -/

omit [TakesFaults E] [ev.Failing E] in
/-- A loop goes on after a round, or ends with what left it. -/
theorem afterRound {m : Eval LoopStep} {next : Eval Flow} [Fails E m] [hnext : Fails E next] :
    Fails E (m >>= fun step => match step with
      | .next => next
      | .exit => return .unit
      | .leave flow => return flow) := by
  refine Fails.bind inferInstance fun step => ?_
  cases step <;> infer_instance

omit [ev.Failing E] in
instance {round : Eval LoopStep} [Fails E round] (rounds : Nat) : Fails E (Eval.loop round rounds) := by
  induction rounds with
  | zero => exact inferInstanceAs (Fails E Eval.outOfFuel)
  | succ rounds ih => exact afterRound

section
variable {round : List Value → Eval LoopStep} [∀ row, Fails E (round row)]

omit [ev.Failing E] in
instance (pick : Value × Value → List Value) (rows : List (Value × Value)) :
    Fails E (Eval.forRows pick round rows) := by
  induction rows with
  | nil => exact inferInstanceAs (Fails E (pure _))
  | cons row rest ih => exact afterRound

omit [ev.Failing E] in
instance (count i : Nat) : Fails E (Eval.forCount round count i) := by
  induction count generalizing i with
  | zero => exact inferInstanceAs (Fails E (pure _))
  | succ count ih => exact afterRound

omit [ev.Failing E] in
instance (chan : ChanId) (signal : SignalId) (waits rounds : Nat) :
    Fails E (Eval.forReceived chan signal waits round rounds) := by
  induction rounds with
  | zero => exact inferInstanceAs (Fails E Eval.outOfFuel)
  | succ rounds ih =>
    refine Fails.bind inferInstance fun received => ?_
    split
    · infer_instance
    · exact afterRound

end

instance (condition : Option Expr) (scope : ScopeId) : Fails E (ev.holds condition scope) := by
  unfold Evaluator.holds
  cases condition <;> infer_instance

instance (condition : Option Expr) (body : Block) (scope : ScopeId) (frame : FrameId) :
    Fails E (ev.conditional condition body scope frame) := by
  unfold Evaluator.conditional
  infer_instance

instance (condition : Option Expr) (body : Block) (scope : ScopeId) (frame : FrameId) :
    Fails E (ev.whileLoop condition body scope frame) :=
  inferInstanceAs (Fails E (Eval.loop _ _))

instance (condition : Option Expr) (post : Option Stmt) (body : Block) (scope : ScopeId)
    (frame : FrameId) : Fails E (ev.clauseRound condition post body scope frame) := by
  refine Fails.bind inferInstance fun step => ?_
  split <;> infer_instance

instance (init : Option Stmt) (condition : Option Expr) (post : Option Stmt) (body : Block)
    (scope : ScopeId) (frame : FrameId) :
    Fails E (ev.clauseLoop init condition post body scope frame) := by
  unfold Evaluator.clauseLoop
  cases init <;> infer_instance

instance (init : Option Stmt) (condition : Option Expr) (post : Option Stmt) (body : Block)
    (scope : ScopeId) (frame : FrameId) :
    Fails E (ev.forClause init condition post body scope frame) := by
  unfold Evaluator.forClause
  infer_instance

instance (vars : List String) (body : Block) (scope : ScopeId) (frame : FrameId) (row : List Value) :
    Fails E (ev.iteration vars body scope frame row) := by
  unfold Evaluator.iteration
  infer_instance

instance (vars : List String) (chan : ChanId) (body : Block) (scope : ScopeId) (frame : FrameId) :
    Fails E (ev.forChannel vars chan body scope frame) := by
  unfold Evaluator.forChannel
  infer_instance

instance (vars : List String) (iterable : Expr) (body : Block) (scope : ScopeId) (frame : FrameId) :
    Fails E (ev.forIn vars iterable body scope frame) := by
  have hrows (v : Value) : Fails E (match v with
      | .list id => do
        let rows ← Eval.readHeap fun h => numbered (h.list id).items.toList
        Eval.forRows (fun (k, v) => if vars.length = 2 then [k, v] else [v])
          (ev.iteration vars body scope frame) rows
      | .map id => do
        let rows ← Eval.readHeap fun h => (h.map id).entries.map fun (k, v) => (k.toValue, v)
        Eval.forRows (fun (k, v) => if vars.length = 2 then [k, v] else [k])
          (ev.iteration vars body scope frame) rows
      | .str s =>
        Eval.forRows (fun (k, v) => if vars.length = 2 then [k, v] else [v])
          (ev.iteration vars body scope frame) (numbered (s.toList.map fun c => .str (String.ofList [c])))
      | .int n => Eval.forCount (ev.iteration vars body scope frame) n.toInt.toNat 0
      | .chan chan => ev.forChannel vars chan body scope frame
      | .nil => return .unit
      | v => do Eval.failWith ("cannot range over " ++ (← Eval.typeName v))) := by
    cases v <;> infer_instance
  have hall := Fails.bind (inferInstance : Fails E (ev.expr iterable scope)) hrows
  unfold Evaluator.forIn
  split
  · exact hall
  · exact Fails.bind inferInstance fun _ => hall

/-! ## Assignment -/

omit [ev.Failing E] in
instance {α : Type} (targets values : Nat) :
    Fails E (Evaluator.mismatchedCount targets values : Eval α) :=
  inferInstanceAs (Fails E (Eval.failWith _))

omit [ev.Failing E] in
instance (count : Nat) (v : Value × Option Bool) : Fails E (Evaluator.spreadValue count v) := by
  unfold Evaluator.spreadValue
  split
  split <;> infer_instance

theorem values {exprs : List Expr} (hright : ∀ e, exprs = [e] → KeptAt E e.pos) (count : Nat)
    (scope : ScopeId) : Fails E (ev.values exprs count scope) := by
  unfold Evaluator.values
  split
  · infer_instance
  · split
    · infer_instance
    · split
      · rename_i e _ _
        have := hright e rfl
        infer_instance
      · infer_instance

instance (scope : ScopeId) (last : Value) (targets : List Expr) (vs : List Value) :
    Fails E (ev.assignAll scope last targets vs) := by
  induction targets generalizing vs last with
  | nil => exact inferInstanceAs (Fails E (pure last))
  | cons target targets ih =>
    cases vs with
    | nil => exact inferInstanceAs (Fails E (pure last))
    | cons v vs =>
      unfold Evaluator.assignAll
      infer_instance

instance (target : Expr) (op : BinaryOp) (e : Expr) (scope : ScopeId) :
    Fails E (ev.opAssign target op e scope) := by
  unfold Evaluator.opAssign
  infer_instance

/-! ## Choice -/

instance (subject : Value) (scope : ScopeId) (candidates : List Expr) :
    Fails E (ev.matching subject scope candidates) := by
  induction candidates with
  | nil => exact inferInstanceAs (Fails E (pure none))
  | cons e rest ih =>
    unfold Evaluator.matching
    infer_instance

instance (subject : Value) (scope : ScopeId) (cases : List SwitchCase) :
    Fails E (ev.matchingCase subject scope cases) := by
  induction cases with
  | nil => exact inferInstanceAs (Fails E (pure none))
  | cons c rest ih =>
    obtain ⟨candidates, body⟩ := c
    refine Fails.bind inferInstance fun found => ?_
    cases found <;> infer_instance

instance (discriminant : Expr) (cases : List SwitchCase) (default : Option Block) (scope : ScopeId)
    (frame : FrameId) : Fails E (ev.switch discriminant cases default scope frame) := by
  have hchosen (subject : Value) : Fails E (do
      match ← ev.matchingCase subject scope cases, default with
      | some (candidate, body), _ =>
        return (← Eval.holdingValue candidate (ev.inner body scope frame)).consumeBreak
      | none, some body => return (← ev.inner body scope frame).consumeBreak
      | none, none => return .value subject) := by
    refine Fails.bind inferInstance fun found => ?_
    split <;> infer_instance
  unfold Evaluator.switch
  infer_instance

instance (condition : Expr) (thenBlock : Block) (elseBlock : Option Block) (scope : ScopeId)
    (frame : FrameId) : Fails E (ev.ifElse condition thenBlock elseBlock scope frame) := by
  refine Fails.bind inferInstance fun v => Fails.bind inferInstance fun b => ?_
  split <;> infer_instance

instance (scope : ScopeId) (op : SelectOp) : Fails E (ev.prepareCase scope op) := by
  cases op <;> unfold Evaluator.prepareCase <;> infer_instance

instance (scope : ScopeId) (cases : List SelectCase) : Fails E (ev.prepareCases scope cases) := by
  induction cases with
  | nil => exact inferInstanceAs (Fails E (pure []))
  | cons c rest ih =>
    unfold Evaluator.prepareCases
    infer_instance

instance (c : SelectCase) (received : Option (Value × Bool)) (scope : ScopeId) (frame : FrameId) :
    Fails E (ev.takeCase c received scope frame) := by
  unfold Evaluator.takeCase
  infer_instance

instance (cases : List SelectCase) (default : Option Block) (scope : ScopeId) (frame : FrameId) :
    Fails E (ev.select cases default scope frame) := by
  have htaken (ops : List (ChanId × Option Value)) (signal : SignalId) (receivers : List ChanId) :
      Fails E (do
        match ← Eval.receivingAll receivers
            (Eval.awaitCase ops default.isSome signal ev.rounds), default with
        | some (index, received), _ =>
          match cases[index]? with
          | some c => ev.takeCase c received scope frame
          | none => return .unit
        | none, some body => return (← ev.inner body scope frame).consumeBreak
        | none, none => return .unit) := by
    refine Fails.bind inferInstance fun chosen => ?_
    split
    · split <;> infer_instance
    · infer_instance
    · infer_instance
  unfold Evaluator.select
  infer_instance

/-! ## Functions, modules and tasks -/

omit [ev.Failing E] in
instance (definition : FuncDef) (scope : ScopeId) :
    Fails E (Evaluator.declareFunc definition scope) := by
  unfold Evaluator.declareFunc
  split <;> infer_instance

instance (exprs : List Expr) (scope : ScopeId) : Fails E (ev.returned exprs scope) := by
  unfold Evaluator.returned
  split <;> infer_instance

instance (name : String) (body : Block) (scope : ScopeId) :
    Fails E (ev.declareModule name body scope) := by
  have hinside (inner : ScopeId) : Fails E (do
      match ← ev.body body inner with
      | .value _ =>
        Eval.definePackage scope name inner
        Eval.modify (·.capture inner)
        return .unit
      | flow => Eval.failWith (flow.keyword ++ " is not allowed in module " ++ name) : Eval Flow) := by
    refine Fails.bind inferInstance fun flow => ?_
    cases flow <;> infer_instance
  unfold Evaluator.declareModule
  infer_instance

instance (keyword : String) (e : Expr) (scope : ScopeId) :
    Fails E (ev.preparedCall keyword e scope) := by
  unfold Evaluator.preparedCall
  split <;> infer_instance

instance (channel value : Expr) (scope : ScopeId) : Fails E (ev.sendValue channel value scope) := by
  unfold Evaluator.sendValue
  infer_instance

/-! ## What looks at errors -/

omit [TakesFaults E] [ev.Failing E] in
theorem firstError_in {outcome : Except EvalError Flow} {result : Except EvalError Value}
    (ho : FailsIn E outcome) (hr : FailsIn E result) : FailsIn E (firstError outcome result) := by
  cases outcome with
  | error e => exact ho
  | ok flow =>
    cases result with
    | error e =>
      intro e' he'
      cases he'
      exact hr e rfl
    | ok v => exact nofun

omit [TakesFaults E] in
theorem runCalls (frame : FrameId) (calls : List DeferredCall) {outcome : Except EvalError Flow}
    (ho : FailsIn E outcome) : HandsOn E (ev.runCalls frame calls outcome) := by
  induction calls generalizing outcome with
  | nil => exact .pure ho
  | cons call rest ih =>
    refine .after inferInstance fun _ => ?_
    refine (HandsOn.attempt inferInstance |>.holding _).bind fun result hr => ?_
    exact ih (firstError_in ho hr)

instance (block : Block) (scope : ScopeId) : Fails E (ev.evalBody block scope) := by
  have hinside (frame : FrameId) : Fails E (do
      let outcome ← Eval.attempt (ev.block block scope frame)
      MonadExcept.ofExcept (← ev.runCalls frame (← Eval.deferred frame) outcome)) := by
    refine (HandsOn.attempt inferInstance).thenFails fun outcome ho => ?_
    refine Fails.bind inferInstance fun calls => ?_
    exact (runCalls frame calls ho).thenFails fun outcome ho => .ofExcept ho
  unfold Evaluator.evalBody Eval.inFrame
  infer_instance

theorem handle (e : EvalError) (catchVar : Option String) (handler : Block) (scope : ScopeId)
    (frame : FrameId) : HandsOn E (ev.handle e catchVar handler scope frame) := by
  refine .after inferInstance fun v => .holding (.value v) (.after inferInstance fun inner =>
    .holding (.block inner) ?_)
  have hblock : HandsOn E (Eval.attempt (ev.block handler inner frame)) := .attempt inferInstance
  cases catchVar with
  | none => exact hblock
  | some name => exact .after inferInstance fun _ => hblock

theorem handled (body : Block) (catchVar : Option String) (handler : Option Block) (scope : ScopeId)
    (frame : FrameId) : HandsOn E (ev.handled body catchVar handler scope frame) := by
  refine (HandsOn.attempt inferInstance).bind fun first hfirst => ?_
  split
  · split
    · exact handle _ catchVar _ scope frame
    · exact .pure hfirst
  · exact .pure hfirst

omit [TakesFaults E] in
theorem finish (last : Option Block) (scope : ScopeId) (frame : FrameId)
    {outcome : Except EvalError Flow} (ho : FailsIn E outcome) :
    Fails E (ev.finish last scope frame outcome) := by
  have hout : Fails E (MonadExcept.ofExcept outcome : Eval Flow) := .ofExcept ho
  cases last with
  | none => exact hout
  | some last =>
    refine Fails.bind inferInstance fun flow => ?_
    cases flow <;> infer_instance

instance (body : Block) (catchVar : Option String) (handler last : Option Block) (scope : ScopeId)
    (frame : FrameId) : Fails E (ev.tryCatch body catchVar handler last scope frame) :=
  (handled body catchVar handler scope frame).thenFails fun _ ho => finish last scope frame ho

/-! ## Statements -/

theorem dispatchStmt (scope : ScopeId) (frame : FrameId) {kind : StmtKind}
    (hright : ∀ e, kind.rightSide? = some e → KeptAt E e.pos) :
    Fails E (ev.dispatchStmt scope frame kind) := by
  cases kind with
  | var names exprs =>
    have hvalues : Fails E (ev.values exprs names.length scope) :=
      values (fun e he => hright e (by rw [he]; rfl)) _ scope
    exact Fails.bind hvalues fun vs => inferInstance
  | assign targets exprs =>
    have hvalues : Fails E (ev.values exprs targets.length scope) :=
      values (fun e he => hright e (by rw [he]; rfl)) _ scope
    exact Fails.bind hvalues fun vs => inferInstance
  | _ => unfold Evaluator.dispatchStmt; infer_instance

theorem evalStmt (stmt : Stmt) (scope : ScopeId) (frame : FrameId) [KeptAt E stmt.pos]
    (hright : ∀ e, stmt.kind.rightSide? = some e → KeptAt E e.pos) :
    Fails E (ev.evalStmt stmt scope frame) := by
  have : Fails E (ev.dispatchStmt scope frame stmt.kind) := dispatchStmt scope frame hright
  unfold Evaluator.evalStmt
  infer_instance

theorem program (script : Block) (scope : ScopeId) : Fails E (ev.program script scope) := by
  refine Fails.bind inferInstance fun flow => ?_
  cases flow <;> infer_instance

end Evaluator.Failing
end ScriptEngine
