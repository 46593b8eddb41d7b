import ScriptEngine.Proofs.DeferredCalls
import ScriptEngine.Proofs.Evaluator.Entering

/-! # Returned values

A `return` may stand deep inside the statements of a function.  When it has evaluated its operands, the
function is over but for its deferred calls: every statement around the `return` lets go of what it
holds and passes the value on, none of them runs anything more, and the call gives the value, unless a
deferred call fails (`return_ends_call`).

Where a `return` may stand is said by `Evaluator.Returns`, along the blocks that statements come to:
branches, cases, the body of a loop in any of its rounds, the body and the handler of a `try` that has no
last block.  The first and the last clause of a loop are not among these places: what they end with is
dropped, be it a `return` (`return_in_clause_dropped`).
-/
namespace ScriptEngine.Evaluator

open Eval

/-! ## Where a `return` is reached -/

/-- **These statements have been passed**: each of them has ended with a value. The value so far was
`last` before them. -/
inductive Passed (ev : Evaluator) (scope : ScopeId) (frame : FrameId) :
    Block → Value → EngineState → List EngineState → Value → EngineState → Prop where
  | nil (last : Value) (s : EngineState) : Passed ev scope frame [] last s [] last s
  | cons {stmt : Stmt} {rest : Block} {last v w : Value} {s t u : EngineState}
    {first path : List EngineState}
    (hstmt : (holdingValue last (ev.stmt stmt scope frame)).Runs s first (.ok (.value v)) t)
    (hrest : Passed ev scope frame rest v t path w u) :
    Passed ev scope frame (stmt :: rest) last s (first ++ path) w u

/-- **A statement comes to a block of its own**, in the scope in which the block runs. The block is
evaluated with as much fuel, or with less. -/
inductive Enters (run : RunId) (scope : ScopeId) (frame : FrameId) (s : EngineState) :
    (fuel : Nat) → StmtKind → List EngineState → (fuel' : Nat) → Block → ScopeId → EngineState →
      (held : Nat) → Prop where
  | inner {fuel held : Nat} {kind : StmtKind} {path : List EngineState} {body : Block}
    {around own : ScopeId} {t u : EngineState}
    (henters : (ofFuel run (fuel + 1)).EntersInner scope frame s kind path body around t held)
    (hopen : openScope around t = .done u (.ok own)) :
    Enters run scope frame s (fuel + 1) kind path fuel body own (u.hold (.block own)) (held + 1)
  | block {fuel held : Nat} {kind : StmtKind} {path : List EngineState} {body : Block}
    {own : ScopeId} {t : EngineState}
    (henters : (ofFuel run fuel).EntersBlock scope frame s kind path body own t held) :
    Enters run scope frame s fuel kind path fuel body own t held

/-- **A `return` of the block has evaluated its operands**, to `v`, at the end of this path: a `return`
among the statements of the block, or one in a block that one of its statements has come to.  The
number tells how many things are held on account of what stands around the `return`. -/
inductive Returns (run : RunId) (frame : FrameId) : (fuel : Nat) → Block → ScopeId → EngineState →
    List EngineState → Value → EngineState → (held : Nat) → Prop where
  | here {fuel : Nat} {before after : Block} {exprs : List Expr} {pos : Position} {scope : ScopeId}
    {last v : Value} {first middle rest : List EngineState} {s t u w : EngineState}
    (hbefore : (ofFuel run (fuel + 1)).Passed scope frame before .nil s first last t)
    (hcheck : (checkpoint run).Runs (t.hold (.value last)) middle (.ok ()) u)
    (hreturned : ((ofFuel run fuel).returned exprs scope).Runs u rest (.ok v) w) :
    Returns run frame (fuel + 1) (before ++ .mk (.ret exprs) pos :: after) scope s
      (first ++ (middle ++ rest)) v w 1
  | inside {fuel fuel' held more : Nat} {before after body : Block} {kind : StmtKind}
    {pos : Position} {scope own : ScopeId} {last v : Value}
    {first middle next rest : List EngineState} {s t u w x : EngineState}
    (hbefore : (ofFuel run (fuel + 1)).Passed scope frame before .nil s first last t)
    (hcheck : (checkpoint run).Runs (t.hold (.value last)) middle (.ok ()) u)
    (henters : Enters run scope frame u fuel kind next fuel' body own w held)
    (hinside : Returns run frame fuel' body own w rest v x more) :
    Returns run frame (fuel + 1) (before ++ .mk kind pos :: after) scope s
      (first ++ (middle ++ (next ++ rest))) v x (held + 1 + more)

/-! ## Blocks pass it on -/

section
variable {run : RunId} {ev : Evaluator} {scope own : ScopeId} {frame : FrameId}
  {s t : EngineState} {path : List EngineState}

theorem Passed.leads {before after : Block} {last w : Value}
    (h : ev.Passed scope frame before last s path w t) :
    (ev.blockFrom scope frame last (before ++ after) s).Leads path
      (ev.blockFrom scope frame w after t) := by
  induction h with
  | nil last s => exact .refl _
  | cons hstmt hrest ih => exact (hstmt.leads rfl).trans ih

theorem Enters.relays {fuel fuel' held : Nat} {kind : StmtKind} {body : Block}
    (h : Enters run scope frame s fuel kind path fuel' body own t held) :
    ((ofFuel run fuel).dispatchStmt scope frame kind s).Relays .ret path
      ((ofFuel run fuel').block body own frame t) .ret held := by
  cases h with
  | block henters => exact henters.relays
  | @inner _ held _ _ _ around _ t u henters hopen =>
    have hinner : ((ofFuel run (fuel' + 1)).inner body around frame t).Relays .ret []
        ((ofFuel run fuel').block body own frame (u.hold (.block own))) Flow.ret 1 :=
      (runs_openScope.mpr ⟨rfl, hopen⟩).relays (relays_holding (.refl _))
    have hstmt := henters.relays.trans hinner
    rwa [List.append_nil] at hstmt

/-- A `return` ends a block: what comes after it is not run. -/
theorem relays_stmt {fuel held : Nat} (stmt : Stmt) {last : Value} (after : Block)
    {y : Step (Except EvalError Flow)} {middle rest : List EngineState} {u : EngineState}
    (hcheck : (checkpoint run).Runs (s.hold (.value last)) middle (.ok ()) u)
    (hstmt : ((ofFuel run fuel).dispatchStmt scope frame stmt.kind u).Relays .ret rest y .ret held) :
    ((ofFuel run (fuel + 1)).blockFrom scope frame last (stmt :: after) s).Relays .ret (middle ++ rest) y
      .ret (held + 1) := by
  refine relays_bind (f := .ret) (relays_holding ?_) fun _ _ => rfl
  rw [ofFuel_stmt]
  exact hcheck.relays (relays_located hstmt)

/-- **A block ends with the `return` that is reached in it**, there and then. -/
theorem Returns.runs {fuel held : Nat} {block : Block} {v : Value}
    (h : Returns run frame fuel block scope s path v t held) :
    ((ofFuel run fuel).block block scope frame).Runs s path (.ok (.ret v))
      (EngineState.letGo^[held] t) := by
  induction h with
  | @here fuel before after exprs pos scope last v first middle rest s t u w hbefore hcheck
      hreturned =>
    have hret : ((ofFuel run fuel).dispatchStmt scope frame (.ret exprs)).Runs u rest (.ok (.ret v)) w :=
      runs_bind.mpr (.inl ⟨rest, [], v, w, (List.append_nil rest).symm, hreturned,
        runs_pure.mpr ⟨rfl, rfl, rfl⟩⟩)
    have hblock := Step.Relays.after_leads hbefore.leads
      (relays_stmt (.mk (.ret exprs) pos) after hcheck (.refl _))
    rw [List.append_nil] at hblock
    rw [← List.append_assoc]
    exact hblock.endsAlong hret
  | @inside fuel fuel' held more before after body kind pos scope own last v first middle next rest s
      t u w x hbefore hcheck henters hinside ih =>
    have hblock := Step.Relays.after_leads hbefore.leads
      (relays_stmt (.mk kind pos) after hcheck henters.relays)
    have hends := hblock.endsAlong ih
    rw [← Function.iterate_add_apply] at hends
    simp only [List.append_assoc] at hends
    exact hends

end

/-! ## Calls give it -/

/-- **A call of this closure comes to its body**, in the scope of the call, in which the parameters are
bound. -/
inductive CallBegins (args : List Value) (spread : Bool) (s : EngineState) :
    FuncId → FuncDef → ScopeId → EngineState → Prop where
  | mk {id : FuncId} {definition : FuncDef} {around scope : ScopeId} {selfBound : Bool}
    {fixed : List Value} {rest : Option (List Value)} {t u : EngineState}
    (hfunc : s.heap.func id = .script definition around selfBound)
    (hparams : (definition.variadic && definition.params.isEmpty) = false)
    (hargs : s.heap.bindArguments definition.displayName
      (definition.params.length - (if definition.variadic then 1 else 0)) definition.variadic args
      spread = .ok (fixed, rest))
    (hopen : openScope around ((s.hold (.value (.func id))).hold (.values (fixed ++ rest.getD []))) =
      .done t (.ok scope))
    (hbound : (bindParams (.func id) definition selfBound fixed rest scope).Runs
      (t.letGo.hold (.block scope)) [] (.ok ()) u) :
    CallBegins args spread s id definition scope u

/-- What a body makes of its outcome and of its deferred calls, when its frame is let go of. -/
def finishBody (r : Except EvalError (Except EvalError Flow)) (t : EngineState) :
    Step (Except EvalError Flow) :=
  (andThen MonadExcept.ofExcept r t).bind fun r t => .done t.letGo r

/-- What a call makes of the end of its body, when its scope and its callee are let go of. -/
def finishCall (r : Except EvalError Flow) (t : EngineState) : Step (Except EvalError Value) :=
  ((andThen endCall r t).bind fun r t => .done t.letGo r).bind fun r t => .done t.letGo r

section
variable {run : RunId} {fuel : Nat} {args : List Value} {spread : Bool} {id : FuncId}
  {definition : FuncDef} {scope : ScopeId} {s t u : EngineState} {path : List EngineState}

/-- A call is its body, once it has come to it. -/
theorem CallBegins.leads (h : CallBegins args spread s id definition scope t) (ev : Evaluator) :
    (ev.callValue (.func id) args spread s).Leads []
      ((ev.body definition.body scope t).bind finishCall) := by
  obtain ⟨hfunc, hparams, hargs, hopen, hbound⟩ := h
  rename_i around selfBound fixed rest u
  have hscope : (Eval.holding (.values (fixed ++ rest.getD [])) (openScope around)).Runs
      (s.hold (.value (.func id))) [] (.ok scope) u.letGo :=
    runs_holding.mpr ⟨u, runs_openScope.mpr ⟨rfl, hopen⟩, rfl⟩
  have hbind : (tryHeap (·.bindArguments definition.displayName
      (definition.params.length - (if definition.variadic then 1 else 0)) definition.variadic args
      spread)).Runs (s.hold (.value (.func id))) [] (.ok (fixed, rest))
      (s.hold (.value (.func id))) := by
    rw [Runs, tryHeap_apply, show (s.hold (.value (.func id))).heap.bindArguments _ _ _ args spread = _
      from hargs]
    exact .done _ _
  have hread : (readHeap (·.func id)).Runs (s.hold (.value (.func id))) []
      (.ok (.script definition around selfBound)) (s.hold (.value (.func id))) :=
    (runs_of_done rfl).mpr ⟨rfl, congrArg _ hfunc.symm, rfl⟩
  have hbody : (Eval.holding (.block scope) (do
      bindParams (.func id) definition selfBound fixed rest scope
      endCall (← ev.body definition.body scope)) u.letGo).Leads []
      ((ev.body definition.body scope t).bind fun r t =>
        (andThen endCall r t).bind fun r t => .done t.letGo r) := by
    rw [holding_apply, ← Step.bind_assoc]
    exact (hbound.leads (bind_apply _ _ _)).bind _
  have hcall : (ev.callScript (.func id) definition around selfBound args spread
      (s.hold (.value (.func id)))).Leads []
      ((ev.body definition.body scope t).bind fun r t =>
        (andThen endCall r t).bind fun r t => .done t.letGo r) := by
    rw [callScript, hparams, if_neg Bool.false_ne_true]
    exact (hbind.leads rfl).trans ((hscope.leads rfl).trans hbody)
  show (Eval.holding (.value (.func id)) _ s).Leads [] (Step.bind finishCall _)
  rw [holding_apply, show Step.bind finishCall _ = _ from (Step.bind_assoc _ _ _).symm]
  exact Step.Leads.bind (.trans (hread.leads rfl) hcall) _

/-- A body comes to the calls that it has deferred when its block has ended. -/
theorem leads_evalBody {ev : Evaluator} {block : Block} {outcome : Except EvalError Flow}
    (h : (ev.block block scope s.frames.next).Runs s.beginBody path outcome t) :
    (ev.evalBody block scope s).Leads path
      ((ev.runCalls s.frames.next ((t.frames.get? s.frames.next).getD []) outcome t).bind
        finishBody) := by
  have htried : (attempt (ev.block block scope s.frames.next)).Runs s.beginBody path (.ok outcome) t :=
    runs_attempt.mpr ⟨outcome, h, rfl⟩
  rw [evalBody, inFrame, bind_apply, update_apply, Step.bind_of_done, andThen_ok, holding_apply,
    show Step.bind finishBody _ = _ from (Step.bind_assoc _ _ _).symm]
  refine Step.Leads.bind (htried.leads ?_) _
  rw [bind_apply, deferred, read_apply, Step.bind_of_done, andThen_ok, bind_apply]

/-- What comes of a `return` and the deferred calls. -/
theorem finish_overall (v : Value) (results : List (Except EvalError Value)) (t : EngineState) :
    (finishBody (.ok (overall (.ok (.ret v)) results)) t).bind finishCall =
      .done t.letGo.letGo.letGo (overall (.ok v) results) := by
  unfold overall
  cases results.findSome? failureOf <;> rfl

theorem overall_ok (v : Value) (results : List (Except EvalError Value)) :
    overall (.ok v) results = .ok v ∨
      ∃ e, .error e ∈ results ∧ overall (.ok v) results = .error e := by
  unfold overall
  cases hfailed : results.findSome? failureOf with
  | none => exact .inl rfl
  | some e =>
    obtain ⟨result, hmem, hresult⟩ := List.exists_of_findSome?_eq_some hfailed
    cases result with
    | ok _ => cases hresult
    | error failure =>
      cases hresult
      exact .inr ⟨_, hmem, rfl⟩

/-- **A `return` ends the call.**  Let a call of a closure come to its body, and let a `return` of the
body evaluate its operands to `v`.  Then the call is, there and then, at the calls that the body has
deferred: nothing else of the body is run, and nothing has happened but that the statements around the
`return` have let go of what they held.  When the deferred calls have been made the call is over, and it
gives `v`, unless one of them fails. -/
theorem return_ends_call (run : RunId) (fuel : Nat) (args : List Value) (spread : Bool) (id : FuncId)
    (definition : FuncDef) (scope : ScopeId) (s t u : EngineState) (path : List EngineState)
    (v : Value) (held : Nat) (hbegins : CallBegins args spread s id definition scope t)
    (hreturns : Returns run t.frames.next fuel definition.body scope t.beginBody path v u held) :
    let after := EngineState.letGo^[held] u
    let calls := (after.frames.get? t.frames.next).getD []
    ((ofFuel run (fuel + 2)).call (.func id) args spread s).Leads path
      ((((ofFuel run fuel).runCalls t.frames.next calls (.ok (.ret v)) after).bind finishBody).bind
        finishCall) ∧
    ∀ rest r w, ((ofFuel run (fuel + 2)).call (.func id) args spread).Runs s (path ++ rest) r w ↔
      ∃ results x,
        (ofFuel run fuel).CallsMade t.frames.next calls (.ok (.ret v)) after rest results x ∧
        r = overall (.ok v) results ∧ w = x.letGo.letGo.letGo ∧
        (r = .ok v ∨ ∃ e, .error e ∈ results ∧ r = .error e) := by
  intro after calls
  have hbody := leads_evalBody hreturns.runs
  have hcall : ((ofFuel run (fuel + 2)).call (.func id) args spread s).Leads path
      ((((ofFuel run fuel).runCalls t.frames.next calls (.ok (.ret v)) after).bind finishBody).bind
        finishCall) :=
    (hbegins.leads (ofFuel run (fuel + 1))).trans (hbody.bind finishCall)
  refine ⟨hcall, fun rest r w => ?_⟩
  rw [Runs, hcall.endsAlong_iff, Step.bind_assoc, Step.endsAlong_bind]
  constructor
  · rintro ⟨first, last, o, x, rfl, hcalls, hfinish⟩
    obtain ⟨results, hmade, rfl⟩ := runs_runCalls.mp hcalls
    rw [finish_overall] at hfinish
    obtain ⟨rfl, rfl, rfl⟩ := Step.endsAlong_done.mp hfinish
    rw [List.append_nil]
    exact ⟨results, x, hmade, rfl, rfl, overall_ok v results⟩
  · rintro ⟨results, x, hmade, rfl, rfl, -⟩
    refine ⟨rest, [], _, x, (List.append_nil rest).symm, runs_runCalls.mpr ⟨results, hmade, rfl⟩, ?_⟩
    rw [finish_overall]
    exact .done _ _

end

/-- A root scope without bindings, a run without limits, and a function with this body. -/
def withFunction (body : Block) : EngineState :=
  { unbound with
    heap := { unbound.heap with
      funcs := ({} : Store Function).push (.script (.mk (some "f") [] false body) 0 false) } }

/-- `if true { return 7 }; throw 9`. -/
def leavingEarly : Block := [.ifElse (.bool true) [.ret (.int 7)] none, .throw (.int 9)]

/-- This function returns 7, and does not come to its `throw`. -/
theorem return_ends_call_early :
    ∃ scope t u w, CallBegins [] false (withFunction leavingEarly) 0
        (.mk (some "f") [] false leavingEarly) scope t ∧
      Returns 0 t.frames.next 4 leavingEarly scope t.beginBody [] (.int 7) u 3 ∧
      ((ofFuel 0 6).call (.func 0) [] false).Runs (withFunction leavingEarly) [] (.ok (.int 7)) w := by
  -- the states on the way, from the call to the end of the operand
  let called := ((withFunction leavingEarly).hold (.value (.func 0))).hold (.values [])
  let begun := (openScope 0 called).state.letGo.hold (.block 1)
  let checked := (checkpoint 0 (begun.beginBody.hold (.value .nil))).state
  let decided := ((ofFuel 0 3).expr (.bool true) 1 checked).state
  let branch := (openScope 1 decided).state.hold (.block 2)
  let reached := (checkpoint 0 (branch.hold (.value .nil))).state
  let returned := ((ofFuel 0 1).returned [.int 7] 2 reached).state
  have hbegins : CallBegins [] false (withFunction leavingEarly) 0
      (.mk (some "f") [] false leavingEarly) 1 begun :=
    .mk rfl rfl rfl (runs_openScope.mp (runs_of_gives (by decide +kernel))).2
      ((runs_of_done rfl).mpr ⟨rfl, rfl, rfl⟩)
  have henters : Enters 0 1 begun.frames.next checked 3
      (.ifElse (.bool true) [.ret (.int 7)] none) [] 2 [.ret (.int 7)] 2 branch 1 :=
    .inner (.thenBlock (runs_of_gives (a := .bool true) (by decide +kernel)) (by decide +kernel))
      (runs_openScope.mp (runs_of_gives (by decide +kernel))).2
  have hinner : Returns 0 begun.frames.next 2 [.ret (.int 7)] 2 branch [] (.int 7) returned 1 :=
    .here (.nil _ _) (runs_of_gives (by decide +kernel)) (runs_of_gives (by decide +kernel))
  have hreturns : Returns 0 begun.frames.next 4 leavingEarly 1 begun.beginBody [] (.int 7)
      returned 3 :=
    .inside (.nil _ _) (runs_of_gives (by decide +kernel)) henters hinner
  let done := EngineState.letGo^[3] returned
  have hnone : (done.frames.get? begun.frames.next).getD [] = [] := by decide +kernel
  have hcalls : (ofFuel 0 4).CallsMade begun.frames.next
      ((done.frames.get? begun.frames.next).getD []) (.ok (.ret (.int 7))) done [] [] done := by
    rw [hnone]
    exact .nil _ _
  have hcall := return_ends_call 0 4 _ _ _ _ _ _ _ _ _ _ _ hbegins hreturns
  exact ⟨1, begun, returned, done.letGo.letGo.letGo, hbegins, hreturns,
    (hcall.2 [] _ _).mpr ⟨[], done, hcalls, rfl, rfl, .inl rfl⟩⟩

/-- `for return 7; false; { }; return 1`. -/
def returningFirst : Block :=
  [.forClause (some (.ret (.int 7))) (some (.bool false)) none [], .ret (.int 1)]

/-- **A `return` in a clause of a loop is dropped.**  A call of this function comes to a `return` that
evaluates its operand to 7, as the first thing in its loop; but the loop goes on, and the call gives
1. -/
theorem return_in_clause_dropped :
    ∃ scope t u w, CallBegins [] false (withFunction returningFirst) 0
        (.mk (some "f") [] false returningFirst) scope t ∧
      ((ofFuel 0 5).stmt (.ret (.int 7)) scope t.frames.next).Runs
        (checkpoint 0 (t.beginBody.hold (.value .nil))).state [] (.ok (.ret (.int 7))) u ∧
      ((ofFuel 0 8).call (.func 0) [] false).Runs (withFunction returningFirst) [] (.ok (.int 1))
        w := by
  let called := ((withFunction returningFirst).hold (.value (.func 0))).hold (.values [])
  let begun := (openScope 0 called).state.letGo.hold (.block 1)
  have hbegins : CallBegins [] false (withFunction returningFirst) 0
      (.mk (some "f") [] false returningFirst) 1 begun :=
    .mk rfl rfl rfl (runs_openScope.mp (runs_of_gives (by decide +kernel))).2
      ((runs_of_done rfl).mpr ⟨rfl, rfl, rfl⟩)
  exact ⟨1, begun, _, _, hbegins, runs_of_gives (by decide +kernel),
    runs_of_gives (by decide +kernel)⟩

end ScriptEngine.Evaluator
