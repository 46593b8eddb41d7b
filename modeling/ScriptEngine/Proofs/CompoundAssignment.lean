import ScriptEngine.Proofs.DeferredCalls
import ScriptEngine.Proofs.Evaluator.Heeding
import ScriptEngine.Proofs.Evaluator.Rounds

/-! # Compound assignment

`x op= e` abbreviates `x = x op e`.  Both read the variable, evaluate `e` while the value that was read
is held, combine the two and write the variable; the long form takes two cycles more, for the expression
and for the name in it.  What they do in between is `Evaluator.compounded` for the short form and
`Evaluator.spelledOut` for the long one, and these are the same for every operator but `&&` and `||`
(`compounded_eq_spelledOut`).

For those two the long form decides by the value that was read whether `e` is evaluated at all, while the
short form evaluates `e` in any case and looks at the value that was read only afterwards.  If that value
leaves the decision to `e`, and `e` does not change how it reads, they agree (`runs_compounded_iff`).
Otherwise they need not (`compound_evaluates_in_vain`).
-/
namespace ScriptEngine

/-- What an operator makes of two truth values, if it is `&&` or `||`. -/
def BinaryOp.connective? : BinaryOp → Option (Bool → Bool → Bool)
  | .and => some (· && ·)
  | .or => some (· || ·)
  | _ => none

/-- The error without its place. -/
def EvalError.unplaced (e : EvalError) : EvalError := { e with position := none }

theorem EvalError.unplaced_locate (e : EvalError) (p : Position) : (e.locate p).unplaced = e.unplaced := by
  unfold locate
  split <;> rfl

namespace Eval
variable {α β : Type}

/-- Errors of `m` lose their places. -/
def unplaced (m : Eval α) : Eval α := fun s =>
  (m s).bind fun r s => .done s (r.mapError (·.unplaced))

theorem unplaced_bind (m : Eval α) (k : α → Eval β) :
    (m >>= k).unplaced = m.unplaced >>= fun a => (k a).unplaced := by
  funext s
  rw [unplaced, bind_apply, bind_apply, unplaced, Step.bind_assoc, Step.bind_assoc]
  congr 1
  funext r s'
  cases r <;> rfl

/-- Up to places, it does not matter where something happens. -/
theorem unplaced_located (p : Position) (m : Eval α) : (located p m).unplaced = m.unplaced := by
  funext s
  rw [unplaced, located_apply, Step.bind_assoc]
  show (m s).bind _ = (m s).bind _
  congr 1
  funext r s'
  cases r with
  | ok a => rfl
  | error e =>
    show Step.done s' (Except.error (e.locate p).unplaced) = .done s' (.error e.unplaced)
    rw [e.unplaced_locate]

theorem holding_pure {x : Holding} (hx : ∀ t : EngineState, t.giveBack x = t) (a : α) :
    holding x (pure a) = pure a := by
  funext s
  show Step.done (s.hold x).letGo _ = Step.done s _
  rw [EngineState.letGo_hold s hx]

end Eval

namespace Evaluator

open Eval

/-! ## What the two forms do -/

/-- `name op= e`: the operand is evaluated in any case. -/
def compounded (ev : Evaluator) (name : String) (op : BinaryOp) (e : Expr) (scope : ScopeId) :
    Eval Flow := do
  let current ← lookup scope name
  let operand ← holdingValue current (ev.expr e scope)
  let updated ← combine ev.run op current operand
  assign scope name updated
  return .value updated

/-- What `left op e` gives, where `left` is evaluated. -/
def operated (ev : Evaluator) (left : Value) (op : BinaryOp) (e : Expr) (scope : ScopeId) :
    Eval Value := do
  match op, ← truthy left with
  | .and, false => return .bool false
  | .or, true => return .bool true
  | .and, true | .or, false => return .bool (← truthy (← holdingValue left (ev.expr e scope)))
  | op, _ =>
    let r ← holdingValue left (ev.expr e scope)
    combine ev.run op left r

/-- `name = name op e`: the operand is evaluated if it matters. -/
def spelledOut (ev : Evaluator) (name : String) (op : BinaryOp) (e : Expr) (scope : ScopeId) :
    Eval Flow := do
  let current ← lookup scope name
  let updated ← ev.operated current op e scope
  assign scope name updated
  return .value updated

section
variable {run : RunId} {fuel : Nat} {name : String} {op : BinaryOp} {e : Expr} {scope : ScopeId}
  {frame : FrameId} {p q q' r : Position}

/-- The short form, up to places. -/
theorem unplaced_opAssign :
    ((ofFuel run (fuel + 2)).stmt (.mk (.opAssign (.mk (.ident name) q) op e) p) scope frame).unplaced =
      (checkpoint run >>= fun _ => (ofFuel run (fuel + 1)).compounded name op e scope).unplaced := by
  show (checkpoint run >>= fun _ => located p
    ((ofFuel run (fuel + 1)).opAssign (.mk (.ident name) q) op e scope)).unplaced = _
  rw [unplaced_bind, unplaced_bind]
  congr 1
  funext _
  rw [unplaced_located]
  rfl

/-- One expression for one name. -/
theorem assignment_single (ev : Evaluator) (e : Expr) :
    ev.assignment [.mk (.ident name) q] [e] scope = (do
      let v ← ev.expr e scope
      assign scope name v
      return .value v) := by
  have hvalues : ev.values [e] 1 scope = ev.expr e scope >>= fun v => pure [v] := by
    show ev.exprs scope [e] = _
    unfold exprs
    congr 1
    funext v
    show holdingValue v (pure []) >>= _ = _
    rw [holdingValue, holding_pure fun _ => rfl, pure_bind]
  have hassign (v : Value) : ev.assignAll scope .nil [.mk (.ident name) q] [v] =
      assign scope name v >>= fun _ => pure v := by
    show holding _ (pure (Place.var name)) >>= _ = _
    rw [holding_pure fun _ => rfl, pure_bind]
    rfl
  show ev.values [e] 1 scope >>= _ = _
  simp only [hvalues, hassign, bind_assoc, pure_bind]

/-- The long form, up to places. It takes two cycles more. -/
theorem unplaced_assign :
    ((ofFuel run (fuel + 3)).stmt (.mk (.assign [.mk (.ident name) q]
      [.mk (.binary op (.mk (.ident name) q') e) r]) p) scope frame).unplaced =
      (checkpoint run >>= fun _ => step run >>= fun _ => step run >>= fun _ =>
        (ofFuel run (fuel + 1)).spelledOut name op e scope).unplaced := by
  have hname : (ofFuel run (fuel + 1)).expr (.mk (.ident name) q') scope =
      step run >>= fun _ => located q' (lookup scope name) := by
    show step (ofFuel run fuel).run >>= _ = _
    rw [ofFuel_run]
    rfl
  have hbinary : (ofFuel run (fuel + 2)).expr (.mk (.binary op (.mk (.ident name) q') e) r) scope =
      step run >>= fun _ => located r ((ofFuel run (fuel + 1)).expr (.mk (.ident name) q') scope >>=
        fun l => (ofFuel run (fuel + 1)).operated l op e scope) := rfl
  show (checkpoint run >>= fun _ => located p
    ((ofFuel run (fuel + 2)).assignment [.mk (.ident name) q] [_] scope)).unplaced = _
  rw [assignment_single, hbinary, hname]
  simp only [spelledOut, unplaced_bind, unplaced_located, bind_assoc]

/-! ## Operators that always take both operands -/

theorem compounded_eq_spelledOut (ev : Evaluator) (hop : op.connective? = none) :
    ev.compounded name op e scope = ev.spelledOut name op e scope := by
  have hoperated (l : Value) : ev.operated l op e scope =
      holdingValue l (ev.expr e scope) >>= combine ev.run op l := by
    funext s
    rw [operated, bind_apply, truthy, readHeap_apply, Step.bind_of_done, andThen_ok]
    cases op <;> cases s.heap.truthy l <;> first | rfl | cases hop
  unfold compounded spelledOut
  simp only [hoperated, bind_assoc]

/-! ## Connectives -/

section
variable {ev : Evaluator} {f : Bool → Bool → Bool} {l : Value} {s t : EngineState}
  {path : List EngineState}

/-- The value that was read still reads the same when `e` has been evaluated, as far as the path
goes. -/
def KeepsReading (ev : Evaluator) (l : Value) (e : Expr) (scope : ScopeId) (s : EngineState)
    (path : List EngineState) : Prop :=
  ∀ first rest v u, path = first ++ rest →
    (holdingValue l (ev.expr e scope)).Runs s first (.ok v) u → u.heap.truthy l = s.heap.truthy l

/-- Only lists and maps can change how they read. -/
theorem keepsReading_of_scalar (hl : l.isReference = false) : ev.KeepsReading l e scope s path := by
  intro first rest v u _ _
  cases l <;> first | rfl | cases hl

theorem combine_connective (hop : op.connective? = some f) (l r : Value) (t : EngineState) :
    combine run op l r t = .done t (.ok (.bool (f (t.heap.truthy l) (t.heap.truthy r)))) := by
  cases op <;> cases hop <;> rfl

/-- The left value decides alone. -/
theorem operated_decided (hop : op.connective? = some f)
    (hdecides : ∀ b, f (s.heap.truthy l) b = s.heap.truthy l) :
    ev.operated l op e scope s = .done s (.ok (.bool (s.heap.truthy l))) := by
  rw [operated, bind_apply, truthy, readHeap_apply, Step.bind_of_done, andThen_ok]
  cases hread : s.heap.truthy l <;> rw [hread] at hdecides <;> cases op <;> cases hop <;>
    first
    | rfl
    | exact absurd (hdecides false) (by decide)
    | exact absurd (hdecides true) (by decide)

/-- The left value leaves the decision to the operand. -/
theorem operated_undecided (hop : op.connective? = some f)
    (hleaves : ∀ b, f (s.heap.truthy l) b = b) :
    ev.operated l op e scope s =
      (holdingValue l (ev.expr e scope) >>= fun r => truthy r >>= fun b => pure (.bool b)) s := by
  rw [operated, bind_apply, truthy, readHeap_apply, Step.bind_of_done, andThen_ok]
  cases hread : s.heap.truthy l <;> rw [hread] at hleaves <;> cases op <;> cases hop <;>
    first
    | rfl
    | exact absurd (hleaves false) (by decide)
    | exact absurd (hleaves true) (by decide)

theorem compounded_apply (hl : s.heap.get scope name = .ok l) (op : BinaryOp) :
    ev.compounded name op e scope s = (holdingValue l (ev.expr e scope) >>= fun r =>
      combine ev.run op l r >>= fun v => assign scope name v >>= fun _ => pure (.value v)) s := by
  rw [compounded, bind_apply, lookup, tryHeap_apply, hl]
  rfl

theorem spelledOut_apply (hl : s.heap.get scope name = .ok l) (op : BinaryOp) :
    ev.spelledOut name op e scope s = (ev.operated l op e scope >>= fun v =>
      assign scope name v >>= fun _ => pure (.value v)) s := by
  rw [spelledOut, bind_apply, lookup, tryHeap_apply, hl]
  rfl

/-- If the left value decides alone, the long form does not look at the operand. -/
theorem spelledOut_decided (hop : op.connective? = some f) (hl : s.heap.get scope name = .ok l)
    (hdecides : ∀ b, f (s.heap.truthy l) b = s.heap.truthy l) :
    ev.spelledOut name op e scope s =
      (assign scope name (.bool (s.heap.truthy l)) >>= fun _ =>
        pure (.value (.bool (s.heap.truthy l)))) s := by
  rw [spelledOut_apply hl, bind_apply, operated_decided hop hdecides]
  rfl

/-- The short form gives the same, if the operand has a value at all. -/
theorem compounded_decided (hop : op.connective? = some f) (hl : s.heap.get scope name = .ok l)
    (hdecides : ∀ b, f (s.heap.truthy l) b = s.heap.truthy l)
    (hkeeps : ev.KeepsReading l e scope s path) {flow : Flow}
    (h : (ev.compounded name op e scope).Runs s path (.ok flow) t) :
    flow = .value (.bool (s.heap.truthy l)) := by
  rw [Runs, compounded_apply hl] at h
  obtain ⟨first, rest, r, u, rfl, hoperand, h⟩ | ⟨e, -, ⟨⟩⟩ := runs_bind.mp h
  have hwrite := (runs_after (combine_connective hop l r u)).mp h
  obtain ⟨-, last, -, w, -, -, hdone⟩ | ⟨e, -, ⟨⟩⟩ := runs_bind.mp hwrite
  obtain ⟨-, hflow, -⟩ := runs_pure.mp hdone
  rw [hkeeps first rest r u rfl hoperand, hdecides] at hflow
  exact Except.ok.inj hflow

/-- **If the left value leaves the decision to the operand, the two forms agree.** -/
theorem runs_compounded_iff (hop : op.connective? = some f) (hl : s.heap.get scope name = .ok l)
    (hleaves : ∀ b, f (s.heap.truthy l) b = b) (hkeeps : ev.KeepsReading l e scope s path)
    {o : Except EvalError Flow} :
    (ev.compounded name op e scope).Runs s path o t ↔
      (ev.spelledOut name op e scope).Runs s path o t := by
  have hlong : ev.spelledOut name op e scope s = (holdingValue l (ev.expr e scope) >>= fun r =>
      truthy r >>= fun b => assign scope name (.bool b) >>= fun _ => pure (.value (.bool b))) s := by
    rw [spelledOut_apply hl, bind_apply, operated_undecided hop hleaves, ← bind_apply]
    simp only [bind_assoc, pure_bind]
  rw [Runs, Runs, compounded_apply hl, hlong]
  refine runs_bind_congr fun first rest r u hpath hoperand => ?_
  rw [bind_apply, combine_connective hop, hkeeps first rest r u hpath hoperand, hleaves]
  rfl

end

/-! ## Cycles -/

/-- A cycle that neither waits nor fails only counts. -/
theorem step_counts {s t : EngineState} (h : step run s = .done t (.ok ())) :
    ∃ limiter, t = s.modifyRun run fun r => { r with cycles := r.cycles + 1, limiter } := by
  let counted := s.modifyRun run fun r => { r with cycles := r.cycles + 1 }
  have hcount : step run s = if (counted.run run).cycles % turnInterval = 0
      then (await .turn >>= fun _ => tick run) counted else tick run counted := by
    show (if _ then await .turn >>= fun _ => tick run else pure () >>= fun _ => tick run : Eval Unit)
      counted = _
    split <;> rfl
  rw [hcount] at h
  split at h
  · -- every so many cycles a task gives way to the others, which is to wait
    rw [bind_apply, await_apply] at h
    cases h
  · rw [tick_apply] at h
    dsimp only at h
    split at h
    · obtain ⟨rfl, -⟩ := Step.done.inj h
      exact ⟨_, congrArg (fun runs => { s with runs }) (Store.modify_modify ..)⟩
    · rw [await_apply] at h
      split at h
      · cases h
      · cases h

/-- **What compound assignment does.** -/
theorem compound_assignment (run : RunId) (fuel : Nat) (name : String) (op : BinaryOp) (e : Expr)
    (scope : ScopeId) (frame : FrameId) (p q q' r : Position) :
    let ev := ofFuel run (fuel + 1)
    ((ofFuel run (fuel + 2)).stmt (.mk (.opAssign (.mk (.ident name) q) op e) p) scope
        frame).unplaced =
      (checkpoint run >>= fun _ => ev.compounded name op e scope).unplaced ∧
    ((ofFuel run (fuel + 3)).stmt (.mk (.assign [.mk (.ident name) q]
        [.mk (.binary op (.mk (.ident name) q') e) r]) p) scope frame).unplaced =
      (checkpoint run >>= fun _ => step run >>= fun _ => step run >>= fun _ =>
        ev.spelledOut name op e scope).unplaced ∧
    (∀ s t, step run s = .done t (.ok ()) →
      ∃ limiter, t = s.modifyRun run fun r => { r with cycles := r.cycles + 1, limiter }) ∧
    (op.connective? = none → ev.compounded name op e scope = ev.spelledOut name op e scope) ∧
    ∀ f s l, op.connective? = some f → s.heap.get scope name = .ok l →
      ((∀ b, f (s.heap.truthy l) b = b) → ∀ path o t, ev.KeepsReading l e scope s path →
        ((ev.compounded name op e scope).Runs s path o t ↔
          (ev.spelledOut name op e scope).Runs s path o t)) ∧
      ((∀ b, f (s.heap.truthy l) b = s.heap.truthy l) →
        ev.spelledOut name op e scope s =
          (assign scope name (.bool (s.heap.truthy l)) >>= fun _ =>
            pure (.value (.bool (s.heap.truthy l)))) s ∧
        ∀ path flow t, ev.KeepsReading l e scope s path →
          (ev.compounded name op e scope).Runs s path (.ok flow) t →
            flow = .value (.bool (s.heap.truthy l))) :=
  ⟨unplaced_opAssign, unplaced_assign, fun _ _ => step_counts, compounded_eq_spelledOut _,
    fun _ _ _ hop hl => ⟨fun hleaves _ _ _ hkeeps => runs_compounded_iff hop hl hleaves hkeeps,
      fun hdecides => ⟨spelledOut_decided hop hl hdecides, fun _ _ _ hkeeps =>
        compounded_decided hop hl hdecides hkeeps⟩⟩⟩

end

/-- Where `n` is 0: `n ||= 7` leaves the decision to 7, `n &&= 7` does not, `n += 7` takes both. -/
theorem compound_assignment_tally :
    let ev := ofFuel 0 3
    (∃ t, (ev.compounded "n" .or (.int 7) 0).Runs tallying [] (.ok (.value (.bool true))) t ∧
      (ev.spelledOut "n" .or (.int 7) 0).Runs tallying [] (.ok (.value (.bool true))) t) ∧
    (∃ t flow, (ev.compounded "n" .and (.int 7) 0).Runs tallying [] (.ok flow) t ∧
      flow = .value (.bool false)) ∧
    ev.compounded "n" .add (.int 7) 0 = ev.spelledOut "n" .add (.int 7) 0 ∧
    ∃ t, step 0 tallying = .done t (.ok ()) ∧
      ∃ limiter, t = tallying.modifyRun 0 fun r => { r with cycles := r.cycles + 1, limiter } := by
  intro ev
  have hkeeps : ev.KeepsReading (.int 0) (.int 7) 0 tallying [] := keepsReading_of_scalar rfl
  obtain ⟨-, -, hstep, -, hor⟩ := compound_assignment 0 2 "n" .or (.int 7) 0 0 default default default
    default
  obtain ⟨-, -, -, -, hand⟩ := compound_assignment 0 2 "n" .and (.int 7) 0 0 default default default
    default
  obtain ⟨-, -, -, hadd, -⟩ := compound_assignment 0 2 "n" .add (.int 7) 0 0 default default default
    default
  have hshort : (ev.compounded "n" .or (.int 7) 0).Runs tallying [] (.ok (.value (.bool true))) _ :=
    runs_of_gives (by decide +kernel)
  have hvain : (ev.compounded "n" .and (.int 7) 0).Runs tallying [] (.ok (.value (.bool false))) _ :=
    runs_of_gives (by decide +kernel)
  refine ⟨⟨_, hshort, ?_⟩, ⟨_, _, hvain, ?_⟩, hadd rfl, _, rfl, hstep _ _ rfl⟩
  · exact ((hor _ tallying (.int 0) rfl rfl).1 (by decide) _ _ _ hkeeps).mp hshort
  · exact ((hand _ tallying (.int 0) rfl rfl).2 (by decide)).2 _ _ _ hkeeps hvain

/-- **The operand is evaluated in vain.**  Where `n` is 0, `n = n && y` gives `false` and does not look
at `y`, which is not bound; but `n &&= y` fails because of it. -/
theorem compound_evaluates_in_vain :
    (∃ e t, ((ofFuel 0 4).stmt (.opAssign (.ident "n") .and (.ident "y")) 0 0).Runs
      tallying [] (.error e) t ∧ e.fault = .undefinedSymbol "y") ∧
    ∃ t, ((ofFuel 0 5).stmt (.assignTo "n" (.binary .and (.ident "n") (.ident "y"))) 0 0).Runs tallying
      [] (.ok (.value (.bool false))) t := by
  have hshort : ((ofFuel 0 4).stmt (.opAssign (.ident "n") .and (.ident "y")) 0 0 tallying).fails
      (.undefinedSymbol "y") = true := by decide +kernel
  obtain ⟨e, hruns, hfault⟩ := runs_of_fails hshort
  exact ⟨⟨e, _, hruns, hfault⟩, _, runs_of_gives (by decide +kernel)⟩

end Evaluator

end ScriptEngine
