import ScriptEngine.Proofs.Validation.ControlFlow
import ScriptEngine.Tree.Builder

/-! # No stray `break` or `continue` in a checked script

A `break` or `continue` **strays** if it leaves the body of a function, the body of a module, or the
whole script.  The evaluator has an error for each of the three.  To say that these errors are never
raised by a script's own code, they are made a parameter: `Strays` tells what is done with a body that
is left that way, and `Evaluator.straying` is the evaluator with that in the place of the errors.

Main statement: for a script that passes the checks, `control_flow_contained`: neither the script nor
a body inside it ends with a `break` or `continue`, and what is done with those that would makes no
difference.
-/
namespace ScriptEngine

open Eval Validation

/-! ## The evaluator with its errors as a parameter -/

/-- What is done with a `break` or `continue` that leaves a body. -/
structure Strays where
  /-- It leaves the body of a function. -/
  call : (body : Block) → Flow → Eval Value
  /-- It leaves the body of a module. -/
  module : (name : String) → (body : Block) → Flow → Eval Flow
  /-- It leaves the script. -/
  program : (script : Block) → Flow → Eval Value

namespace Strays

/-- The errors that the evaluator raises. -/
def errors : Strays where
  call _ flow := failWith (flow.keyword ++ " outside of a loop")
  module name _ flow := failWith (flow.keyword ++ " is not allowed in module " ++ name)
  program _ flow := failWith (flow.keyword ++ " outside of a loop")

/-- The errors are raised for all bodies but these, for which anything may be done. -/
structure ErrorsExcept (strays : Strays) (own : List Block) : Prop where
  call : ∀ body ∉ own, strays.call body = errors.call body
  module : ∀ name, ∀ body ∉ own, strays.module name body = errors.module name body
  program : ∀ script ∉ own, strays.program script = errors.program script

end Strays

namespace Evaluator

/-- Calls a closure; `strays` says what is done with a `break` or `continue` that leaves it. -/
def callScriptStraying (strays : Strays) (ev : Evaluator) (callee : Value) (definition : FuncDef)
    (around : ScopeId) (selfBound : Bool) (args : List Value) (spread : Bool) : Eval Value := do
  if definition.variadic && definition.params.isEmpty then
    misfit (.parameters definition.displayName)
  let count := definition.params.length - (if definition.variadic then 1 else 0)
  let (fixed, rest) ←
    tryHeap (·.bindArguments definition.displayName count definition.variadic args spread)
  let scope ← holding (.values (fixed ++ rest.getD [])) (openScope around)
  holding (.block scope) do
    bindParams callee definition selfBound fixed rest scope
    match ← ev.body definition.body scope with
    | .value _ => return .nil
    | .ret v => return v
    | .brk => strays.call definition.body .brk
    | .cont => strays.call definition.body .cont

def callValueStraying (strays : Strays) (ev : Evaluator) (callee : Value) (args : List Value)
    (spread : Bool) : Eval Value :=
  match callee with
  | .func id => holdingValue callee do
    match ← readHeap (·.func id) with
    | .script definition around selfBound =>
      ev.callScriptStraying strays callee definition around selfBound args spread
    | .host f => ev.callHost f args spread
  | v => do failWith ("cannot call non-function value of type " ++ (← typeName v))

/-- Runs a module. A `return` that leaves it is the error it always is. -/
def declareModuleStraying (strays : Strays) (ev : Evaluator) (name : String) (body : Block)
    (scope : ScopeId) : Eval Flow :=
  inChild scope fun inner => do
    match ← ev.body body inner with
    | .value _ =>
      definePackage scope name inner
      modify (·.capture inner)
      return .unit
    | .ret v => Strays.errors.module name body (.ret v)
    | .brk => strays.module name body .brk
    | .cont => strays.module name body .cont

def evalStmtStraying (strays : Strays) (ev : Evaluator) (stmt : Stmt) (scope : ScopeId)
    (frame : FrameId) : Eval Flow :=
  match stmt.kind with
  | .module name body => do
    checkpoint ev.run
    located stmt.pos (ev.declareModuleStraying strays name body scope)
  | _ => ev.evalStmt stmt scope frame

/-- The evaluator that does with strays what it is told to do. -/
def straying (strays : Strays) (run : RunId) : Nat → Evaluator
  | 0 => ofFuel run 0
  | fuel + 1 =>
    { run
      rounds := fuel
      expr := fun e scope => (straying strays run fuel).evalExpr e scope
      stmt := fun stmt scope frame =>
        (straying strays run fuel).evalStmtStraying strays stmt scope frame
      inner := fun block scope frame => (straying strays run fuel).evalInner block scope frame
      body := fun block scope => (straying strays run fuel).evalBody block scope
      call := fun callee args spread =>
        (straying strays run fuel).callValueStraying strays callee args spread }

def programStraying (strays : Strays) (ev : Evaluator) (script : Block) (scope : ScopeId) :
    Eval Value := do
  match ← ev.body script scope with
  | .value v | .ret v => return v
  | .brk => strays.program script .brk
  | .cont => strays.program script .cont

/-! ## What is done with strays makes no difference -/

variable {strays : Strays} {own : List Block} {ev : Evaluator}

/-- After a body that is accepted, it does not matter how evaluation goes on with a stray; after any
other body it does. -/
theorem Contains.body_congr {α : Type} (hev : ev.Contains) (hown : AllAccepted own) {body : Block}
    (scope : ScopeId) {k k' : Flow → Eval α} (hvalue : ∀ v, k (.value v) = k' (.value v))
    (hret : ∀ v, k (.ret v) = k' (.ret v))
    (hforeign : body ∉ own → k .brk = k' .brk ∧ k .cont = k' .cont) :
    (ev.body body scope >>= k) = (ev.body body scope >>= k') := by
  by_cases hbody : body ∈ own
  · refine (hev.body scope (hown body hbody)).bind_congr fun flow hflow => ?_
    cases flow with
    | value v => exact hvalue v
    | ret v => exact hret v
    | brk => cases hflow
    | cont => cases hflow
  · refine bind_congr fun flow => ?_
    cases flow with
    | value v => exact hvalue v
    | ret v => exact hret v
    | brk => exact (hforeign hbody).1
    | cont => exact (hforeign hbody).2

theorem Contains.callScriptStraying_eq (hev : ev.Contains) (hown : AllAccepted own)
    (hstrays : strays.ErrorsExcept own) (callee : Value) (definition : FuncDef) (around : ScopeId)
    (selfBound : Bool) (args : List Value) (spread : Bool) :
    ev.callScriptStraying strays callee definition around selfBound args spread =
      ev.callScript callee definition around selfBound args spread := by
  unfold callScriptStraying callScript
  refine ite_congr rfl (fun _ => bind_congr fun _ => ?_) (fun _ => ?_)
  all_goals
    refine bind_congr fun bound => bind_congr fun scope => ?_
    refine congrArg (holding (.block scope)) (bind_congr fun _ => ?_)
    refine hev.body_congr hown scope (fun _ => rfl) (fun _ => rfl) fun hforeign => ?_
    have herrors := hstrays.call definition.body hforeign
    exact ⟨congrFun herrors .brk, congrFun herrors .cont⟩

theorem Contains.callValueStraying_eq (hev : ev.Contains) (hown : AllAccepted own)
    (hstrays : strays.ErrorsExcept own) (callee : Value) (args : List Value) (spread : Bool) :
    ev.callValueStraying strays callee args spread = ev.callValue callee args spread := by
  cases callee with
  | func id =>
    unfold callValueStraying callValue
    refine congrArg (holdingValue (.func id)) (bind_congr fun f => ?_)
    cases f with
    | script definition around selfBound =>
      exact hev.callScriptStraying_eq hown hstrays _ definition around selfBound args spread
    | host f => rfl
  | _ => rfl

theorem Contains.declareModuleStraying_eq (hev : ev.Contains) (hown : AllAccepted own)
    (hstrays : strays.ErrorsExcept own) (name : String) (body : Block) (scope : ScopeId) :
    ev.declareModuleStraying strays name body scope = ev.declareModule name body scope := by
  refine congrArg (inChild scope) (funext fun inner => ?_)
  refine hev.body_congr hown inner (fun _ => rfl) (fun _ => rfl) fun hforeign => ?_
  have herrors := hstrays.module name body hforeign
  exact ⟨congrFun herrors .brk, congrFun herrors .cont⟩

theorem Contains.evalStmtStraying_eq (hev : ev.Contains) (hown : AllAccepted own)
    (hstrays : strays.ErrorsExcept own) (stmt : Stmt) (scope : ScopeId) (frame : FrameId) :
    ev.evalStmtStraying strays stmt scope frame = ev.evalStmt stmt scope frame := by
  obtain ⟨kind, pos⟩ := stmt
  cases kind with
  | module name body =>
    refine bind_congr fun _ => congrArg (located pos) ?_
    exact hev.declareModuleStraying_eq hown hstrays name body scope
  | _ => rfl

theorem Contains.programStraying_eq (hev : ev.Contains) (hown : AllAccepted own)
    (hstrays : strays.ErrorsExcept own) (script : Block) (scope : ScopeId) :
    ev.programStraying strays script scope = ev.program script scope := by
  refine hev.body_congr hown scope (fun _ => rfl) (fun _ => rfl) fun hforeign => ?_
  have herrors := hstrays.program script hforeign
  exact ⟨congrFun herrors .brk, congrFun herrors .cont⟩

/-- **An evaluator that does as it likes with strays from accepted bodies is the evaluator.** -/
theorem straying_eq_ofFuel (hown : AllAccepted own) (hstrays : strays.ErrorsExcept own)
    (run : RunId) (fuel : Nat) : straying strays run fuel = ofFuel run fuel := by
  induction fuel with
  | zero => rfl
  | succ fuel ih =>
    have hev := contains_ofFuel run fuel
    have hstmt : (ofFuel run fuel).evalStmtStraying strays = (ofFuel run fuel).evalStmt := by
      funext stmt scope frame
      exact hev.evalStmtStraying_eq hown hstrays stmt scope frame
    have hcall : (ofFuel run fuel).callValueStraying strays = (ofFuel run fuel).callValue := by
      funext callee args spread
      exact hev.callValueStraying_eq hown hstrays callee args spread
    rw [straying, ofFuel, ih, hstmt, hcall]

end Evaluator

/-! ## Scripts that pass the checks -/

/-- **Scripts that pass the checks contain their control flow.**  Neither the script nor the body of a
function or module inside it, evaluated in any scope and from any state, ends with a `break` or
`continue`, by itself or with its deferred calls; the errors for strays are never raised for them, in
the script or in any call, since anything may stand in their place; and in general a block that is
checked inside so many loops and things that take a `break` ends with a `break` only if there is one
of these, and with a `continue` only if there is a loop. -/
theorem control_flow_contained (script : Block) (passes : script.validate = .ok ()) (run : RunId)
    (fuel : Nat) :
    (∀ body ∈ script :: script.bodies, ∀ scope,
      (∀ frame, Yields Flow.Contained ((Evaluator.ofFuel run fuel).block body scope frame)) ∧
      Yields Flow.Contained ((Evaluator.ofFuel run fuel).body body scope)) ∧
    (∀ strays : Strays, strays.ErrorsExcept (script :: script.bodies) →
      Evaluator.straying strays run fuel = Evaluator.ofFuel run fuel ∧
      ∀ scope, (Evaluator.straying strays run fuel).programStraying strays script scope =
        (Evaluator.ofFuel run fuel).program script scope) ∧
    (∀ (loops breakables : Nat) (block : Block),
      checkBlock (.counting loops breakables) block = .ok () → ∀ scope frame,
      Yields (fun flow => (flow = .brk → 0 < breakables) ∧ (flow = .cont → 0 < loops))
        ((Evaluator.ofFuel run fuel).block block scope frame)) := by
  have hown : AllAccepted (script :: script.bodies) := fun body hbody =>
    Block.accepted_of_mem_bodies passes hbody
  have hev := Evaluator.contains_ofFuel run fuel
  refine ⟨fun body hbody scope => ⟨fun frame => ?_, ?_⟩, fun strays hstrays => ?_,
    fun loops breakables block hblock scope frame => ?_⟩
  · exact (hev.block scope frame (hown body hbody)).mono fun _ => Flow.contained_of_top
  · exact (hev.body scope (hown body hbody)).mono fun _ => Flow.contained_of_top
  · rw [Evaluator.straying_eq_ofFuel hown hstrays]
    exact ⟨rfl, fun scope => hev.programStraying_eq hown hstrays script scope⟩
  · refine (hev.block scope frame hblock).mono fun flow hflow => ⟨?_, ?_⟩
    · rintro rfl
      exact of_decide_eq_true hflow
    · rintro rfl
      exact of_decide_eq_true hflow

/-- A module with a function whose loop is left from a `try`, through a last block that continues. -/
def Block.searching : Block :=
  [.module "m" [.func "f" ["n"]
    [.whileLoop none
      [.switch (.ident "n") [.mk [.ident "m"] [.brk]] (some [.cont]),
       .tryCatch [.brk] none none (some [.cont])]]]]

open Classical in
/-- Strays from these bodies stop the task; from others they are errors. -/
noncomputable def Strays.halting (own : List Block) : Strays where
  call body flow := if body ∈ own then breakDown none else errors.call body flow
  module name body flow := if body ∈ own then breakDown none else errors.module name body flow
  program script flow := if script ∈ own then breakDown none else errors.program script flow

/-- The script above, its module and its function contain their control flow: nothing changes if
strays from them stop the task. -/
theorem control_flow_contained_searching :
    Block.searching.validate = .ok () ∧ Block.searching.bodies.length = 2 ∧
    (∀ body ∈ Block.searching :: Block.searching.bodies, ∀ scope frame,
      Yields Flow.Contained ((Evaluator.ofFuel 0 9).block body scope frame)) ∧
    ∀ scope, let halting := Strays.halting (Block.searching :: Block.searching.bodies)
      (Evaluator.straying halting 0 9).programStraying halting Block.searching scope =
        (Evaluator.ofFuel 0 9).program Block.searching scope := by
  have hpasses : Block.searching.validate = .ok () := rfl
  obtain ⟨hbodies, hstrays, -⟩ := control_flow_contained Block.searching hpasses 0 9
  refine ⟨hpasses, rfl, fun body hbody scope => (hbodies body hbody scope).1, fun scope => ?_⟩
  refine (hstrays _ ⟨fun body hbody => ?_, fun name body hbody => ?_, fun body hbody => ?_⟩).2 scope
  · exact funext fun flow => if_neg hbody
  · exact funext fun flow => if_neg hbody
  · exact funext fun flow => if_neg hbody

end ScriptEngine
