import ScriptEngine.Evaluator.Call
import ScriptEngine.Evaluator.Loop
import ScriptEngine.Evaluator.Select

/-! Evaluation of statements. Each statement is a checkpoint. -/
namespace ScriptEngine.Evaluator

open Eval

/-! ## Assignment -/

/-- Fails because the number of values does not fit. -/
def mismatchedCount {α : Type} (targets values : Nat) : Eval α :=
  failWith ("mismatched assignment: " ++ toString targets ++ " targets but got " ++
    toString values ++ " values")

/-- One value for several targets: a value with the mark whether it is there, or a list taken
apart. -/
def spreadValue (count : Nat) : Value × Option Bool → Eval (List Value)
  | (v, ok) =>
    match ok, count, v with
    | some ok, 2, v => return [v, .bool ok]
    | _, count, .list id => do
      let items ← readHeap fun h => (h.list id).items.toList
      if items.length = count then return items else mismatchedCount count items.length
    | _, count, _ => failWith ("cannot assign single value to " ++ toString count ++ " targets")

/-- Values for `count` targets: none at all mean nil for each, else there is one for each target or
one that is taken apart. -/
def values (ev : Evaluator) (exprs : List Expr) (count : Nat) (scope : ScopeId) :
    Eval (List Value) := do
  if exprs.isEmpty then return List.replicate count .nil
  if exprs.length = count then return ← ev.exprs scope exprs
  match exprs with
  | [e] => spreadValue count (← ev.commaOk e scope)
  | exprs => mismatchedCount count exprs.length

/-- Declares variables in this very scope. The value is the last one. -/
def declare (ev : Evaluator) (names : List String) (exprs : List Expr) (scope : ScopeId) :
    Eval Flow := do
  let vs ← ev.values exprs names.length scope
  let bindings := names.zip vs
  defineAll scope bindings
  return .value ((bindings.getLast?.map (·.2)).getD .nil)

/-- Assigns values to targets in order; all values are held meanwhile. -/
def assignAll (ev : Evaluator) (scope : ScopeId) (last : Value) :
    List Expr → List Value → Eval Value
  | target :: targets, v :: vs => do
    let place ← holding (.values (last :: v :: vs)) (ev.place target scope)
    writePlace place scope v
    assignAll ev scope v targets vs
  | _, _ => return last

/-- Assigns. The value is the last one. -/
def assignment (ev : Evaluator) (targets exprs : List Expr) (scope : ScopeId) : Eval Flow := do
  let vs ← ev.values exprs targets.length scope
  return .value (← ev.assignAll scope .nil targets vs)

/-- `target op= e`. The place is evaluated once. -/
def opAssign (ev : Evaluator) (target : Expr) (op : BinaryOp) (e : Expr) (scope : ScopeId) :
    Eval Flow := do
  let place ← ev.place target scope
  let current ← readPlace place scope
  let operand ← place.holding (holdingValue current (ev.expr e scope))
  let updated ← place.holding (combine ev.run op current operand)
  writePlace place scope updated
  return .value updated

/-! ## Choice -/

/-- The first of the expressions that is equal to the subject. -/
def matching (ev : Evaluator) (subject : Value) (scope : ScopeId) : List Expr → Eval (Option Value)
  | [] => return none
  | e :: rest => do
    let candidate ← ev.expr e scope
    if ← readHeap (·.equal subject candidate) then return some candidate
    else matching ev subject scope rest

/-- The body of the first case with a value that is equal to the subject, and that value. -/
def matchingCase (ev : Evaluator) (subject : Value) (scope : ScopeId) :
    List SwitchCase → Eval (Option (Value × Block))
  | [] => return none
  | .mk candidates body :: rest => do
    match ← ev.matching subject scope candidates with
    | some candidate => return some (candidate, body)
    | none => matchingCase ev subject scope rest

/-- The `switch` statement. Without a case that fits, the subject is its value. -/
def switch (ev : Evaluator) (discriminant : Expr) (cases : List SwitchCase) (default : Option Block)
    (scope : ScopeId) (frame : FrameId) : Eval Flow := do
  let subject ← ev.expr discriminant scope
  holdingValue subject do
    match ← ev.matchingCase subject scope cases, default with
    | some (candidate, body), _ =>
      return (← holdingValue candidate (ev.inner body scope frame)).consumeBreak
    | none, some body => return (← ev.inner body scope frame).consumeBreak
    | none, none => return .value subject

/-- The `if` statement. -/
def ifElse (ev : Evaluator) (condition : Expr) (thenBlock : Block) (elseBlock : Option Block)
    (scope : ScopeId) (frame : FrameId) : Eval Flow := do
  match ← truthy (← ev.expr condition scope), elseBlock with
  | true, _ => ev.inner thenBlock scope frame
  | false, some body => ev.inner body scope frame
  | false, none => return .unit

/-! ## Errors -/

/-- Runs the handler of an error, in a scope with the error bound. -/
def handle (ev : Evaluator) (e : EvalError) (catchVar : Option String) (handler : Block)
    (scope : ScopeId) (frame : FrameId) : Eval (Except EvalError Flow) := do
  let v ← readHeap fun h => e.fault.toValue h
  holdingValue v <| inChild scope fun inner => do
    if let some name := catchVar then define inner name v
    attempt (ev.block handler inner frame)

/-- How the body of a `try` ends, or the handler if the body fails with what a script may catch. -/
def handled (ev : Evaluator) (body : Block) (catchVar : Option String) (handler : Option Block)
    (scope : ScopeId) (frame : FrameId) : Eval (Except EvalError Flow) := do
  match ← attempt (ev.inner body scope frame), handler with
  | .error e, some handler =>
    if e.fault.isCatchable then ev.handle e catchVar handler scope frame else return .error e
  | first, _ => return first

/-- Runs the last block of a `try`, whose own error, or leaving, takes precedence. -/
def finish (ev : Evaluator) (last : Option Block) (scope : ScopeId) (frame : FrameId)
    (outcome : Except EvalError Flow) : Eval Flow := do
  match last with
  | none => MonadExcept.ofExcept outcome
  | some last =>
    match ← holding (.values (outcomeValues outcome)) (ev.inner last scope frame) with
    | .value _ => MonadExcept.ofExcept outcome
    | flow => return flow

/-- The `try` statement. What a script may catch goes to the handler; the last block runs in any
case. -/
def tryCatch (ev : Evaluator) (body : Block) (catchVar : Option String)
    (handler last : Option Block) (scope : ScopeId) (frame : FrameId) : Eval Flow := do
  ev.finish last scope frame (← ev.handled body catchVar handler scope frame)

/-! ## Functions, modules and tasks -/

/-- Declares a function. -/
def declareFunc (definition : FuncDef) (scope : ScopeId) : Eval Flow :=
  match definition.name with
  | none => failWith "function declaration without a name"
  | some name => do
    let f ← closure definition scope false
    define scope name f
    return .value f

/-- The values that are returned: several make a list. -/
def returned (ev : Evaluator) (exprs : List Expr) (scope : ScopeId) : Eval Value := do
  match exprs with
  | [] => return .nil
  | [e] => ev.expr e scope
  | exprs => alloc (·.addPlainList (← ev.exprs scope exprs).toArray)

/-- Runs a module and binds its scope as a package. -/
def declareModule (ev : Evaluator) (name : String) (body : Block) (scope : ScopeId) : Eval Flow :=
  inChild scope fun inner => do
    match ← ev.body body inner with
    | .value _ =>
      definePackage scope name inner
      modify (·.capture inner)
      return .unit
    | flow => failWith (flow.keyword ++ " is not allowed in module " ++ name)

/-- The call that an expression is, with callee and arguments evaluated. -/
def preparedCall (ev : Evaluator) (keyword : String) (e : Expr) (scope : ScopeId) :
    Eval DeferredCall := do
  match e.kind with
  | .call callee args spread =>
    let (callee, args) ← ev.callParts callee args scope
    return { callee, args, spread }
  | _ => misfit (.call keyword)

/-- Sends a value to a channel. -/
def sendValue (ev : Evaluator) (channel value : Expr) (scope : ScopeId) : Eval Flow := do
  let chan ← ev.channel channel scope
  let v ← holdingValue (.chan chan) (ev.expr value scope)
  send ev.rounds chan v (← signalOf ev.run)
  return .unit

/-! ## All statements -/

/-- What a statement does. -/
def dispatchStmt (ev : Evaluator) (scope : ScopeId) (frame : FrameId) : StmtKind → Eval Flow
  | .expr e => do return .value (← ev.expr e scope)
  | .var names exprs => ev.declare names exprs scope
  | .assign targets exprs => ev.assignment targets exprs scope
  | .opAssign target op e => ev.opAssign target op e scope
  | .ifElse condition thenBlock elseBlock => ev.ifElse condition thenBlock elseBlock scope frame
  | .switch discriminant cases default => ev.switch discriminant cases default scope frame
  | .select cases default => ev.select cases default scope frame
  | .loop condition body => ev.whileLoop condition body scope frame
  | .forClause init condition post body => ev.forClause init condition post body scope frame
  | .forIn vars iterable body => ev.forIn vars iterable body scope frame
  | .func definition => declareFunc definition scope
  | .ret exprs => do return .ret (← ev.returned exprs scope)
  | .brk => return .brk
  | .cont => return .cont
  | .throw e => do fail (.thrown (← ev.expr e scope))
  | .tryCatch body catchVar handler last => ev.tryCatch body catchVar handler last scope frame
  | .defer e => do
    defer frame (← ev.preparedCall "defer" e scope)
    return .unit
  | .module name body => ev.declareModule name body scope
  | .go e => do
    let c ← ev.preparedCall "go" e scope
    let _ ← Eval.update (·.start (.call ev.run c.callee c.args c.spread))
    return .unit
  | .send channel value => ev.sendValue channel value scope
  | .block body => ev.inner body scope frame

/-- A checkpoint, then the statement. Errors get its place. -/
def evalStmt (ev : Evaluator) (stmt : Stmt) (scope : ScopeId) (frame : FrameId) : Eval Flow := do
  checkpoint ev.run
  located stmt.pos (ev.dispatchStmt scope frame stmt.kind)

end ScriptEngine.Evaluator
