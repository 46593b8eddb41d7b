import ScriptEngine.Access
import ScriptEngine.Arguments
import ScriptEngine.Task.Channel
import ScriptEngine.Task.Run

/-! Common ground of evaluation: how statements end, what evaluating a node may ask of the nodes
below it, and how scopes are opened and names are bound on the way. -/
namespace ScriptEngine

/-- How a statement ends unless it fails: with a value, or by leaving what it stands in. -/
inductive Flow where
  | value (v : Value)
  | brk
  | cont
  | ret (v : Value)
deriving DecidableEq, Inhabited

namespace Flow

/-- A statement whose value does not matter. -/
def unit : Flow := .value .nil

/-- The keyword that leaves, for messages. -/
def keyword : Flow → String
  | .value _ => "value"
  | .brk => "break"
  | .cont => "continue"
  | .ret _ => "return"

/-- A `break` ends here. -/
def consumeBreak : Flow → Flow
  | .brk => unit
  | flow => flow

/-- The values that the flow carries. -/
def values : Flow → List Value
  | .value v | .ret v => [v]
  | .brk | .cont => []

end Flow

/-- The values that an outcome carries. -/
def outcomeValues : Except EvalError Flow → List Value
  | .ok flow => flow.values
  | .error e =>
    match e.fault with
    | .thrown v => [v]
    | _ => []

/-- How the body of a loop ends. -/
inductive LoopStep where
  | next
  | exit
  | leave (flow : Flow)
deriving Inhabited

/-- Loops take part in `break` and `continue`, and let a `return` pass. -/
def Flow.loopStep : Flow → LoopStep
  | .value _ | .cont => .next
  | .brk => .exit
  | flow => .leave flow

/-- What evaluating a node can ask for: evaluating the nodes below it and calling functions, each
with less to go on, and how many rounds a loop may take. -/
structure Evaluator where
  run : RunId
  rounds : Nat
  expr : Expr → ScopeId → Eval Value
  stmt : Stmt → ScopeId → FrameId → Eval Flow
  /-- Statements in a scope of their own. -/
  inner : Block → ScopeId → FrameId → Eval Flow
  /-- Statements with deferred calls of their own. -/
  body : Block → ScopeId → Eval Flow
  call : Value → List Value → (spread : Bool) → Eval Value

namespace Eval

/-- The name of a value's type, for messages. -/
def typeName (v : Value) : Eval String := readHeap (·.typeName v)

/-- A value as a condition. -/
def truthy (v : Value) : Eval Bool := readHeap (·.truthy v)

/-! ## Scopes -/

/-- A new scope inside another one, if there is a slot for it. -/
def openScope (parent : ScopeId) : Eval ScopeId := do
  let governor ← readHeap fun h => (h.scope parent).governor
  match ← update (·.addChild parent) with
  | .ok scope => return scope
  | .error e =>
    modify (·.refuse (.scope governor))
    ofFailure e

/-- Runs `m` in a new scope inside another one. -/
def inChild {α : Type} (parent : ScopeId) (m : ScopeId → Eval α) : Eval α := do
  let scope ← openScope parent
  holding (.block scope) (m scope)

/-! ## Names -/

/-- The value of a variable that has to be bound. -/
def lookup (scope : ScopeId) (name : String) : Eval Value := tryHeap (·.get scope name)

/-- Creates or overwrites a variable of this very scope. -/
def define (scope : ScopeId) (name : String) (v : Value) : Eval Unit :=
  bindName name (·.define scope name v)

/-- Defines names in order. -/
def defineAll (scope : ScopeId) : List (String × Value) → Eval Unit
  | [] => pure ()
  | (name, v) :: rest => do
    define scope name v
    defineAll scope rest

/-- Writes the nearest variable of this name, or creates it. -/
def assign (scope : ScopeId) (name : String) (v : Value) : Eval Unit :=
  bindName name (·.assign scope name v)

/-- Binds a package in this very scope. -/
def definePackage (scope : ScopeId) (name : String) (package : ScopeId) : Eval Unit :=
  bindName name (·.definePackage scope name package)

/-- A function that closes over a scope. -/
def closure (definition : FuncDef) (scope : ScopeId) (selfBound : Bool) : Eval Value := do
  modify (·.capture scope)
  alloc (·.addFunc (.script definition scope (selfBound && definition.name.isSome)))

/-- The package that a name stands for, unless it is a variable. -/
def packageOf? (object : Expr) (scope : ScopeId) : Eval (Option ScopeId) :=
  match object.kind with
  | .ident name => do
    if (← readHeap (·.lookup? scope name)).isSome then return none
    readHeap (·.packageNamed? scope name)
  | _ => return none

/-! ## Deferred calls -/

/-- Runs `m` with a new frame for deferred calls. -/
def inFrame {α : Type} (m : FrameId → Eval α) : Eval α := do
  let frame ← update fun s => (s.frames.next, { s with frames := s.frames.push [] })
  holding (.frame frame) (m frame)

/-- Registers a call. -/
def defer (frame : FrameId) (call : DeferredCall) : Eval Unit :=
  modify (·.defer frame call)

/-- The calls that are registered, last one first. -/
def deferred (frame : FrameId) : Eval (List DeferredCall) :=
  read fun s => (s.frames.get? frame).getD []

/-- Takes out the call that was registered last. -/
def dropDeferred (frame : FrameId) : Eval Unit :=
  modify fun s => { s with frames := s.frames.modify frame List.tail }

end Eval

namespace Evaluator

/-- Evaluates expressions in order; their values are held meanwhile. -/
def exprs (ev : Evaluator) (scope : ScopeId) : List Expr → Eval (List Value)
  | [] => return []
  | e :: rest => do
    let v ← ev.expr e scope
    let vs ← Eval.holdingValue v (exprs ev scope rest)
    return v :: vs

/-- Runs statements in `scope` until one of them leaves; `last` is the value so far. -/
def blockFrom (ev : Evaluator) (scope : ScopeId) (frame : FrameId) (last : Value) :
    Block → Eval Flow
  | [] => return .value last
  | stmt :: rest => do
    match ← Eval.holdingValue last (ev.stmt stmt scope frame) with
    | .value v => blockFrom ev scope frame v rest
    | flow => return flow

/-- Runs statements in `scope` itself. The value is that of the last one. -/
def block (ev : Evaluator) (body : Block) (scope : ScopeId) (frame : FrameId) : Eval Flow :=
  ev.blockFrom scope frame .nil body

/-- Runs statements in a scope of their own. -/
def evalInner (ev : Evaluator) (body : Block) (scope : ScopeId) (frame : FrameId) : Eval Flow :=
  Eval.inChild scope fun inner => ev.block body inner frame

/-- Evaluates an expression that has to be a channel. -/
def channel (ev : Evaluator) (e : Expr) (scope : ScopeId) : Eval ChanId := do
  match ← ev.expr e scope with
  | .chan id => return id
  | v => Eval.failWith ("channel operation on non-channel type " ++ (← Eval.typeName v))

end Evaluator

end ScriptEngine
