import ScriptEngine.CoreLibrary
import ScriptEngine.Evaluator.Basic
import ScriptEngine.Heap.Build

/-! Calls. A closure runs in a new scope inside the one it closes over; a host function gets
converted arguments and acts. Calls that a body deferred are made when it ends, last one first, and
their errors never hide an error of the body. -/
namespace ScriptEngine

/-- The first error counts. -/
def firstError {α β : Type} : Except EvalError α → Except EvalError β → Except EvalError α
  | .ok _, .error e => .error e
  | outcome, _ => outcome

namespace Heap

/-- What an argument adds to a sum: a list its items, everything else itself. -/
def summands (h : Heap) : Value → List Value
  | .list id => (h.list id).items.toList
  | v => [v]

/-- The wrapping sum of arguments. -/
def sum (h : Heap) (args : List Value) : Int64 :=
  (args.flatMap h.summands).foldl (fun n v => n + v.toInt) 0

end Heap

namespace Evaluator

open Eval

/-- Makes deferred calls in this order. -/
def runCalls (ev : Evaluator) (frame : FrameId) :
    List DeferredCall → Except EvalError Flow → Eval (Except EvalError Flow)
  | [], outcome => return outcome
  | call :: rest, outcome => do
    dropDeferred frame
    let result ← holding (.values (outcomeValues outcome))
      (attempt (ev.call call.callee call.args call.spread))
    runCalls ev frame rest (firstError outcome result)

/-- Runs a body and then the calls that it deferred. -/
def evalBody (ev : Evaluator) (block : Block) (scope : ScopeId) : Eval Flow :=
  inFrame fun frame => do
    let outcome ← attempt (ev.block block scope frame)
    MonadExcept.ofExcept (← ev.runCalls frame (← deferred frame) outcome)

/-- Binds the names of a call in its scope. -/
def bindParams (callee : Value) (definition : FuncDef) (selfBound : Bool) (fixed : List Value)
    (rest : Option (List Value)) (scope : ScopeId) : Eval Unit := do
  if selfBound then
    if let some name := definition.name then define scope name callee
  defineAll scope (definition.params.zip fixed)
  match rest, definition.params.getLast? with
  | some rest, some name => define scope name (← alloc (·.addPlainList rest.toArray))
  | _, _ => pure ()

/-- Calls a closure. -/
def callScript (ev : Evaluator) (callee : Value) (definition : FuncDef) (around : ScopeId)
    (selfBound : Bool) (args : List Value) (spread : Bool) : Eval Value := do
  if definition.variadic && definition.params.isEmpty then
    misfit (.parameters definition.displayName)
  let count := definition.params.length - (if definition.variadic then 1 else 0)
  let (fixed, rest) ←
    tryHeap (·.bindArguments definition.displayName count definition.variadic args spread)
  let scope ← holding (.values (fixed ++ rest.getD [])) (openScope around)
  holding (.block scope) do
    bindParams callee definition selfBound fixed rest scope
    match ← ev.body definition.body scope with
    | .value _ => return .nil
    | .ret v => return v
    | flow => failWith (flow.keyword ++ " outside of a loop")

/-- Calls a function once for each item. The results so far are held, and what is still to come. -/
def callEach (ev : Evaluator) (callee : Value) : List Value → Eval (List Value)
  | [] => return []
  | item :: rest => do
    let v ← holding (.values (callee :: rest)) (ev.call callee [item] false)
    let vs ← holdingValue v (callEach ev callee rest)
    return v :: vs

/-- What a host function does with its arguments. -/
def act (ev : Evaluator) (args : List Value) : HostAction → Eval (List Value)
  | .core f => Builtin.act ev.run args f
  | .echo => return args
  | .typeNames => readHeap fun h => args.map fun v => .str (h.typeName v)
  | .sum => readHeap fun h => [.int (h.sum args)]
  | .call =>
    match args with
    | callee :: rest => do return [← ev.call callee rest false]
    | [] => return []
  | .callEach =>
    match args with
    | callee :: items :: _ => do
      let items ← readHeap (·.summands items)
      let results ← holding (.values args) (ev.callEach callee items)
      return [← alloc (·.addPlainList results.toArray)]
    | _ => return []
  | .cancel => do
    let signal ← signalOf ev.run
    modify (·.cancel signal)
    return []
  | .cycles => read fun s => [.int (Int64.ofNat (s.run ev.run).cycles)]
  | .sleep => do
    holding (.values args) (ExceptT.lift (Task.sleep (args.headD .nil).toInt.toInt.toNat))
    return []
  | .interrupt => fail .interrupt
  | .give results => onHeap (·.buildAll results)
  | .invalid message => failWith message
  | .internal message => fail (.internal message)
  | .throw value => do fail (.thrown (← onHeap (·.build value)))
  | .breakDown message => breakDown message

/-- Calls a host function. -/
def callHost (ev : Evaluator) (f : HostFunction) (args : List Value) (spread : Bool) :
    Eval Value := do
  let (fixed, rest) ← tryHeap (·.bindArguments f.name f.fixedArity f.variadic args spread)
  let args ← onHeap (·.hostArguments f fixed rest)
  let results ← ev.act args f.action
  onHeap (·.hostResult f results)

/-- Calls a value, which has to be a function and is held meanwhile. -/
def callValue (ev : Evaluator) (callee : Value) (args : List Value) (spread : Bool) : Eval Value :=
  match callee with
  | .func id => holdingValue callee do
    match ← readHeap (·.func id) with
    | .script definition around selfBound =>
      ev.callScript callee definition around selfBound args spread
    | .host f => ev.callHost f args spread
  | v => do failWith ("cannot call non-function value of type " ++ (← typeName v))

end Evaluator

end ScriptEngine
