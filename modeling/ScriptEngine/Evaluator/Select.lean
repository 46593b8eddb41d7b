import ScriptEngine.Evaluator.Expression

/-! The `select` statement. Channels and values of all cases are evaluated once, in order; then the
first case that needs no waiting is taken. While a `select` without default waits, it counts as a
receiver on the channels it only receives from, so that a `select` that sends can meet it. -/
namespace ScriptEngine

/-- The channels on which a `select` with these operations counts as a receiver. -/
def receiverChannels (ops : List (ChanId × Option Value)) : List ChanId :=
  let sending := (ops.filter (·.2.isSome)).map (·.1)
  (ops.filter fun (chan, outgoing) => outgoing.isNone && !sending.contains chan).map (·.1)

namespace SelectCase

def op : SelectCase → SelectOp
  | .mk op _ => op

def body : SelectCase → Block
  | .mk _ body => body

/-- The names that a case binds to what it received. -/
def received (c : SelectCase) : Option (Value × Bool) → List (String × Value)
  | none => []
  | some (v, present) =>
    match c.op with
    | .recv _ value ok => value.toList.map (·, v) ++ ok.toList.map (·, .bool present)
    | .send _ _ => []

end SelectCase

namespace Evaluator

open Eval

/-- The channel of a case, and the value if it is a send. -/
def prepareCase (ev : Evaluator) (scope : ScopeId) : SelectOp → Eval (ChanId × Option Value)
  | .recv channel _ _ => do return (← ev.channel channel scope, none)
  | .send channel value => do
    let chan ← ev.channel channel scope
    let v ← holdingValue (.chan chan) (ev.expr value scope)
    return (chan, some v)

/-- The operations of all cases, in order. -/
def prepareCases (ev : Evaluator) (scope : ScopeId) :
    List SelectCase → Eval (List (ChanId × Option Value))
  | [] => return []
  | c :: rest => do
    let op ← ev.prepareCase scope c.op
    let ops ← holding (.values (caseValues op)) (prepareCases ev scope rest)
    return op :: ops

/-- Runs the body of the case that was taken. -/
def takeCase (ev : Evaluator) (c : SelectCase) (received : Option (Value × Bool)) (scope : ScopeId)
    (frame : FrameId) : Eval Flow := do
  let inner ← holding (.values (received.toList.map (·.1))) (openScope scope)
  holding (.block inner) do
    defineAll inner (c.received received)
    return (← ev.block c.body inner frame).consumeBreak

/-- The `select` statement. -/
def select (ev : Evaluator) (cases : List SelectCase) (default : Option Block) (scope : ScopeId)
    (frame : FrameId) : Eval Flow := do
  let ops ← ev.prepareCases scope cases
  holding (.values (ops.flatMap caseValues)) do
    let signal ← signalOf ev.run
    let receivers := if default.isNone then receiverChannels ops else []
    match ← receivingAll receivers (awaitCase ops default.isSome signal ev.rounds), default with
    | some (index, received), _ =>
      match cases[index]? with
      | some c => ev.takeCase c received scope frame
      | none => return .unit
    | none, some body => return (← ev.inner body scope frame).consumeBreak
    | none, none => return .unit

end Evaluator

end ScriptEngine
