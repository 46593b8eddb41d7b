import ScriptEngine.Arguments
import ScriptEngine.Task.Channel
import ScriptEngine.Task.Run

/-! The core library: what its functions do with their converted arguments. -/
namespace ScriptEngine

namespace Heap

/-- Fails because a function cannot work on an argument. -/
def wrongArgument {α : Type} (h : Heap) (function : String) (v : Value) : Outcome α :=
  invalid ("invalid argument " ++ h.text v ++ " (type " ++ h.typeName v ++ ") for " ++ function)

/-- The items of the arguments that are packed into one list. -/
def packed (h : Heap) (args : List Value) : List Value :=
  match args.getLast? with
  | some (.list id) => (h.list id).items.toList
  | _ => []

/-- The number of elements of a value. -/
def length (h : Heap) : Value → Outcome Nat
  | .nil => .ok 0
  | .str s => .ok s.length
  | .list id => .ok (h.list id).items.size
  | .map id => .ok (h.map id).entries.length
  | .chan id => .ok (h.chan id).length
  | v => h.wrongArgument "len" v

/-- Appends items in order. -/
def pushAll (h : Heap) (id : ListId) : List Value → Outcome Heap
  | [] => .ok h
  | v :: rest => do (← h.pushItem id v).pushAll id rest

/-- A new list with more items than the given one, which stays as it is. -/
def append (h : Heap) (target : Value) (items : List Value) : Outcome (Value × Heap) := do
  let source : ListCell ← match target with
    | .nil => .ok ⟨#[], none, false⟩
    | .list id => .ok { h.list id with fixed := false }
    | v => h.wrongArgument "append" v
  let id := h.lists.next
  let (v, h) := h.addList source
  return (v, ← h.pushAll id items)

/-- Removes a key from a map. -/
def delete (h : Heap) (target key : Value) : Outcome Heap :=
  match target with
  | .map id => do return (← h.removeEntry id key).2
  | .nil => .ok h
  | v => h.wrongArgument "delete" v

/-- The keys of a map. -/
def keys (h : Heap) : Value → Outcome (List Value)
  | .map id => .ok (h.map id).keys
  | .nil => .ok []
  | v => h.wrongArgument "keys" v

end Heap

/-- Where a range starts, where it ends, and the step between two of its numbers. -/
structure RangeBounds where
  start : Int
  stop : Int
  step : Int
deriving Repr, DecidableEq, Inhabited

namespace RangeBounds

/-- The bounds that one, two or three arguments stand for. -/
def ofArguments : List Int → Outcome RangeBounds
  | [stop] => .ok ⟨0, stop, 1⟩
  | [start, stop] => .ok ⟨start, stop, 1⟩
  | [start, stop, step] =>
    if step = 0 then invalid "range argument 3 must not be zero" else .ok ⟨start, stop, step⟩
  | args => Heap.wrongCount "range" "1 to 3" args.length

/-- How many numbers lie before the end. -/
def count (b : RangeBounds) : Nat :=
  let span := if 0 < b.step then b.stop - b.start else b.start - b.stop
  let stride : Int := b.step.natAbs
  if span ≤ 0 then 0 else ((span + stride - 1) / stride).toNat

/-- The number at a position. -/
def item (b : RangeBounds) (i : Nat) : Int := b.start + i * b.step

end RangeBounds

namespace Builtin

open Eval

/-- The numbers of a range, built under the ceiling of the run. -/
def buildRange (run : RunId) (bounds : RangeBounds) : Eval Value := do
  let items ← build run bounds.count fun i s => (.ok (.int (Int64.ofInt (bounds.item i))), s)
  alloc (·.addPlainList items)

/-- What a function of the core library does. -/
def act (run : RunId) (args : List Value) (f : Builtin) : Eval (List Value) := do
  let target := args.headD .nil
  match f with
  | .len => return [.int (Int64.ofNat (← tryHeap (·.length target)))]
  | .range =>
    let args ← readHeap (·.packed args)
    let bounds ← ofOutcome (RangeBounds.ofArguments (args.map (·.toInt.toInt)))
    return [← buildRange run bounds]
  | .append => return [← onHeap fun h => h.append target (h.packed args.tail)]
  | .delete =>
    changeHeap (·.delete target (args.getD 1 .nil))
    return []
  | .keys =>
    let keys ← tryHeap (·.keys target)
    return [← alloc (·.addPlainList keys.toArray)]
  | .close =>
    match target with
    | .chan id =>
      Eval.close id
      return []
    | v => tryHeap (·.wrongArgument "close" v)
  | .typeOf => return [.str (← readHeap (·.typeName target))]
  | .kindOf => return [.str (← readHeap (·.kindName target))]
  | .toString => return [.str (← readHeap (·.text target))]
  | .toInt => return [.int target.toInt]
  | .toFloat => return [.float target.toFloat]
  | .toBool => return [.bool (← readHeap (·.looseBool target))]

end Builtin

end ScriptEngine
