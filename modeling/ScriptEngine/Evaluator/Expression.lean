import ScriptEngine.Evaluator.Place

/-! Evaluation of expressions. Each expression is one cycle, and its operands are evaluated from
left to right; what has been evaluated is held while the rest is. -/
namespace ScriptEngine

/-- The value that a literal denotes. -/
def Literal.value : Literal → Value
  | .nil => .nil
  | .bool b => .bool b
  | .int n => .int n
  | .float x => .float x
  | .string s => .str s

namespace Eval

/-- A binary operator, where repeating a text counts as work of the run. -/
def combine (run : RunId) (op : BinaryOp) (left right : Value) : Eval Value :=
  match Heap.repeatOperands op left right with
  | some (text, count) => do return .str (← repeatText run text count)
  | none => onHeap (·.binary op left right)

/-- The type that a written type stands for. -/
def resolve (type : TypeExpr) (scope : ScopeId) : Eval HostType :=
  tryHeap (·.resolveType scope type)

/-- The zero value of a type as an item to build. -/
def zeroItem (type : HostType) : Nat → EngineState → Outcome Value × EngineState := fun _ s =>
  if type.hasZero then
    let (v, h) := s.heap.zeroValue type
    (.ok v, { s with heap := h })
  else (.error .overflow, s)

/-- A new value of a type: a slice of so many zero values, a channel with so large a buffer, or the
zero value. -/
def make (run : RunId) (type : HostType) (args : List Value) : Eval Value := do
  match type with
  | .slice elem =>
    let length ← tryHeap (·.makeSize args)
    let items ← build run length (zeroItem elem)
    onHeap (·.addSlice elem items)
  | type => onHeap (·.make type args)

/-- A list with items of a declared type. -/
def typedList (type : HostType) (items : List Value) : Eval Value :=
  onHeap fun h => do
    let (items, h) ← Heap.convertItems (fun h v => h.convert v type) h items
    return h.addList ⟨items.toArray, some type, false⟩

end Eval

namespace Evaluator

open Eval

/-- Evaluates a part that may be absent. -/
def optional (ev : Evaluator) (scope : ScopeId) : Option Expr → Eval (Option Value)
  | none => return none
  | some e => do return some (← ev.expr e scope)

/-- `left op right`. The right side of `&&` and `||` is evaluated only if it matters. -/
def binary (ev : Evaluator) (op : BinaryOp) (left right : Expr) (scope : ScopeId) : Eval Value := do
  let l ← ev.expr left scope
  match op, ← truthy l with
  | .and, false => return .bool false
  | .or, true => return .bool true
  | .and, true | .or, false => return .bool (← truthy (← holdingValue l (ev.expr right scope)))
  | op, _ =>
    let r ← holdingValue l (ev.expr right scope)
    combine ev.run op l r

/-- `object[start:stop]`. -/
def slice (ev : Evaluator) (object : Expr) (start stop : Option Expr) (scope : ScopeId) :
    Eval Value := do
  let target ← ev.expr object scope
  let start ← holdingValue target (ev.optional scope start)
  let stop ← holding (.values (target :: start.toList)) (ev.optional scope stop)
  onHeap (·.slice target start stop)

/-- The callee and the arguments of a call. -/
def callParts (ev : Evaluator) (callee : Expr) (args : List Expr) (scope : ScopeId) :
    Eval (Value × List Value) := do
  let callee ← ev.expr callee scope
  let args ← holdingValue callee (ev.exprs scope args)
  return (callee, args)

/-- Evaluates and stores the entries of a map literal, one after the other. -/
def entries (ev : Evaluator) (scope : ScopeId) (map : MapId) : List (Expr × Expr) → Eval Unit
  | [] => pure ()
  | (key, value) :: rest => do
    let k ← ev.expr key scope
    let v ← holdingValue k (ev.expr value scope)
    store (·.prepareEntry map k v)
    entries ev scope map rest

/-- A map literal. -/
def mapLiteral (ev : Evaluator) (types : Option (TypeExpr × TypeExpr)) (fields : List (Expr × Expr))
    (scope : ScopeId) : Eval Value := do
  let (keyType, valueType) ← match types with
    | some (key, value) => pure (some (← resolve key scope), some (← resolve value scope))
    | none => pure (none, none)
  let map ← readHeap (·.maps.next)
  let v ← alloc (·.addMap ⟨[], keyType, valueType⟩)
  holdingValue v (ev.entries scope map fields)
  return v

/-- A list literal. -/
def listLiteral (ev : Evaluator) (elemType : Option TypeExpr) (items : List Expr)
    (scope : ScopeId) : Eval Value := do
  let items ← ev.exprs scope items
  match elemType with
  | none => alloc (·.addPlainList items.toArray)
  | some type => typedList (← resolve type scope) items

/-- `target++` and `target--`, which give the new value. -/
def update (ev : Evaluator) (target : Expr) (op : UpdateOp) (scope : ScopeId) : Eval Value := do
  let place ← ev.place target scope
  let current ← readPlace place scope
  let updated ← tryHeap (·.update op current)
  writePlace place scope updated
  return updated

/-- Receives from the channel that an expression stands for. -/
def receive (ev : Evaluator) (channel : Expr) (scope : ScopeId) : Eval (Value × Bool) := do
  let chan ← ev.channel channel scope
  recv ev.rounds chan (← signalOf ev.run)

/-- The value of an expression. -/
def dispatchExpr (ev : Evaluator) (scope : ScopeId) : ExprKind → Eval Value
  | .literal l => return l.value
  | .ident name => lookup scope name
  | .binary op left right => ev.binary op left right scope
  | .unary op operand => do
    let v ← ev.expr operand scope
    tryHeap (·.unary op v)
  | .ternary condition thenExpr elseExpr => do
    if ← truthy (← ev.expr condition scope) then ev.expr thenExpr scope else ev.expr elseExpr scope
  | .coalesce left right => do
    let v ← ev.expr left scope
    if ← truthy v then return v else holdingValue v (ev.expr right scope)
  | .member object name => do
    match ← packageOf? object scope with
    | some package => lookup package name
    | none =>
      let target ← ev.expr object scope
      tryHeap (·.member target name)
  | .index object index => do
    let target ← ev.expr object scope
    let i ← holdingValue target (ev.expr index scope)
    tryHeap (·.index target i)
  | .slice object start stop => ev.slice object start stop scope
  | .call callee args spread => do
    let (callee, args) ← ev.callParts callee args scope
    ev.call callee args spread
  | .func definition => closure definition scope true
  | .list elemType items => ev.listLiteral elemType items scope
  | .map types fields => ev.mapLiteral types fields scope
  | .contains item container => do
    let i ← ev.expr item scope
    let c ← holdingValue i (ev.expr container scope)
    return .bool (← tryHeap (·.contains i c))
  | .update target op => ev.update target op scope
  | .recv channel => do return (← ev.receive channel scope).1
  | .make type args => do
    let type ← resolve type scope
    let args ← ev.exprs scope args
    holding (.values args) (make ev.run type args)
  | .new type => do
    let type ← resolve type scope
    onHeap (·.zero type)

/-- One cycle, then the value of the expression. Errors get its place. -/
def evalExpr (ev : Evaluator) (e : Expr) (scope : ScopeId) : Eval Value := do
  step ev.run
  located e.pos (ev.dispatchExpr scope e.kind)

/-- A right side that may tell whether something is there: an element of a map, and a receive. -/
def commaOk (ev : Evaluator) (e : Expr) (scope : ScopeId) : Eval (Value × Option Bool) := do
  match e.kind with
  | .index object index =>
    step ev.run
    let target ← ev.expr object scope
    let i ← holdingValue target (ev.expr index scope)
    match target with
    | .map id =>
      let found ← located e.pos (tryHeap (·.stored? id i))
      return (found.getD .nil, some found.isSome)
    | target => return (← located e.pos (tryHeap (·.index target i)), none)
  | .recv channel =>
    step ev.run
    let (v, ok) ← ev.receive channel scope
    return (v, some ok)
  | _ => return (← ev.expr e scope, none)

end Evaluator

end ScriptEngine
