import ScriptEngine.Evaluator.Expression

/-! Loops. Every round is a checkpoint and runs in a scope of its own. -/
namespace ScriptEngine

namespace Eval

/-- Repeats a round until it ends the loop, at most `rounds` times. -/
def loop (round : Eval LoopStep) : (rounds : Nat) → Eval Flow
  | 0 => outOfFuel
  | rounds + 1 => do
    match ← round with
    | .next => loop round rounds
    | .exit => return .unit
    | .leave flow => return flow

/-- One round for each row, `pick` telling what of it to bind. The rows to come are held. -/
def forRows (pick : Value × Value → List Value) (round : List Value → Eval LoopStep) :
    List (Value × Value) → Eval Flow
  | [] => return .unit
  | row :: rest => do
    match ← holding (.rows rest) (round (pick row)) with
    | .next => forRows pick round rest
    | .exit => return .unit
    | .leave flow => return flow

/-- One round for each of `count` numbers from `i` on. -/
def forCount (round : List Value → Eval LoopStep) : (count : Nat) → (i : Nat) → Eval Flow
  | 0, _ => return .unit
  | count + 1, i => do
    let v : Value := .int (Int64.ofNat i)
    match ← round [v, v] with
    | .next => forCount round count (i + 1)
    | .exit => return .unit
    | .leave flow => return flow

/-- One round for each value that is received. -/
def forReceived (chan : ChanId) (signal : SignalId) (waits : Nat)
    (round : List Value → Eval LoopStep) : (rounds : Nat) → Eval Flow
  | 0 => outOfFuel
  | rounds + 1 => do
    match ← recv waits chan signal with
    | (_, false) => return .unit
    | (v, true) =>
      match ← round [v] with
      | .next => forReceived chan signal waits round rounds
      | .exit => return .unit
      | .leave flow => return flow

end Eval

/-- Items with their positions. -/
def numbered (items : List Value) : List (Value × Value) :=
  items.zipIdx.map fun (v, i) => (.int (Int64.ofNat i), v)

namespace Evaluator

open Eval

/-- The condition of a loop holds, or there is none. -/
def holds (ev : Evaluator) (condition : Option Expr) (scope : ScopeId) : Eval Bool := do
  match condition with
  | some e => truthy (← ev.expr e scope)
  | none => return true

/-- A round of a loop with a condition: checkpoint, condition, body. -/
def conditional (ev : Evaluator) (condition : Option Expr) (body : Block) (scope : ScopeId)
    (frame : FrameId) : Eval LoopStep := do
  checkpoint ev.run
  if ← ev.holds condition scope then return (← ev.inner body scope frame).loopStep
  else return .exit

/-- A loop that runs while its condition holds. -/
def whileLoop (ev : Evaluator) (condition : Option Expr) (body : Block) (scope : ScopeId)
    (frame : FrameId) : Eval Flow :=
  loop (ev.conditional condition body scope frame) ev.rounds

/-- A round of a loop with a statement after each round. -/
def clauseRound (ev : Evaluator) (condition : Option Expr) (post : Option Stmt) (body : Block)
    (scope : ScopeId) (frame : FrameId) : Eval LoopStep := do
  match ← ev.conditional condition body scope frame, post with
  | .next, some post =>
    let _ ← ev.stmt post scope frame
    return .next
  | outcome, _ => return outcome

/-- The statement before a loop, then the loop. -/
def clauseLoop (ev : Evaluator) (init : Option Stmt) (condition : Option Expr) (post : Option Stmt)
    (body : Block) (scope : ScopeId) (frame : FrameId) : Eval Flow := do
  if let some init := init then
    let _ ← ev.stmt init scope frame
  loop (ev.clauseRound condition post body scope frame) ev.rounds

/-- The statement declares variables. -/
def declares : Option Stmt → Bool
  | some (.mk (.var _ _) _) => true
  | _ => false

/-- A loop with clauses. Variables declared by the first clause live in a scope around the loop. -/
def forClause (ev : Evaluator) (init : Option Stmt) (condition : Option Expr) (post : Option Stmt)
    (body : Block) (scope : ScopeId) (frame : FrameId) : Eval Flow :=
  if declares init then
    inChild scope fun inner => ev.clauseLoop init condition post body inner frame
  else ev.clauseLoop init condition post body scope frame

/-- A round of an iteration: checkpoint, a scope with the row bound, body. -/
def iteration (ev : Evaluator) (vars : List String) (body : Block) (scope : ScopeId)
    (frame : FrameId) (row : List Value) : Eval LoopStep := do
  let inner ← holding (.values row) do
    checkpoint ev.run
    openScope scope
  holding (.block inner) do
    defineAll inner (vars.zip row)
    return (← ev.block body inner frame).loopStep

/-- An iteration over what is received from a channel. -/
def forChannel (ev : Evaluator) (vars : List String) (chan : ChanId) (body : Block)
    (scope : ScopeId) (frame : FrameId) : Eval Flow := do
  if vars.length ≠ 1 then failWith "for-in over a channel takes one variable"
  let signal ← signalOf ev.run
  holdingValue (.chan chan) <|
    forReceived chan signal ev.rounds (ev.iteration vars body scope frame) ev.rounds

/-- An iteration: over the items of a list, the entries of a map, the characters of a text, the
numbers below a number, or what is received from a channel. Containers are iterated as they are at
the beginning. One variable takes the item, or of a map the key. -/
def forIn (ev : Evaluator) (vars : List String) (iterable : Expr) (body : Block) (scope : ScopeId)
    (frame : FrameId) : Eval Flow := do
  unless vars.length = 1 || vars.length = 2 do
    failWith ("for-in takes one or two variables, got " ++ toString vars.length)
  let pair := vars.length = 2
  let round := ev.iteration vars body scope frame
  match ← ev.expr iterable scope with
  | .list id =>
    let rows ← readHeap fun h => numbered (h.list id).items.toList
    forRows (fun (k, v) => if pair then [k, v] else [v]) round rows
  | .map id =>
    let rows ← readHeap fun h => (h.map id).entries.map fun (k, v) => (k.toValue, v)
    forRows (fun (k, v) => if pair then [k, v] else [k]) round rows
  | .str s =>
    let rows := numbered (s.toList.map fun c => .str (String.ofList [c]))
    forRows (fun (k, v) => if pair then [k, v] else [v]) round rows
  | .int n => forCount round n.toInt.toNat 0
  | .chan chan => ev.forChannel vars chan body scope frame
  | .nil => return .unit
  | v => failWith ("cannot range over " ++ (← typeName v))

end Evaluator

end ScriptEngine
