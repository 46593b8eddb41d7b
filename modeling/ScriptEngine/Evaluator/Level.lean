import ScriptEngine.Evaluator.Statement

/-! The evaluator. Scripts need not end, so evaluation is bounded: an evaluator with fuel evaluates
a node by asking the evaluator with less fuel for the parts. Without fuel every request stops the
task, which is neither a value nor an error. -/
namespace ScriptEngine.Evaluator

/-- The evaluator of a run that has this much fuel. -/
def ofFuel (run : RunId) : Nat → Evaluator
  | 0 =>
    { run
      rounds := 0
      expr := fun _ _ => Eval.outOfFuel
      stmt := fun _ _ _ => Eval.outOfFuel
      inner := fun _ _ _ => Eval.outOfFuel
      body := fun _ _ => Eval.outOfFuel
      call := fun _ _ _ => Eval.outOfFuel }
  | fuel + 1 =>
    { run
      rounds := fuel
      expr := fun e scope => (ofFuel run fuel).evalExpr e scope
      stmt := fun stmt scope frame => (ofFuel run fuel).evalStmt stmt scope frame
      inner := fun block scope frame => (ofFuel run fuel).evalInner block scope frame
      body := fun block scope => (ofFuel run fuel).evalBody block scope
      call := fun callee args spread => (ofFuel run fuel).callValue callee args spread }

/-- Runs a script in a scope. A `return` ends it with a value. -/
def program (ev : Evaluator) (script : Block) (scope : ScopeId) : Eval Value := do
  match ← ev.body script scope with
  | .value v | .ret v => return v
  | flow => Eval.failWith (flow.keyword ++ " outside of a loop")

end ScriptEngine.Evaluator
