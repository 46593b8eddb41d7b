import ScriptEngine.Proofs.Evaluator.Marking
import ScriptEngine.Tree.Builder

/-! # Errors that no script may catch

When something inside a node ends with an error that no script may catch (an interrupt, an exhausted ceiling of
scopes, an internal fault), the node itself ends with such an error, unless on the way out something takes its
place.  Handlers do not: what no script may catch does not come to them.  There remain the last block of a `try`
that ends with control flow or with an error that may be caught, and such an error of a body or of a deferred
call, when the error that no script may catch is that of a later deferred call.
-/
namespace ScriptEngine

namespace EvalError

/-- No script may catch the error. -/
def isUncatchable (e : EvalError) : Bool := !e.fault.isCatchable

end EvalError

/-- No handler takes the place of such an error. -/
theorem Evaluator.caught_isUncatchable (handler : Option Block) (first : Except EvalError Flow) :
    caught EvalError.isUncatchable handler first = false := by
  cases first with
  | ok flow => rfl
  | error e => cases hcatch : e.fault.isCatchable <;> simp [caught, EvalError.isUncatchable, hcatch]

namespace Propagation

open Step (Halted)

/-! ## The law -/

/-- A state with a host function `stop` that fails as if the run had been cancelled. -/
def interruptible : EngineState :=
  { EngineState.initial with
    heap := {
      funcs := ({} : Store Function).push (.host (.fixed "stop" [] [] .interrupt))
      scopes := ({} : Store Scope).push { vars := Bindings.empty.insert "stop" (.func 0) } }
    runs := ({} : Store Run).push ⟨0, ⟨0, 0, 0, 0⟩, 0, 0⟩ }

end Propagation
end ScriptEngine
