import ScriptEngine.Evaluator.Basic

/-! Places that can be assigned to: names, elements, fields and members of packages. The container
and the key are evaluated once; reading and writing the place go through them. -/
namespace ScriptEngine

/-- Where an assignment goes. -/
inductive Place where
  | var (name : String)
  | element (container index : Value)
  | field (container : Value) (name : String)
  | member (package : ScopeId) (name : String)
deriving Inhabited

namespace Place

/-- What a place holds on to. -/
def holdings : Place → List Holding
  | .var _ => []
  | .element container index => [.values [container, index]]
  | .field container _ => [.value container]
  | .member package _ => [.package package]

/-- Holds what the place refers to while `m` runs. -/
def holding {α : Type} (p : Place) (m : Eval α) : Eval α := p.holdings.foldr Eval.holding m

end Place

namespace Evaluator

/-- The place that an expression stands for. -/
def place (ev : Evaluator) (target : Expr) (scope : ScopeId) : Eval Place := do
  match target.kind with
  | .ident name => return .var name
  | .index object index =>
    let container ← ev.expr object scope
    let index ← Eval.holdingValue container (ev.expr index scope)
    return .element container index
  | .member object name =>
    match ← Eval.packageOf? object scope with
    | some package => return .member package name
    | none => return .field (← ev.expr object scope) name
  | _ => Eval.misfit .target

end Evaluator

namespace Eval

/-- The value in a place. -/
def readPlace (p : Place) (scope : ScopeId) : Eval Value :=
  match p with
  | .var name => lookup scope name
  | .element container index => tryHeap (·.index container index)
  | .field container name => tryHeap (·.member container name)
  | .member package name => lookup package name

/-- Writes a place. -/
def writePlace (p : Place) (scope : ScopeId) (v : Value) : Eval Unit :=
  match p with
  | .var name => assign scope name v
  | .element container index => store (·.prepareIndex container index v)
  | .field container name => store (·.prepareMember container name v)
  | .member package name => assign package name v

end Eval

end ScriptEngine
