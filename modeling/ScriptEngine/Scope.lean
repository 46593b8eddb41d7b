import ScriptEngine.Fault
import ScriptEngine.Heap.Copy
import ScriptEngine.Identifier

/-! Resolution of names. A scope knows the scope around it, which is older than itself; a name is
resolved by the nearest scope on the way out that binds it. -/
namespace ScriptEngine

namespace Heap

/-- The scope and those around it, from the inside out, at most `fuel` many. -/
def chainUpTo (h : Heap) : (fuel : Nat) → ScopeId → List ScopeId
  | 0, _ => []
  | fuel + 1, id =>
    id :: match (h.scope id).parent with
      | some p => h.chainUpTo fuel p
      | none => []

/-- The scope and those around it, from the inside out. Scopes around are older, so there are no
more than the number of the scope tells. -/
def chain (h : Heap) (id : ScopeId) : List ScopeId := h.chainUpTo (id + 1) id

/-- The nearest scope that binds a variable. -/
def binder? (h : Heap) (id : ScopeId) (name : String) : Option ScopeId :=
  (h.chain id).find? fun s => (h.scope s).vars.contains name

/-- The value a variable has in a scope. -/
def lookup? (h : Heap) (id : ScopeId) (name : String) : Option Value :=
  (h.chain id).findSome? fun s => (h.scope s).vars.find? name

/-- The type a name stands for in a scope. -/
def typeNamed? (h : Heap) (id : ScopeId) (name : String) : Option HostType :=
  (h.chain id).findSome? fun s => (h.scope s).types.find? name

/-- The package a name stands for in a scope. -/
def packageNamed? (h : Heap) (id : ScopeId) (name : String) : Option ScopeId :=
  (h.chain id).findSome? fun s => (h.scope s).packages.find? name

/-- The value of a variable that has to be bound. -/
def get (h : Heap) (id : ScopeId) (name : String) : Outcome Value :=
  match h.lookup? id name with
  | some v => .ok v
  | none => .error (.fault (.undefinedSymbol name))

/-- Only identifiers can be bound. -/
def checkIdentifier (name : String) : Outcome Unit :=
  if isIdentifier name then .ok () else invalid (Misfit.name name).message

/-- Binds a variable in this very scope. -/
def bindVar (h : Heap) (id : ScopeId) (name : String) (v : Value) : Heap :=
  h.modifyScope id fun s => { s with vars := s.vars.insert name v }

/-- Creates or overwrites a variable in this very scope. -/
def define (h : Heap) (id : ScopeId) (name : String) (v : Value) : Outcome Heap := do
  checkIdentifier name
  return h.bindVar id name v

/-- Overwrites the nearest variable of this name. -/
def set (h : Heap) (id : ScopeId) (name : String) (v : Value) : Outcome Heap :=
  match h.binder? id name with
  | some s => .ok (h.bindVar s name v)
  | none => .error (.fault (.undefinedSymbol name))

/-- Overwrites the nearest variable of this name, or creates it here where there is none. -/
def assign (h : Heap) (id : ScopeId) (name : String) (v : Value) : Outcome Heap :=
  match h.binder? id name with
  | some s => .ok (h.bindVar s name v)
  | none => h.define id name v

/-- Removes a variable of this very scope. -/
def deleteVar (h : Heap) (id : ScopeId) (name : String) : Heap :=
  h.modifyScope id fun s => { s with vars := s.vars.erase name }

def defineType (h : Heap) (id : ScopeId) (name : String) (type : HostType) : Outcome Heap := do
  checkIdentifier name
  return h.modifyScope id fun s => { s with types := s.types.insert name type }

def definePackage (h : Heap) (id : ScopeId) (name : String) (package : ScopeId) : Outcome Heap := do
  checkIdentifier name
  return h.modifyScope id fun s => { s with packages := s.packages.insert name package }

/-- Takes everything out of a scope, and out of the packages it holds, at most `fuel` levels
deep. -/
def clearUpTo : (fuel : Nat) → Heap → ScopeId → Heap
  | 0, h, _ => h
  | fuel + 1, h, id =>
    let packages := (h.scope id).packages.values
    let h := packages.foldl (fun h p => clearUpTo fuel h p) h
    h.modifyScope id fun s => { s with vars := .empty, types := .empty, packages := .empty }

/-- Takes everything out of a scope and out of the packages it holds. -/
def clear (h : Heap) (id : ScopeId) : Heap := h.clearUpTo (h.scopes.next + 1) id

/-- Deep copies of the variables, each on its own. -/
def copyVars : Heap → List (String × Value) → List (String × Value) × Heap
  | h, [] => ([], h)
  | h, (name, v) :: rest =>
    let (v, h) := h.deepCopy v
    let (vs, h) := copyVars h rest
    ((name, v) :: vs, h)

/-- Copies packages in order by `copyPackage`. -/
def copyPackages (copyPackage : Heap → ScopeId → ScopeId × Heap) :
    Heap → List (String × ScopeId) → List (String × ScopeId) × Heap
  | h, [] => ([], h)
  | h, (name, p) :: rest =>
    let (p, h) := copyPackage h p
    let (ps, h) := copyPackages copyPackage h rest
    ((name, p) :: ps, h)

/-- A copy of a scope with its packages, at most `fuel` levels deep. -/
def copyScopeUpTo (governor : GovernorId) : (fuel : Nat) → Heap → ScopeId → ScopeId × Heap
  | 0, h, id => (id, h)
  | fuel + 1, h, id =>
    let s := h.scope id
    let (vars, h) := copyVars h s.vars.entries
    let (packages, h) := copyPackages (copyScopeUpTo governor fuel) h s.packages.entries
    let copy : Scope :=
      { vars := ⟨vars⟩, types := s.types, packages := ⟨packages⟩, parent := s.parent, governor }
    (h.scopes.next, { h with scopes := h.scopes.push copy })

/-- A copy of a scope: its variables deep-copied, its packages copied, under another governor. The
scopes around it are shared, and no slot is taken for it. -/
def copyScope (h : Heap) (id : ScopeId) (governor : GovernorId) : ScopeId × Heap :=
  copyScopeUpTo governor (h.scopes.next + 1) h id

/-- The type that a written type stands for in a scope. -/
def resolveType (h : Heap) (scope : ScopeId) : TypeExpr → Outcome HostType
  | .named name =>
    match (HostType.builtin? name).or (h.typeNamed? scope name) with
    | some type => .ok type
    | none => .error (.fault (.undefinedSymbol name))
  | .slice elem => (h.resolveType scope elem).map .slice
  | .array elem len => (h.resolveType scope elem).map (.array · len)
  | .map key value => do return .map (← h.resolveType scope key) (← h.resolveType scope value)
  | .chan elem => (h.resolveType scope elem).map .chan

end Heap

end ScriptEngine
