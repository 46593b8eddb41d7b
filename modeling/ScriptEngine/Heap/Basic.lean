import ScriptEngine.Bindings
import ScriptEngine.Host.Function
import ScriptEngine.Store
import ScriptEngine.Tree.Basic
import ScriptEngine.Value

/-! The heap: the objects that values refer to, and the scopes that functions refer to. -/
namespace ScriptEngine

/-- A sequence. One with an element type holds converted items; a fixed one keeps its length. -/
structure ListCell where
  items : Array Value
  elemType : Option HostType
  fixed : Bool
deriving Inhabited

/-- Plain sequences grow by assignment at their end. -/
def ListCell.isGrowable (c : ListCell) : Bool := !c.fixed && c.elemType.isNone

/-- A map: keys with values in the order of the keys. -/
structure MapCell where
  entries : List (MapKey × Value)
  keyType : Option HostType
  valueType : Option HostType
deriving Inhabited

namespace MapCell

/-- The value behind a key in ordered entries. -/
def findIn (key : MapKey) : List (MapKey × Value) → Option Value
  | [] => none
  | (k, v) :: rest => if key.same k then some v else findIn key rest

/-- The entries with `key` bound to `value`, still in order. -/
def insertIn (key : MapKey) (value : Value) : List (MapKey × Value) → List (MapKey × Value)
  | [] => [(key, value)]
  | (k, v) :: rest =>
    match key.compare k with
    | .lt => (key, value) :: (k, v) :: rest
    | .eq => (k, value) :: rest
    | .gt => (k, v) :: insertIn key value rest

/-- The entries without `key`. -/
def eraseIn (key : MapKey) (entries : List (MapKey × Value)) : List (MapKey × Value) :=
  entries.filter fun (k, _) => !key.same k

def find? (c : MapCell) (key : MapKey) : Option Value := findIn key c.entries

def insert (c : MapCell) (key : MapKey) (value : Value) : MapCell :=
  { c with entries := insertIn key value c.entries }

def erase (c : MapCell) (key : MapKey) : MapCell := { c with entries := eraseIn key c.entries }

/-- The keys in order, as values. -/
def keys (c : MapCell) : List Value := c.entries.map (·.1.toValue)

end MapCell

/-- A function: a closure over the scope of its definition, or one of the host. A self-bound closure
sees its own name in every call. -/
inductive Function where
  | script (definition : FuncDef) (scope : ScopeId) (selfBound : Bool)
  | host (function : HostFunction)

/-- A function that does nothing. -/
instance : Inhabited Function := ⟨.host (.fixed "" [] [] .echo)⟩

namespace Function

def name : Function → String
  | .script definition _ _ => definition.displayName
  | .host f => f.name

/-- The parameters as the answer of `typeOf`: names for closures, types for host functions. -/
def signature : Function → String
  | .script definition _ _ =>
    "func(" ++ String.intercalate ", " definition.params ++
      (if definition.variadic then "..." else "") ++ ")"
  | .host f =>
    "func(" ++ String.intercalate ", " (f.params.map HostType.text) ++
      (if f.variadic then "..." else "") ++ ")"

end Function

/-- A first-in first-out channel. `sent` and `received` count the values that were ever accepted and
handed out; `waiting` counts the receivers that are registered as waiting. -/
structure Channel where
  capacity : Nat
  elemType : Option HostType
  buffer : List Value := []
  closed : Bool := false
  sent : Nat := 0
  received : Nat := 0
  waiting : Nat := 0
deriving Inhabited

/-- Values that are ready to be taken. What senders on an unbuffered channel hold does not count. -/
def Channel.length (c : Channel) : Nat := if c.capacity = 0 then 0 else c.buffer.length

/-- A struct of the host: the fields of its type, in order, with their values. -/
structure StructCell where
  name : String
  fields : List (String × HostType)
  values : List Value
deriving Inhabited

/-- The position of the first field of this name. -/
def StructCell.position? (c : StructCell) (field : String) : Option Nat :=
  c.fields.findIdx? (·.1 == field)

/-- The value of the first field of this name. -/
def StructCell.get? (c : StructCell) (field : String) : Option Value :=
  (c.position? field).map fun i => c.values.getD i .nil

/-- Something of the host. -/
inductive Handle where
  | struct (cell : StructCell)
  | token (typeName : String)
deriving Inhabited

def Handle.typeName : Handle → String
  | .struct cell => cell.name
  | .token typeName => typeName

abbrev GovernorId := Nat

/-- A frame of names. It refers to the frame around it, and to a governor who counts it if it is a
child of another scope. -/
structure Scope where
  vars : Bindings Value := .empty
  types : Bindings HostType := .empty
  packages : Bindings ScopeId := .empty
  parent : Option ScopeId := none
  governor : GovernorId := 0
  counted : Bool := false
  /-- Something besides the block that runs in it may refer to it. -/
  captured : Bool := false
deriving Inhabited

/-- All objects. -/
structure Heap where
  lists : Store ListCell := {}
  maps : Store MapCell := {}
  funcs : Store Function := {}
  chans : Store Channel := {}
  handles : Store Handle := {}
  scopes : Store Scope := {}
deriving Inhabited

/-- More levels than any stack has room for. What would never end exhausts the stack before it has gone
down so far, and ends the program. -/
def beyondStacks : Nat := 0x10000000000

namespace Heap

/-- The list with this number; a number that was never given out stands for an empty one. -/
def list (h : Heap) (id : ListId) : ListCell := (h.lists.get? id).getD ⟨#[], none, false⟩

def map (h : Heap) (id : MapId) : MapCell := (h.maps.get? id).getD ⟨[], none, none⟩

def func (h : Heap) (id : FuncId) : Function := (h.funcs.get? id).getD default

/-- The channel with this number; one that is not there is closed, so nobody waits for it. -/
def chan (h : Heap) (id : ChanId) : Channel :=
  (h.chans.get? id).getD { capacity := 0, elemType := none, closed := true }

def handle (h : Heap) (id : HandleId) : Handle := (h.handles.get? id).getD default

def scope (h : Heap) (id : ScopeId) : Scope := (h.scopes.get? id).getD {}

/-- The object that the value refers to is in the heap. -/
def has (h : Heap) : Value → Bool
  | .list id => (h.lists.get? id).isSome
  | .map id => (h.maps.get? id).isSome
  | .func id => (h.funcs.get? id).isSome
  | .chan id => (h.chans.get? id).isSome
  | .handle id => (h.handles.get? id).isSome
  | _ => true

def addList (h : Heap) (cell : ListCell) : Value × Heap :=
  (.list h.lists.next, { h with lists := h.lists.push cell })

def addMap (h : Heap) (cell : MapCell) : Value × Heap :=
  (.map h.maps.next, { h with maps := h.maps.push cell })

def addFunc (h : Heap) (f : Function) : Value × Heap :=
  (.func h.funcs.next, { h with funcs := h.funcs.push f })

def addChan (h : Heap) (c : Channel) : Value × Heap :=
  (.chan h.chans.next, { h with chans := h.chans.push c })

def addHandle (h : Heap) (o : Handle) : Value × Heap :=
  (.handle h.handles.next, { h with handles := h.handles.push o })

/-- A new plain list. -/
def addPlainList (h : Heap) (items : Array Value) : Value × Heap := h.addList ⟨items, none, false⟩

@[inline] def modifyList (h : Heap) (id : ListId) (f : ListCell → ListCell) : Heap :=
  { h with lists := h.lists.modify id f }

@[inline] def modifyMap (h : Heap) (id : MapId) (f : MapCell → MapCell) : Heap :=
  { h with maps := h.maps.modify id f }

@[inline] def modifyChan (h : Heap) (id : ChanId) (f : Channel → Channel) : Heap :=
  { h with chans := h.chans.modify id f }

@[inline] def modifyHandle (h : Heap) (id : HandleId) (f : Handle → Handle) : Heap :=
  { h with handles := h.handles.modify id f }

@[inline] def modifyScope (h : Heap) (id : ScopeId) (f : Scope → Scope) : Heap :=
  { h with scopes := h.scopes.modify id f }

end Heap

end ScriptEngine
