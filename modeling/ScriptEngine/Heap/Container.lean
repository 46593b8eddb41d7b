import ScriptEngine.Heap.Convert

/-! Reading and writing lists, maps and the fields of handles. A write is first **prepared**: the
value is converted to the declared type, and the place has to be there. What is prepared cannot
fail, so a write that fails leaves the heap as it was. -/
namespace ScriptEngine

/-- A write that is prepared. -/
inductive Write where
  /-- An item of a list, or one right behind the last. -/
  | item (id : ListId) (index : Nat) (v : Value)
  | entry (id : MapId) (key : MapKey) (v : Value)
  | field (id : HandleId) (index : Nat) (v : Value)
deriving Inhabited

namespace Heap

/-- Carries a write out. -/
def perform (h : Heap) : Write → Heap
  | .item id index v => h.modifyList id fun c =>
    if index < c.items.size then { c with items := c.items.setIfInBounds index v }
    else { c with items := c.items.push v }
  | .entry id key v => h.modifyMap id (·.insert key v)
  | .field id index v => h.modifyHandle id fun
    | .struct c => .struct { c with values := c.values.set index v }
    | o => o

/-- `v` as an element of a container with this element type. -/
def convertTo (h : Heap) (v : Value) : Option HostType → Outcome (Value × Heap)
  | some type => h.convert v type
  | none => .ok (v, h)

/-! ## Lists -/

/-- The write of an element. Writing at the end of a plain list appends. -/
def prepareItem (h : Heap) (id : ListId) (index : Int) (v : Value) : Outcome (Write × Heap) := do
  let (v, h) ← h.convertTo v (h.list id).elemType
  let c := h.list id
  let size : Int := c.items.size
  if 0 ≤ index ∧ (index < size ∨ (index = size ∧ c.isGrowable)) then
    return (.item id index.toNat v, h)
  else .error (.fault (.indexOutOfRange index c.items.size))

/-- Writes an element. -/
def storeItem (h : Heap) (id : ListId) (index : Int) (v : Value) : Outcome Heap := do
  let (w, h) ← h.prepareItem id index v
  return h.perform w

/-- Appends an element to a list that is not fixed. -/
def pushItem (h : Heap) (id : ListId) (v : Value) : Outcome Heap := do
  if (h.list id).fixed then invalid "cannot grow a fixed-size array"
  let (v, h) ← h.convertTo v (h.list id).elemType
  return h.modifyList id fun c => { c with items := c.items.push v }

/-! ## Maps -/

/-- The key that `v` is for this map, once it is converted to the map's key type. -/
def mapKey (h : Heap) (id : MapId) (v : Value) : Outcome MapKey := do
  let (v, h) ← h.convertTo v (h.map id).keyType
  h.keyOf v

/-- The value behind a key. -/
def stored? (h : Heap) (id : MapId) (key : Value) : Outcome (Option Value) := do
  return (h.map id).find? (← h.mapKey id key)

/-- The value behind a text key, which is taken as it is. -/
def storedUnder? (h : Heap) (id : MapId) (key : String) : Option Value :=
  (h.map id).find? (.str key)

/-- The map has this key. -/
def hasEntry (h : Heap) (id : MapId) (key : Value) : Outcome Bool := do
  return (← h.stored? id key).isSome

/-- The write of the value behind a key. -/
def prepareEntry (h : Heap) (id : MapId) (key v : Value) : Outcome (Write × Heap) := do
  let key ← h.mapKey id key
  let (v, h) ← h.convertTo v (h.map id).valueType
  return (.entry id key v, h)

/-- Binds a key to a value. -/
def storeEntry (h : Heap) (id : MapId) (key v : Value) : Outcome Heap := do
  let (w, h) ← h.prepareEntry id key v
  return h.perform w

/-- Unbinds a key, and gives the value it was bound to. -/
def removeEntry (h : Heap) (id : MapId) (key : Value) : Outcome (Option Value × Heap) := do
  let key ← h.mapKey id key
  return ((h.map id).find? key, h.modifyMap id (·.erase key))

/-! ## Handles -/

/-- The value of a field. Tokens have none. -/
def field (h : Heap) (id : HandleId) (name : String) : Outcome Value :=
  match h.handle id with
  | .struct c =>
    match c.get? name with
    | some v => .ok v
    | none => invalid ("type " ++ c.name ++ " has no field " ++ name)
  | .token typeName => invalid ("type " ++ typeName ++ " has no field or method " ++ name)

/-- The write of a field. -/
def prepareField (h : Heap) (id : HandleId) (name : String) (v : Value) :
    Outcome (Write × Heap) :=
  match h.handle id with
  | .struct c => do
    match c.position? name with
    | none => invalid ("type " ++ c.name ++ " has no field " ++ name)
    | some i =>
      let (v, h) ← h.convert v ((c.fields.getD i ("", .any)).2)
      return (.field id i v, h)
  | .token typeName => invalid ("type " ++ typeName ++ " has no settable field " ++ name)

/-- Writes a field. -/
def storeField (h : Heap) (id : HandleId) (name : String) (v : Value) : Outcome Heap := do
  let (w, h) ← h.prepareField id name v
  return h.perform w

/-- The names of a handle's fields. -/
def fieldNames (h : Heap) (id : HandleId) : List String :=
  match h.handle id with
  | .struct c => c.fields.map (·.1)
  | .token _ => []

/-! ## Making -/

/-- The size among the arguments of `make`, zero when it is absent. -/
def makeSize (h : Heap) : List Value → Outcome Nat
  | [] => .ok 0
  | v :: _ =>
    match v with
    | .int n => if 0 ≤ n.toInt then .ok n.toInt.toNat else tooSmall v
    | .float x => if let some n := x.toNat? then .ok n else tooSmall v
    | v => tooSmall v
where
  tooSmall (v : Value) : Outcome Nat :=
    invalid ("make size must be a non-negative integer, got " ++ h.text v)

/-- A slice of values of its element type. What refers to nothing is of no type. -/
def addSlice (h : Heap) (elem : HostType) (items : Array Value) : Outcome (Value × Heap) :=
  match items.find? (!h.has ·) with
  | some v => mismatch h elem v
  | none => .ok (h.addList ⟨items, some elem, false⟩)

/-- A channel for elements of this type; one for anything carries no type. -/
def chanFor (elem : HostType) (capacity : Nat) : Channel :=
  { capacity, elemType := if elem == .any then none else some elem }

/-- A sized slice, a channel with a buffer, or the zero value of any other type. -/
def make (h : Heap) (type : HostType) (args : List Value) : Outcome (Value × Heap) := do
  match type with
  | .slice elem =>
    let len ← h.makeSize args
    let (v, h) ← h.zero elem
    return h.addList ⟨← padded [] len v, some elem, false⟩
  | .chan elem =>
    let capacity ← h.makeSize args
    return h.addChan (chanFor elem capacity)
  | type => h.zero type

end Heap

end ScriptEngine
