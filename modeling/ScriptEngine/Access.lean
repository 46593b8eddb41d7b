import ScriptEngine.Heap.Container
import ScriptEngine.Heap.Equality

/-! Reading parts of values: elements, members, slices, and membership. -/
namespace ScriptEngine.Heap

/-- An index as a whole number; floats are cut toward zero. -/
def indexNumber (h : Heap) : Value → Outcome Int
  | .int n => .ok n.toInt
  | .float x => .ok x.toInt64.toInt
  | v => .error (.fault (.indexNotNumber (h.typeName v)))

/-- A position in a sequence of this length. -/
def position (index : Int) (len : Nat) : Outcome Nat :=
  if 0 ≤ index ∧ index < len then .ok index.toNat else .error (.fault (.indexOutOfRange index len))

/-- Fails because a handle is indexed by something other than a field name. -/
def badIndex {α : Type} (h : Heap) (target index : Value) : Outcome α :=
  invalid ("cannot index " ++ h.typeName target ++ " with " ++ h.typeName index)

/-- `target[index]`. A key that a map does not have reads as nil. -/
def index (h : Heap) (target index : Value) : Outcome Value := do
  match target with
  | .list id =>
    let items := (h.list id).items
    return items.getD (← position (← h.indexNumber index) items.size) .nil
  | .str s =>
    let chars := s.toList
    return .str (String.ofList [chars.getD (← position (← h.indexNumber index) chars.length) ' '])
  | .map id => return (← h.stored? id index).getD .nil
  | .handle id =>
    match index with
    | .str name => h.field id name
    | index => h.badIndex target index
  | v => invalid ("type " ++ h.typeName v ++ " does not support indexing")

/-- `target.name`. -/
def member (h : Heap) (target : Value) (name : String) : Outcome Value :=
  match target with
  | .map id => .ok ((h.storedUnder? id name).getD .nil)
  | .handle id => h.field id name
  | v => invalid ("type " ++ h.typeName v ++ " has no field or method " ++ name)

/-- A bound of a slice: absent ones are `default`, all lie within the sequence. -/
def sliceBound (h : Heap) (bound : Option Value) (default len : Nat) : Outcome Nat := do
  match bound with
  | none => return default
  | some v =>
    let n ← h.indexNumber v
    if 0 ≤ n ∧ n ≤ len then return n.toNat else .error (.fault (.indexOutOfRange n len))

/-- The bounds of a slice of a sequence of this length. -/
def sliceBounds (h : Heap) (start stop : Option Value) (len : Nat) : Outcome (Nat × Nat) := do
  let start ← h.sliceBound start 0 len
  let stop ← h.sliceBound stop len len
  if stop < start then .error (.fault (.invalidSliceIndex start stop)) else return (start, stop)

/-- `target[start:stop]`, a new sequence with the same element type. -/
def slice (h : Heap) (target : Value) (start stop : Option Value) : Outcome (Value × Heap) := do
  match target with
  | .list id =>
    let c := h.list id
    let (start, stop) ← h.sliceBounds start stop c.items.size
    return h.addList ⟨c.items.extract start stop, c.elemType, false⟩
  | .str s =>
    let chars := s.toList
    let (start, stop) ← h.sliceBounds start stop chars.length
    return (.str (String.ofList ((chars.drop start).take (stop - start))), h)
  | v => invalid ("type " ++ h.typeName v ++ " does not support slicing")

/-- `item in container`: elements of lists, keys of maps, parts of texts. -/
def contains (h : Heap) (item container : Value) : Outcome Bool :=
  match container with
  | .list id => .ok ((h.list id).items.any (h.equal item))
  | .map id =>
    match h.hasEntry id item with
    | .error (.fault _) => .ok false
    | outcome => outcome
  | .str s => .ok (Text.occursIn (h.text item).toList s.toList)
  | .nil => .ok false
  | v => invalid ("operator in not defined on " ++ h.typeName v)

/-- The write of `target[index]`. -/
def prepareIndex (h : Heap) (target index v : Value) : Outcome (Write × Heap) := do
  match target with
  | .list id => h.prepareItem id (← h.indexNumber index) v
  | .map id => h.prepareEntry id index v
  | .handle id =>
    match index with
    | .str name => h.prepareField id name v
    | index => h.badIndex target index
  | target => invalid ("cannot assign to an element of " ++ h.typeName target)

/-- The write of `target.name`. -/
def prepareMember (h : Heap) (target : Value) (name : String) (v : Value) :
    Outcome (Write × Heap) :=
  match target with
  | .map id => h.prepareEntry id (.str name) v
  | .handle id => h.prepareField id name v
  | target => invalid ("cannot assign field " ++ name ++ " of " ++ h.typeName target)

end ScriptEngine.Heap
