import ScriptEngine.Binary32
import ScriptEngine.Fault

/-! Zero values and conversion to host types. A value converts to a type or fails with a mismatch,
unless an array in the result would be too long to be held. A container that already has exactly the
target's type is passed on as it is, so that both sides go on sharing it; every other container is
converted into a new one. Conversion recurses on the type, so it ends on cyclic data too, and a
failed conversion leaves no trace. -/
namespace ScriptEngine.Heap

mutual

/-- The zero value of a type that has one. The elements of an array are one and the same zero
value. -/
def zeroValue (h : Heap) : HostType → Value × Heap
  | .any | .func | .chan _ | .handle _ => (.nil, h)
  | .bool => (.bool false, h)
  | .int _ => (.int 0, h)
  | .float _ => (.float .zero, h)
  | .string => (.str "", h)
  | .slice elem => h.addList ⟨#[], some elem, false⟩
  | .array elem len =>
    let (v, h) := h.zeroValue elem
    h.addList ⟨Array.replicate len v, some elem, true⟩
  | .map key value => h.addMap ⟨[], some key, some value⟩
  | .struct name fields =>
    let (values, h) := h.zeroValues fields
    h.addHandle (.struct ⟨name, fields, values⟩)

/-- The zero values of the fields of a struct. -/
def zeroValues (h : Heap) : List (String × HostType) → List Value × Heap
  | [] => ([], h)
  | (_, type) :: rest =>
    let (v, h) := h.zeroValue type
    let (vs, h) := h.zeroValues rest
    (v :: vs, h)

end

/-- The zero value of a type. -/
def zero (h : Heap) (type : HostType) : Outcome (Value × Heap) :=
  if type.hasZero then .ok (h.zeroValue type) else .error .overflow

/-- The zero values of the fields of a struct. -/
def zeroFields (h : Heap) (fields : List (String × HostType)) : Outcome (List Value × Heap) :=
  if HostType.haveZeros fields then .ok (h.zeroValues fields) else .error .overflow

/-- The items and then as many copies of `v` as make up the length of an array. -/
def padded (items : List Value) (len : Nat) (v : Value) : Outcome (Array Value) :=
  if len ≤ HostType.longestArray then
    .ok (items.toArray ++ Array.replicate (len - items.length) v)
  else .error .overflow

/-- A key of a map. -/
def keyOf (h : Heap) (v : Value) : Outcome MapKey :=
  match MapKey.ofValue? v with
  | some key => .ok key
  | none => invalid ("unhashable map key type " ++ h.typeName v)

/-- Converts the items in order by `convertItem`, with the heap handed on from one to the next. -/
def convertItems (convertItem : Heap → Value → Outcome (Value × Heap)) :
    Heap → List Value → Outcome (List Value × Heap)
  | h, [] => .ok ([], h)
  | h, v :: rest => do
    let (v, h) ← convertItem h v
    let (vs, h) ← convertItems convertItem h rest
    return (v :: vs, h)

/-- Stores entries in order into ordered entries, keys and values converted. -/
def convertEntries (convertKey convertValue : Heap → Value → Outcome (Value × Heap)) :
    Heap → List (MapKey × Value) → List (MapKey × Value) → Outcome (List (MapKey × Value) × Heap)
  | h, stored, [] => .ok (stored, h)
  | h, stored, (key, value) :: rest => do
    let (k, h) ← convertKey h key.toValue
    let key ← h.keyOf k
    let (v, h) ← convertValue h value
    convertEntries convertKey convertValue h (MapCell.insertIn key v stored) rest

/-- Sets fields by `setField` from entries in order; an entry whose key is no text is a
`failure`. -/
def fillFields (setField : Heap → List Value → String → Value → Outcome (List Value × Heap))
    (failure : Outcome (List Value × Heap)) :
    Heap → List Value → List (MapKey × Value) → Outcome (List Value × Heap)
  | h, values, [] => .ok (values, h)
  | h, values, (.str field, v) :: rest => do
    let (values, h) ← setField h values field v
    fillFields setField failure h values rest
  | _, _, _ :: _ => failure

mutual

/-- `v` as a value of the type. What refers to nothing has none. -/
def convert (h : Heap) (v : Value) (type : HostType) : Outcome (Value × Heap) :=
  if !h.has v then mismatch h type v else
  match type, v with
  | .any, v => .ok (v, h)
  | type, .nil => h.zero type
  | .bool, .bool b => .ok (.bool b, h)
  | .int kind, .int n => .ok (.int (kind.wrap n), h)
  | .int kind, .float x => .ok (.int (kind.wrap x.toInt64), h)
  | .float .float64, .int n => .ok (.float (.ofInt64 n), h)
  | .float .float64, .float x => .ok (.float x, h)
  | .float .float32, .int n => .ok (.float (.singleOfInt64 n), h)
  | .float .float32, .float x => .ok (.float x.toSingle, h)
  | .string, .str s => .ok (.str s, h)
  | .slice elem, .list id =>
    let c := h.list id
    if !c.fixed && c.elemType == some elem then .ok (.list id, h)
    else if elem == .any && c.isGrowable then .ok (.list id, h)
    else do
      let (items, h) ← (convertItems (fun h v => convert h v elem) h c.items.toList).orMismatch h
        (.slice elem) (.list id)
      return h.addList ⟨items.toArray, some elem, false⟩
  | .array elem len, .list id =>
    let c := h.list id
    if c.fixed && c.elemType == some elem && c.items.size == len then .ok (.list id, h)
    else if len < c.items.size then mismatch h (.array elem len) (.list id)
    else do
      let (items, h) ← (convertItems (fun h v => convert h v elem) h c.items.toList).orMismatch h
        (.array elem len) (.list id)
      let (v, h) ← h.zero elem
      return h.addList ⟨← padded items len v, some elem, true⟩
  | .map key value, .map id =>
    let c := h.map id
    if c.keyType == some key && c.valueType == some value then .ok (.map id, h)
    else if key == .any && value == .any && c.keyType.isNone then .ok (.map id, h)
    else do
      let (entries, h) ← (convertEntries (fun h v => convert h v key)
        (fun h v => convert h v value) h [] c.entries).orMismatch h (.map key value) (.map id)
      return h.addMap ⟨entries, some key, some value⟩
  | .chan _, .chan id => .ok (.chan id, h)
  | .func, .func id => .ok (.func id, h)
  | .struct name fields, .handle id =>
    match h.handle id with
    | .struct cell =>
      if cell.name == name then .ok (.handle id, h)
      else mismatch h (.struct name fields) (.handle id)
    | .token _ => mismatch h (.struct name fields) (.handle id)
  | .struct name fields, .map id => do
    let (values, h') ← h.zeroFields fields
    let (values, h') ←
      fillFields (fun h values field v => setField h name fields 0 field v values)
        (mismatch h (.struct name fields) (.map id)) h' values (h.map id).entries
    return h'.addHandle (.struct ⟨name, fields, values⟩)
  | .handle name, .handle id =>
    if (h.handle id).typeName == name then .ok (.handle id, h)
    else mismatch h (.handle name) (.handle id)
  | type, v => mismatch h type v

/-- Sets the first field of this name, counting positions from `i`. -/
def setField (h : Heap) (name : String) (fields : List (String × HostType)) (i : Nat)
    (field : String) (v : Value) (values : List Value) : Outcome (List Value × Heap) :=
  match fields with
  | [] => invalid ("type " ++ name ++ " has no field " ++ field)
  | (n, type) :: rest =>
    if n == field then do
      let (v, h) ← convert h v type
      return (values.set i v, h)
    else setField h name rest (i + 1) field v values

end

end ScriptEngine.Heap
