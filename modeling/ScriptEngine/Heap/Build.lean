import ScriptEngine.Heap.Container

/-! Building values from their descriptions. -/
namespace ScriptEngine.Heap

mutual

/-- A new value as described. -/
def build (h : Heap) : Blueprint → Outcome (Value × Heap)
  | .nil => .ok (.nil, h)
  | .bool b => .ok (.bool b, h)
  | .int n => .ok (.int n, h)
  | .float x => .ok (.float x, h)
  | .str s => .ok (.str s, h)
  | .list items elemType fixed => do
    let (items, h) ← buildAll h items
    return h.addList ⟨items.toArray, elemType, fixed⟩
  | .map entries keyType valueType =>
    let id := h.maps.next
    let (v, h) := h.addMap ⟨[], keyType, valueType⟩
    (buildEntries h id entries).map fun h => (v, h)
  | .func f => .ok (h.addFunc (.host f))
  | .chan capacity elemType => .ok (h.addChan { capacity, elemType })
  | .struct type fields => do
    match ← h.zero type with
    | (.handle id, h) => return (.handle id, ← buildFields h id fields)
    | other => return other
  | .token typeName => .ok (h.addHandle (.token typeName))

/-- New values as described, in order. -/
def buildAll (h : Heap) : List Blueprint → Outcome (List Value × Heap)
  | [] => .ok ([], h)
  | b :: rest => do
    let (v, h) ← build h b
    let (vs, h) ← buildAll h rest
    return (v :: vs, h)

/-- Stores described entries into a map, in order. -/
def buildEntries (h : Heap) (id : MapId) : List (Blueprint × Blueprint) → Outcome Heap
  | [] => .ok h
  | (key, value) :: rest => do
    let (k, h) ← build h key
    let (v, h) ← build h value
    buildEntries (← h.storeEntry id k v) id rest

/-- Sets described fields of a struct, in order. -/
def buildFields (h : Heap) (id : HandleId) : List (String × Blueprint) → Outcome Heap
  | [] => .ok h
  | (name, value) :: rest => do
    let (v, h) ← build h value
    buildFields (← h.storeField id name v) id rest

end

end ScriptEngine.Heap
