import ScriptEngine.Heap.Basic

/-! Deep copies. Lists and maps are copied with all they contain; one that is reached twice is
copied once, so sharing and cycles survive. Structs are copied field by field, each field on its
own. Functions, channels and tokens are shared. -/
namespace ScriptEngine.Heap

/-- The copies of lists and maps made so far. -/
structure Copies where
  lists : List (ListId × ListId) := []
  maps : List (MapId × MapId) := []

/-- Copies items in order by `copyItem`, with heap and copies handed on from one to the next. -/
def copyItems (copyItem : Heap → Copies → Value → Option (Value × Heap × Copies)) :
    Heap → Copies → List Value → Option (List Value × Heap × Copies)
  | h, memo, [] => some ([], h, memo)
  | h, memo, v :: rest => do
    let (v, h, memo) ← copyItem h memo v
    let (vs, h, memo) ← copyItems copyItem h memo rest
    return (v :: vs, h, memo)

/-- The copy of a value, as it is in `source`, at most `fuel` levels deep. -/
def copy? (source : Heap) :
    (fuel : Nat) → Heap → Copies → Value → Option (Value × Heap × Copies)
  | 0, _, _, _ => none
  | fuel + 1, h, memo, v =>
    match v with
    | .list id =>
      match memo.lists.lookup id with
      | some copy => some (.list copy, h, memo)
      | none => do
        let c := source.list id
        let copy := h.lists.next
        let (_, h) := h.addList { c with items := #[] }
        let memo := { memo with lists := (id, copy) :: memo.lists }
        let (items, h, memo) ← copyItems (copy? source fuel) h memo c.items.toList
        return (.list copy, h.modifyList copy fun c => { c with items := items.toArray }, memo)
    | .map id =>
      match memo.maps.lookup id with
      | some copy => some (.map copy, h, memo)
      | none => do
        let c := source.map id
        let copy := h.maps.next
        let (_, h) := h.addMap { c with entries := [] }
        let memo := { memo with maps := (id, copy) :: memo.maps }
        let (values, h, memo) ← copyItems (copy? source fuel) h memo (c.entries.map (·.2))
        let entries := (c.entries.map (·.1)).zip values
        return (.map copy, h.modifyMap copy fun c => { c with entries }, memo)
    | .handle id =>
      match source.handle id with
      | .token _ => some (v, h, memo)
      | .struct c => do
        let (values, h, _) ←
          copyItems (fun h _ v => copy? source fuel h {} v) h {} c.values
        let (v, h) := h.addHandle (.struct { c with values })
        return (v, h, memo)
    | v => some (v, h, memo)

/-- Levels that are enough for every value that has a copy: between two handles each list and map is
entered at most once, and no handle stands inside itself. -/
def copyLevels (h : Heap) : Nat :=
  beyondStacks + (h.lists.next + h.maps.next + 2) * (h.handles.next + 2)

/-- A deep copy of a value. -/
def deepCopy (h : Heap) (v : Value) : Value × Heap :=
  match copy? h h.copyLevels h {} v with
  | some (v, h, _) => (v, h)
  | none => (v, h)

end ScriptEngine.Heap
