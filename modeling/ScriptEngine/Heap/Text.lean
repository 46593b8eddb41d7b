import ScriptEngine.Heap.Naming

/-! The text of values. Lists and maps are written with their items; where one contains itself, the
inner occurrence is written as dots. Handles are described with all their fields, and there a list
or map starts afresh, so a struct that leads back to itself has no finite text. -/
namespace ScriptEngine.Heap

/-- A list or map that is being written. -/
inductive Container where
  | list (id : ListId)
  | map (id : MapId)
deriving Repr, DecidableEq

/-- The description of a channel. -/
def describeChan (c : Channel) : String :=
  "ChannelValue \x7b capacity: " ++ toString c.capacity ++ ", buffered: " ++
    toString c.buffer.length ++ ", closed: " ++ toString c.closed ++ " \x7d"

/-- The description of a struct, given the descriptions of its values. -/
def describeStruct (c : StructCell) (values : List String) : String :=
  "HostStruct \x7b ty: StructType \x7b name: " ++ Text.quoted c.name ++ ", fields: [" ++
    String.intercalate ", " (HostType.describeFields c.fields) ++
    "] \x7d, fields: RwLock \x7b data: [" ++ String.intercalate ", " values ++ "] \x7d \x7d"

/-- The text of a key. -/
def keyText : MapKey → String
  | .nil => "<nil>"
  | .bool b => toString b
  | .int n => toString n.toInt
  | .float x => Decimal.Layout.display.text x
  | .str s => s

mutual

/-- The text of a value inside those of the containers `inside`, at most `fuel` levels deep. -/
def text? (h : Heap) : (fuel : Nat) → (inside : List Container) → Value → Option String
  | 0, _, _ => none
  | fuel + 1, inside, v =>
    match v with
    | .nil => some "<nil>"
    | .bool b => some (toString b)
    | .int n => some (toString n.toInt)
    | .float x => some (Decimal.Layout.display.text x)
    | .str s => some s
    | .list id =>
      if inside.contains (.list id) then some "[...]"
      else do
        let items ← (h.list id).items.toList.mapM fun v => text? h fuel (.list id :: inside) v
        return "[" ++ String.intercalate " " items ++ "]"
    | .map id =>
      if inside.contains (.map id) then some "map[...]"
      else do
        let items ← (h.map id).entries.mapM fun (k, v) => do
          return keyText k ++ ":" ++ (← text? h fuel (.map id :: inside) v)
        return "map[" ++ String.intercalate " " items ++ "]"
    | .func id => some (h.func id).signature
    | .chan id => some ("chan(" ++ toString (h.chan id).length ++ ")")
    | .handle id => describeHandle? h fuel (h.handle id)

/-- The description of a handle. -/
def describeHandle? (h : Heap) : (fuel : Nat) → Handle → Option String
  | 0, _ => none
  | fuel + 1, o =>
    match o with
    | .token typeName =>
      some ("Opaque \x7b type_name: " ++ Text.quoted typeName ++ ", inner: Token \x7d")
    | .struct cell => do
      return describeStruct cell (← cell.values.mapM fun v => describe? h fuel v)

/-- The description of a value in a struct field. -/
def describe? (h : Heap) : (fuel : Nat) → Value → Option String
  | 0, _ => none
  | fuel + 1, v =>
    match v with
    | .nil => some "Nil"
    | .bool b => some ("Bool(" ++ toString b ++ ")")
    | .int n => some ("Int(" ++ toString n.toInt ++ ")")
    | .float x => some ("Float(" ++ Decimal.Layout.debug.text x ++ ")")
    | .str s => some ("String(" ++ Text.quoted s ++ ")")
    | .list id => (text? h fuel [] (.list id)).map fun s => "List(ListValue(" ++ s ++ "))"
    | .map id => (text? h fuel [] (.map id)).map fun s => "Map(MapValue(" ++ s ++ "))"
    | .func id => some ("Func(" ++ (h.func id).name ++ " " ++ (h.func id).signature ++ ")")
    | .chan id => some ("Chan(" ++ describeChan (h.chan id) ++ ")")
    | .handle id => (describeHandle? h fuel (h.handle id)).map fun s => "Handle(" ++ s ++ ")"

end

/-- Levels that are enough for every value that has a text: between two handles each list and map
stands at most once, and no handle stands inside itself. -/
def textLevels (h : Heap) : Nat :=
  beyondStacks + (h.lists.next + h.maps.next + 4) * (h.handles.next + 2)

/-- The text of a value. -/
def text (h : Heap) (v : Value) : String := (h.text? h.textLevels [] v).getD ""

/-- The description of a list, as hosts see it. -/
def describeList (h : Heap) (id : ListId) : String := "ListValue(" ++ h.text (.list id) ++ ")"

/-- The description of a map, as hosts see it. -/
def describeMap (h : Heap) (id : MapId) : String := "MapValue(" ++ h.text (.map id) ++ ")"

end ScriptEngine.Heap
