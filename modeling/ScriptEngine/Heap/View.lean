import ScriptEngine.EngineState.Collect
import ScriptEngine.Json.Basic

/-! Values as JSON, for hosts that look at results. Containers are written with all they hold; where
a container stands inside itself, the inner place tells how many containers up it is. -/
namespace ScriptEngine.Heap

/-- How many containers up this one is. -/
def levelsUp? (up : List Object) (o : Object) : Option Nat := (up.findIdx? (· == o)).map (· + 1)

/-- The fields of a view that stand only where they matter. -/
def fieldIf (present : Bool) (name : String) (v : Json) : List (String × Json) :=
  if present then [(name, v)] else []

/-- The view of a channel. -/
def viewChan (c : Channel) : Json :=
  .object [("chan", .string (chanTypeName c)), ("cap", .nat c.capacity), ("len", .nat c.length),
    ("closed", .bool c.closed)]

/-- The view of a container whose parts are viewed by `part`. A field is looked up by its name, so
the first one of this name is shown. -/
def viewContainer (h : Heap) (part : Value → Json) : Value → Json
  | .list id =>
    let c := h.list id
    .object ([("list", .arr (c.items.toList.map part))] ++
      fieldIf c.elemType.isSome "type" (.string (listTypeName c)) ++
      fieldIf c.fixed "fixed" (.bool true))
  | .map id =>
    let c := h.map id
    .object ([("map", .arr (c.entries.map fun (k, v) => .arr [part k.toValue, part v]))] ++
      fieldIf (c.keyType.isSome || c.valueType.isSome) "type" (.string (mapTypeName c)))
  | .handle id =>
    match h.handle id with
    | .token name => .object [("handle", .string name), ("token", .bool true), ("fields", .nat 0)]
    | .struct c =>
      .object [("struct", .string c.name),
        ("fields", .arr (c.fields.map fun (name, _) =>
          .arr [.string name, part ((c.get? name).getD .nil)]))]
  | _ => .null

/-- The view of a value inside these containers, at most `levels` deep. -/
def viewUpTo (h : Heap) : (levels : Nat) → (up : List Object) → Value → Json
  | 0, _, _ => .null
  | levels + 1, up, v =>
    match v with
    | .nil => .null
    | .bool b => .bool b
    | .int n => .int n.toInt
    | .float x => .object [("float", .string (Decimal.Layout.display.text x))]
    | .str s => .string s
    | .func id =>
      .object [("func", .string (h.func id).signature), ("name", .string (h.func id).name)]
    | .chan id => viewChan (h.chan id)
    | v =>
      match v.object? with
      | none => .null
      | some o =>
        match levelsUp? up o with
        | some k => .object [("cycle", .nat k)]
        | none => h.viewContainer (h.viewUpTo levels (o :: up)) v

/-- The view of a value. No container stands twice on the way to a part of it, so as many levels as
there are containers are enough. -/
def view (h : Heap) (v : Value) : Json :=
  h.viewUpTo (h.lists.next + h.maps.next + h.handles.next + 2) [] v

end ScriptEngine.Heap
