import ScriptEngine.Host.Function
import ScriptEngine.Json.Access

/-! Descriptions of host types, values and functions as JSON, for hosts that set up an engine from
data. Builtin types are given by name and others as an object with one telling field. Scalars stand
for themselves, except that a float is given by its text. -/
namespace ScriptEngine

namespace Describe

/-- The type that `v` describes, nested at most `levels` deep. -/
def hostType : (levels : Nat) → Json → Option HostType
  | 0, _ => none
  | _ + 1, .str (some name) => HostType.builtin? name
  | levels + 1, v =>
    match v.field? "slice", v.field? "array", v.field? "map", v.field? "chan" with
    | some elem, _, _, _ => (hostType levels elem).map .slice
    | _, some (.arr [elem, len]), _, _ => do return .array (← hostType levels elem) (← len.nat?)
    | _, _, some (.arr [key, value]), _ => do
      return .map (← hostType levels key) (← hostType levels value)
    | _, _, _, some elem => (hostType levels elem).map .chan
    | _, _, _, _ =>
      match v.stringAt? "struct", v.stringAt? "handle" with
      | some name, _ => do
        return .struct name (← Json.pairs? Json.string? (hostType levels) (v.itemsAt "fields"))
      | _, some name => some (.handle name)
      | _, _ => none

/-- The type in a field, which may be absent. -/
def typeAt (levels : Nat) (v : Json) (name : String) : Option (Option HostType) :=
  match v.given? name with
  | none => some none
  | some t => (hostType levels t).map some

/-- An action that is given by its name. -/
def namedAction : String → Option HostAction
  | "echo" => some .echo
  | "types" => some .typeNames
  | "sum" => some .sum
  | "call" => some .call
  | "call_each" => some .callEach
  | "cancel" => some .cancel
  | "cycles" => some .cycles
  | "sleep" => some .sleep
  | "interrupt" => some .interrupt
  | _ => none

mutual

/-- The value that `v` describes. -/
def blueprint : (levels : Nat) → Json → Option Blueprint
  | 0, _ => none
  | _ + 1, .null => some .nil
  | _ + 1, .bool b => some (.bool b)
  | _ + 1, .num n => n.toInt?.map fun i => .int (Int64.ofInt i)
  | _ + 1, .str s => s.map .str
  | _ + 1, .arr _ => none
  | levels + 1, v => do
    if let some x := v.stringAt? "float" then return .float (← Decimal.readFloat? x.toList)
    if let some (.arr items) := v.field? "list" then
      return .list (← items.mapM (blueprint levels)) (← typeAt levels v "elem") (v.isSet "fixed")
    if let some (.arr entries) := v.field? "map" then
      return .map (← Json.pairs? (blueprint levels) (blueprint levels) entries)
        (← typeAt levels v "key") (← typeAt levels v "value")
    if let some f := v.field? "func" then return .func (← hostFunction levels f)
    if let some capacity := v.natAt? "chan" then return .chan capacity (← typeAt levels v "elem")
    if let some t := v.field? "new" then
      return .struct (← hostType levels t)
        (← Json.pairs? Json.string? (blueprint levels) (v.itemsAt "set"))
    if let some name := v.stringAt? "handle" then return .token name
    none

/-- The function that `v` describes. -/
def hostFunction : (levels : Nat) → Json → Option HostFunction
  | 0, _ => none
  | levels + 1, v => do
    let name ← v.stringAt? "name"
    let params ← (v.itemsAt "params").mapM (hostType levels)
    let returns ← (v.itemsAt "returns").mapM (hostType levels)
    let act ← action levels (← v.field? "do")
    return if v.isSet "variadic" then .openEnded name params returns act
      else .fixed name params returns act

/-- The action that `v` describes. -/
def action : (levels : Nat) → Json → Option HostAction
  | 0, _ => none
  | _ + 1, .str (some name) => namedAction name
  | levels + 1, v => do
    if let some (.arr results) := v.field? "return" then
      return .give (← results.mapM (blueprint levels))
    if let some m := v.stringAt? "error" then return .invalid m
    if let some m := v.stringAt? "internal" then return .internal m
    if let some b := v.field? "throw" then return .throw (← blueprint levels b)
    if let some m := v.field? "panic" then return .breakDown m.string?
    none

end

end Describe

/-- The type that `v` describes. -/
def HostType.ofJson? (v : Json) : Option HostType := Describe.hostType (v.depth + 1) v

/-- The type in a field, which may be absent. -/
def HostType.ofField? (v : Json) (name : String) : Option (Option HostType) :=
  Describe.typeAt (v.depth + 1) v name

/-- The value that `v` describes. -/
def Blueprint.ofJson? (v : Json) : Option Blueprint := Describe.blueprint (v.depth + 1) v

/-- The function that `v` describes. -/
def HostFunction.ofJson? (v : Json) : Option HostFunction := Describe.hostFunction (v.depth + 1) v

end ScriptEngine
