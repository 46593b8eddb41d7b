import ScriptEngine.Heap.Basic

/-! What values are called, and how they read as truth values. -/
namespace ScriptEngine.Heap

/-- The short name of a value's kind. -/
def kindName (h : Heap) : Value → String
  | .nil => "nil"
  | .bool _ => "bool"
  | .int _ => "int64"
  | .float _ => "float64"
  | .str _ => "string"
  | .list id => if (h.list id).fixed then "array" else "slice"
  | .map _ => "map"
  | .func _ => "func"
  | .chan _ => "chan"
  | .handle _ => "handle"

/-- The name of a list's type. -/
def listTypeName (c : ListCell) : String :=
  match c.elemType, c.fixed with
  | some elem, true => "[" ++ toString c.items.size ++ "]" ++ elem.text
  | some elem, false => "[]" ++ elem.text
  | none, _ => "[]interface \x7b\x7d"

/-- The name of a map's type. -/
def mapTypeName (c : MapCell) : String :=
  match c.keyType, c.valueType with
  | some key, some value => "map[" ++ key.text ++ "]" ++ value.text
  | _, _ => "map[interface \x7b\x7d]interface \x7b\x7d"

/-- The name of a channel's type. -/
def chanTypeName (c : Channel) : String :=
  match c.elemType with
  | some elem => "chan " ++ elem.text
  | none => "chan interface \x7b\x7d"

/-- The full name of a value's type. -/
def typeName (h : Heap) : Value → String
  | .list id => listTypeName (h.list id)
  | .map id => mapTypeName (h.map id)
  | .func id => (h.func id).signature
  | .chan id => chanTypeName (h.chan id)
  | .handle id => (h.handle id).typeName
  | v => h.kindName v

/-- How a value reads in a condition. -/
def truthy (h : Heap) : Value → Bool
  | .nil => false
  | .bool b => b
  | .int n => n != 0
  | .float x => !x.isZero
  | .str s => !(["", "0", "0.0", "false"].contains s)
  | .list id => !(h.list id).items.isEmpty
  | .map id => !(h.map id).entries.isEmpty
  | .func _ | .chan _ | .handle _ => true

/-- How a value reads when it is compared with a truth value. Text is read as a word; words that are
not known are true. -/
def looseBool (h : Heap) : Value → Bool
  | .str s => !(["false", "f", "0", ""].contains (Text.lower (Text.trim s)))
  | v => h.truthy v

end ScriptEngine.Heap
