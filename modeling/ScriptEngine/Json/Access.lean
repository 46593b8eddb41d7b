import ScriptEngine.Json.Number

/-! Looking into JSON values: the parts they have, if they are of the right kind. -/
namespace ScriptEngine.Json

def string? : Json → Option String
  | .str s => s
  | _ => none

def items? : Json → Option (List Json)
  | .arr items => some items
  | _ => none

def bool? : Json → Option Bool
  | .bool b => some b
  | _ => none

def int? : Json → Option Int
  | .num n => n.toInt?
  | _ => none

/-- An integer, negative ones counting as zero. -/
def nat? (v : Json) : Option Nat := v.int?.map Int.toNat

/-- A field that is there and not null. -/
def given? (v : Json) (name : String) : Option Json :=
  match v.field? name with
  | some .null => none
  | other => other

def stringAt? (v : Json) (name : String) : Option String := (v.given? name).bind string?

def natAt? (v : Json) (name : String) : Option Nat := (v.given? name).bind nat?

def intAt? (v : Json) (name : String) : Option Int := (v.given? name).bind int?

/-- A field that is `true`. -/
def isSet (v : Json) (name : String) : Bool := ((v.given? name).bind bool?).getD false

/-- The items of a field; a missing field has none. -/
def itemsAt (v : Json) (name : String) : List Json := ((v.given? name).bind items?).getD []

/-- Items that are arrays of two, each part read in its way. -/
def pairs? {α β : Type} (first : Json → Option α) (second : Json → Option β) (items : List Json) :
    Option (List (α × β)) :=
  items.mapM fun
    | .arr [a, b] => do return (← first a, ← second b)
    | _ => none

/-- What is not null, read in its way. -/
def optional? {α : Type} (read : Json → Option α) : Json → Option (Option α)
  | .null => some none
  | v => (read v).map some

end ScriptEngine.Json
