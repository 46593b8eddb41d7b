import ScriptEngine.Heap.Naming

/-! Two notions of equality. The strict one compares without conversion; the one of scripts lets
numbers, text and truth values equal each other. Both compare lists and maps item by item, the keys
of maps without conversion, and take two containers that are already being compared for equal, so
they end on cyclic data. -/
namespace ScriptEngine

namespace Heap

/-- Two lists or two maps whose comparison has begun. -/
inductive Pair where
  | lists (a b : ListId)
  | maps (a b : MapId)
deriving Repr, DecidableEq

/-- Equality without conversion of values that are not two lists or two maps. -/
def sameLeaf : Value → Value → Bool
  | .nil, .nil => true
  | .bool a, .bool b => a == b
  | .int a, .int b => a == b
  | .float a, .float b => a.sameNumber b
  | .str a, .str b => a == b
  | .func a, .func b => a == b
  | .chan a, .chan b => a == b
  | .handle a, .handle b => a == b
  | _, _ => false

/-- The values that stand at the same places of two lists. -/
def listRows (h : Heap) (a b : ListId) : List (Value × Value) :=
  (h.list a).items.toList.zip (h.list b).items.toList

/-- The entries that stand at the same places of two maps. -/
def mapRows (h : Heap) (a b : MapId) : List ((MapKey × Value) × (MapKey × Value)) :=
  (h.map a).entries.zip (h.map b).entries

/-- Equality by `leaf`, and item by item where both are lists or both are maps; what is compared
already counts as equal. It takes at most `fuel` comparisons inside each other. -/
def equalBy? (h : Heap) (leaf : Value → Value → Bool) :
    (fuel : Nat) → (visited : List Pair) → Value → Value → Option Bool
  | 0, _, _, _ => none
  | fuel + 1, visited, a, b =>
    match a, b with
    | .list a, .list b =>
      if a == b || visited.contains (.lists a b) then some true
      else if (h.list a).items.size == (h.list b).items.size then
        (h.listRows a b).allM fun (x, y) => equalBy? h leaf fuel (.lists a b :: visited) x y
      else some false
    | .map a, .map b =>
      if a == b || visited.contains (.maps a b) then some true
      else if (h.map a).entries.length == (h.map b).entries.length then
        (h.mapRows a b).allM fun ((j, x), (k, y)) =>
          if sameLeaf j.toValue k.toValue then
            equalBy? h leaf fuel (.maps a b :: visited) x y
          else some false
      else some false
    | a, b => some (leaf a b)

/-- Comparisons inside each other that are enough: no pair of containers is entered twice. -/
def equalityLevels (h : Heap) : Nat :=
  h.lists.next * h.lists.next + h.maps.next * h.maps.next + 2

/-- Equality without conversion. -/
def identical (h : Heap) (a b : Value) : Bool :=
  (h.equalBy? sameLeaf h.equalityLevels [] a b).getD false

/-- A truth value and a text, or a truth value and a number. -/
def boolEquals (h : Heap) (b : Bool) (v : Value) : Bool :=
  match v with
  | .str _ => b == h.looseBool v
  | v => (Number.int (if b then 1 else 0)).same v.toNumber

/-- A text and a number. -/
def textEquals (s : String) (n : Number) : Bool :=
  match parseNumber? s with
  | some m => m.same n
  | none => false

/-- Equality of scripts of values that are not two lists or two maps. -/
def looselySameLeaf (h : Heap) : Value → Value → Bool
  | .bool a, .str s => h.boolEquals a (.str s)
  | .str s, .bool b => h.boolEquals b (.str s)
  | .bool a, .int n => h.boolEquals a (.int n)
  | .int n, .bool b => h.boolEquals b (.int n)
  | .bool a, .float x => h.boolEquals a (.float x)
  | .float x, .bool b => h.boolEquals b (.float x)
  | .int a, .int b => (Number.int a).same (.int b)
  | .int a, .float b => (Number.int a).same (.float b)
  | .float a, .int b => (Number.float a).same (.int b)
  | .float a, .float b => (Number.float a).same (.float b)
  | .str s, .int n => textEquals s (.int n)
  | .str s, .float x => textEquals s (.float x)
  | .int n, .str s => textEquals s (.int n)
  | .float x, .str s => textEquals s (.float x)
  | a, b => sameLeaf a b

/-- The `==` of scripts. -/
def equal (h : Heap) (a b : Value) : Bool :=
  (h.equalBy? h.looselySameLeaf h.equalityLevels [] a b).getD false

end Heap

end ScriptEngine
