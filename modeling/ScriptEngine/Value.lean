import ScriptEngine.Decimal.Layout
import ScriptEngine.Decimal.Reading

/-! Script values. Scalars are values of their own; lists, maps, functions, channels and handles are
references to objects of the heap, so copying a value shares the object. -/
namespace ScriptEngine

abbrev ListId := Nat
abbrev MapId := Nat
abbrev FuncId := Nat
abbrev ChanId := Nat
abbrev HandleId := Nat
abbrev ScopeId := Nat

/-- A script value. -/
inductive Value where
  | nil
  | bool (b : Bool)
  | int (n : Int64)
  | float (x : Binary64)
  | str (s : String)
  | list (id : ListId)
  | map (id : MapId)
  | func (id : FuncId)
  | chan (id : ChanId)
  | handle (id : HandleId)
deriving DecidableEq, Inhabited

namespace Value

/-- The value refers to an object of the heap. -/
def isReference : Value → Bool
  | .list _ | .map _ | .func _ | .chan _ | .handle _ => true
  | _ => false

def isNil : Value → Bool
  | .nil => true
  | _ => false

def isNumeric : Value → Bool
  | .int _ | .float _ => true
  | _ => false

end Value

/-- A number that a value can be read as. -/
inductive Number where
  | int (n : Int64)
  | float (x : Binary64)
deriving Inhabited

namespace Number

def toValue : Number → Value
  | .int n => .int n
  | .float x => .float x

/-- Toward zero; what is too large becomes the nearest integer, NaN becomes zero. -/
def toInt : Number → Int64
  | .int n => n
  | .float x => x.toInt64

def toFloat : Number → Binary64
  | .int n => .ofInt64 n
  | .float x => x

/-- Integers are compared as integers, and everything else as floats. -/
def same : Number → Number → Bool
  | .int a, .int b => a == b
  | a, b => a.toFloat.sameNumber b.toFloat

end Number

/-- The number a text names: an integer if it has that form and fits, else a float. Blanks around it
do not matter. -/
def parseNumber? (s : String) : Option Number :=
  let cs := Text.trimBlanks s.toList
  match Decimal.readInt64? cs with
  | some n => some (.int n)
  | none => (Decimal.readFloat? cs).map .float

namespace Value

/-- Every value as a number: text by the number it names, nil and whatever names none as zero. -/
def toNumber : Value → Number
  | .int n => .int n
  | .float x => .float x
  | .bool b => .int (if b then 1 else 0)
  | .str s => (parseNumber? s).getD (.int 0)
  | _ => .int 0

def toInt (v : Value) : Int64 := v.toNumber.toInt

def toFloat (v : Value) : Binary64 := v.toNumber.toFloat

end Value

/-- What a map can be keyed by. -/
inductive MapKey where
  | nil
  | bool (b : Bool)
  | int (n : Int64)
  | float (x : Binary64)
  | str (s : String)
deriving Inhabited

namespace MapKey

def toValue : MapKey → Value
  | .nil => .nil
  | .bool b => .bool b
  | .int n => .int n
  | .float x => .float x
  | .str s => .str s

/-- The key that a scalar is. -/
def ofValue? : Value → Option MapKey
  | .nil => some .nil
  | .bool b => some (.bool b)
  | .int n => some (.int n)
  | .float x => some (.float x)
  | .str s => some (.str s)
  | _ => none

/-- Kinds of keys come in this order. -/
def rank : MapKey → Nat
  | .nil => 0
  | .bool _ => 1
  | .int _ => 2
  | .float _ => 3
  | .str _ => 4

/-- The order of keys: by kind, then by size, floats on their line, text by code points. -/
def compare : MapKey → MapKey → Ordering
  | .bool a, .bool b => Ord.compare a b
  | .int a, .int b => Ord.compare a.toInt b.toInt
  | .float a, .float b => Ord.compare a.line b.line
  | .str a, .str b => Ord.compare a b
  | a, b => Ord.compare a.rank b.rank

/-- Two keys are one and the same for a map. -/
def same (a b : MapKey) : Bool := a.compare b == .eq

end MapKey

end ScriptEngine
