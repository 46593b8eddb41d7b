import ScriptEngine.Text.Quoted

/-! Types of the host. Values that enter a typed container, a struct field or a host function are
converted to one of these. -/
namespace ScriptEngine

/-- Widths of host integers. -/
inductive IntKind where
  | int8 | int16 | int32 | int64 | uint8 | uint16 | uint32 | uint64
deriving Repr, DecidableEq, Inhabited

namespace IntKind

def text : IntKind → String
  | int8 => "int8" | int16 => "int16" | int32 => "int32" | int64 => "int64"
  | uint8 => "uint8" | uint16 => "uint16" | uint32 => "uint32" | uint64 => "uint64"

/-- The kind in descriptions of struct types. -/
def tag : IntKind → String
  | int8 => "I8" | int16 => "I16" | int32 => "I32" | int64 => "I64"
  | uint8 => "U8" | uint16 => "U16" | uint32 => "U32" | uint64 => "U64"

/-- `n` cut to the width. The widest unsigned kind keeps the pattern of bits, and so the number. -/
def wrap (k : IntKind) (n : Int64) : Int64 :=
  match k with
  | int8 => n.toInt8.toInt64
  | int16 => n.toInt16.toInt64
  | int32 => n.toInt32.toInt64
  | int64 | uint64 => n
  | uint8 => Int64.ofNat n.toInt8.toUInt8.toNat
  | uint16 => Int64.ofNat n.toInt16.toUInt16.toNat
  | uint32 => Int64.ofNat n.toInt32.toUInt32.toNat

end IntKind

/-- Widths of host floats. -/
inductive FloatKind where
  | float32 | float64
deriving Repr, DecidableEq, Inhabited

namespace FloatKind

def text : FloatKind → String
  | float32 => "float32" | float64 => "float64"

def tag : FloatKind → String
  | float32 => "F32" | float64 => "F64"

end FloatKind

/-- A type of the host. A struct type is known by its name and has named fields in order. -/
inductive HostType where
  | any
  | bool
  | int (kind : IntKind)
  | float (kind : FloatKind)
  | string
  | slice (elem : HostType)
  | array (elem : HostType) (len : Nat)
  | map (key value : HostType)
  | chan (elem : HostType)
  | func
  | struct (name : String) (fields : List (String × HostType))
  | handle (name : String)
deriving Repr, Inhabited

namespace HostType

/-- The type a name stands for in every scope. -/
def builtin? (name : String) : Option HostType :=
  match name with
  | "any" | "interface" | "interface \x7b\x7d" => some .any
  | "bool" => some .bool
  | "int" | "int64" => some (.int .int64)
  | "int8" => some (.int .int8)
  | "int16" => some (.int .int16)
  | "int32" | "rune" => some (.int .int32)
  | "uint" | "uint64" => some (.int .uint64)
  | "uint8" | "byte" => some (.int .uint8)
  | "uint16" => some (.int .uint16)
  | "uint32" => some (.int .uint32)
  | "float" | "float64" => some (.float .float64)
  | "float32" => some (.float .float32)
  | "string" => some .string
  | "func" => some .func
  | _ => none

/-- The type in messages and as the answer of `typeOf`. -/
def text : HostType → String
  | .any => "interface \x7b\x7d"
  | .bool => "bool"
  | .int kind => kind.text
  | .float kind => kind.text
  | .string => "string"
  | .slice elem => "[]" ++ elem.text
  | .array elem len => "[" ++ toString len ++ "]" ++ elem.text
  | .map key value => "map[" ++ key.text ++ "]" ++ value.text
  | .chan elem => "chan " ++ elem.text
  | .func => "func"
  | .struct name _ => name
  | .handle name => name

mutual

/-- The type in descriptions of host structs. -/
def describe : HostType → String
  | .any => "Any"
  | .bool => "Bool"
  | .int kind => "Int(" ++ kind.tag ++ ")"
  | .float kind => "Float(" ++ kind.tag ++ ")"
  | .string => "String"
  | .slice elem => "Slice(" ++ elem.describe ++ ")"
  | .array elem len => "Array(" ++ elem.describe ++ ", " ++ toString len ++ ")"
  | .map key value => "Map(" ++ key.describe ++ ", " ++ value.describe ++ ")"
  | .chan elem => "Chan(" ++ elem.describe ++ ")"
  | .func => "Func"
  | .struct name fields =>
    "Struct(StructType \x7b name: " ++ Text.quoted name ++ ", fields: [" ++
      String.intercalate ", " (describeFields fields) ++ "] \x7d)"
  | .handle name => "Handle(" ++ Text.quoted name ++ ")"

def describeFields : List (String × HostType) → List String
  | [] => []
  | (name, type) :: rest =>
    ("StructField \x7b name: " ++ Text.quoted name ++ ", ty: " ++ type.describe ++ " \x7d") ::
      describeFields rest

end

/-- The longest array that can be held: elements of 24 bytes in 63 bits of address space. -/
def longestArray : Nat := Int64.maxValue.toNatClampNeg / 24

mutual

/-- The zero value of the type can be held: no array in it is too long. An array of no elements
needs a zero element all the same. -/
def hasZero : HostType → Bool
  | .array elem len => elem.hasZero && len ≤ longestArray
  | .struct _ fields => haveZeros fields
  | _ => true

/-- The zero values of all fields can be held. -/
def haveZeros : List (String × HostType) → Bool
  | [] => true
  | (_, type) :: rest => type.hasZero && haveZeros rest

end

mutual

/-- Equality of types: struct types agree in name and in all fields. -/
def same : HostType → HostType → Bool
  | .any, .any => true
  | .bool, .bool => true
  | .int a, .int b => a == b
  | .float a, .float b => a == b
  | .string, .string => true
  | .slice a, .slice b => a.same b
  | .array a m, .array b n => a.same b && m == n
  | .map a b, .map c d => a.same c && b.same d
  | .chan a, .chan b => a.same b
  | .func, .func => true
  | .struct m a, .struct n b => m == n && sameFields a b
  | .handle m, .handle n => m == n
  | _, _ => false

def sameFields : List (String × HostType) → List (String × HostType) → Bool
  | [], [] => true
  | (m, a) :: as, (n, b) :: bs => m == n && a.same b && sameFields as bs
  | _, _ => false

end

mutual

theorem same_iff : ∀ a b : HostType, a.same b = true ↔ a = b := by
  intro a b
  cases a <;> cases b <;> simp [same]
  case slice.slice a b => exact same_iff a b
  case array.array a m b n => exact fun _ => same_iff a b
  case map.map a b c d => rw [same_iff a c, same_iff b d]
  case chan.chan a b => exact same_iff a b
  case struct.struct m a n b => exact fun _ => sameFields_iff a b

theorem sameFields_iff : ∀ as bs : List (String × HostType), sameFields as bs = true ↔ as = bs := by
  intro as bs
  match as, bs with
  | [], [] => simp [sameFields]
  | [], _ :: _ => simp [sameFields]
  | _ :: _, [] => simp [sameFields]
  | (m, a) :: as, (n, b) :: bs =>
    simp [sameFields, same_iff a b, sameFields_iff as bs, and_assoc]

end

instance : DecidableEq HostType := fun a b =>
  if h : a.same b then isTrue ((same_iff a b).1 h)
  else isFalse (fun e => h ((same_iff a b).2 e))

end HostType

end ScriptEngine
