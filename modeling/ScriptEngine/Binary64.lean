/-! Binary floating point numbers by their bits. The bits tell apart what arithmetic does not: the
two zeros, and NaNs of different signs. An operation hands on the first NaN among its operands, and
one without a result of its own, such as `0 / 0`, gives a **negative** NaN. -/
namespace ScriptEngine

/-- A finite non-negative float as `significand * 2 ^ exponent`. -/
structure Dyadic where
  significand : Nat
  exponent : Int
deriving Repr, DecidableEq

/-- The least exponent of a float's significand. -/
def leastExponent : Int := -1074

/-- The weight of the leading bit of a normal float's significand, which the float does not
store. -/
def leadingBit : Nat := 0x10000000000000

/-- The weight of a float's sign bit. -/
def signBit : Nat := 0x8000000000000000

/-- The magnitude bits of infinity; every larger magnitude is a NaN. -/
def infinityBits : Nat := 0x7ff0000000000000

/-- The magnitude bits of the NaNs that operations give and words name. -/
def nanBits : Nat := infinityBits + leadingBit / 2

/-- The value of the magnitude bits of a finite float. -/
def Dyadic.ofMagnitude (bits : Nat) : Dyadic :=
  let exponent : Nat := bits / leadingBit
  let fraction : Nat := bits % leadingBit
  if exponent = 0 then ⟨fraction, leastExponent⟩
  else ⟨leadingBit + fraction, (exponent : Int) - 1075⟩

/-- The value is an odd whole number. -/
def Dyadic.isOdd (d : Dyadic) : Bool :=
  let unit := Nat.pow 2 (-d.exponent).toNat
  d.exponent ≤ 0 && d.significand % unit == 0 && d.significand / unit % 2 == 1

/-- A 64-bit float. -/
structure Binary64 where
  bits : UInt64
deriving Repr, DecidableEq, Inhabited

namespace Binary64

/-- The bits without the sign. -/
def magnitude (x : Binary64) : Nat := x.bits.toNat % signBit

/-- The sign bit: set for `-0` too. -/
def isNegative (x : Binary64) : Bool := signBit ≤ x.bits.toNat

/-- The float with these magnitude bits and this sign. -/
def ofMagnitude (negative : Bool) (bits : Nat) : Binary64 :=
  ⟨UInt64.ofNat (if negative then signBit + bits else bits)⟩

def isNaN (x : Binary64) : Bool := infinityBits < x.magnitude

def isFinite (x : Binary64) : Bool := x.magnitude < infinityBits

def isZero (x : Binary64) : Bool := x.magnitude == 0

/-- Places all floats on one line: the negative ones below the others, by falling magnitude, `-0`
just below `0`, and NaNs at the ends. -/
def line (x : Binary64) : Int :=
  if x.isNegative then -(x.magnitude : Int) - 1 else x.magnitude

/-! ## Arithmetic -/

/-- The machine's number, for which all NaNs are one. -/
def value (x : Binary64) : Float := Float.ofBits x.bits

/-- The float of a result; one that is no number is a negative NaN. -/
def ofResult (x : Float) : Binary64 :=
  if x.isNaN then ofMagnitude true nanBits else ⟨x.toBits⟩

/-- The result of an operation on two numbers. -/
def lift₂ (op : Float → Float → Float) (x y : Binary64) : Binary64 :=
  if x.isNaN then x else if y.isNaN then y else ofResult (op x.value y.value)

instance : Add Binary64 := ⟨lift₂ (· + ·)⟩

instance : Sub Binary64 := ⟨lift₂ (· - ·)⟩

instance : Mul Binary64 := ⟨lift₂ (· * ·)⟩

instance : Div Binary64 := ⟨lift₂ (· / ·)⟩

/-- The float with the other sign, of NaNs too. -/
instance : Neg Binary64 := ⟨fun x => ofMagnitude (!x.isNegative) x.magnitude⟩

/-- The float nearest to an integer. -/
def ofInt64 (n : Int64) : Binary64 := ofResult n.toFloat

def zero : Binary64 := ⟨0⟩

def one : Binary64 := ofInt64 1

/-- Toward zero; what is too large becomes the nearest integer, NaN becomes zero. -/
def toInt64 (x : Binary64) : Int64 := x.value.toInt64

/-- The whole part of a number that is not negative; what is too large for 64 bits becomes the
largest number they hold. -/
def toNat? (x : Binary64) : Option Nat :=
  if 0 ≤ x.value then some x.value.toUInt64.toNat else none

/-- A power of a NaN is that NaN, except that an odd power of a negative one is positive. -/
def powNaN (x y : Binary64) : Binary64 :=
  if x.isNegative && y.isFinite && (Dyadic.ofMagnitude y.magnitude).isOdd then -x else x

/-- The power of floats. A zeroth power and a power of one are one, whatever the other operand
is. -/
def pow (x y : Binary64) : Binary64 :=
  if y.isZero || x == one then one
  else if x.isNaN then powNaN x y
  else lift₂ Float.pow x y

/-! ## Comparison -/

/-- Equal as numbers: the two zeros are, and a NaN is equal to nothing. -/
def sameNumber (x y : Binary64) : Bool := x.value == y.value

/-- The order of numbers, in which a NaN has no place. -/
def compare? (x y : Binary64) : Option Ordering :=
  if x.value < y.value then some .lt
  else if x.value == y.value then some .eq
  else if y.value < x.value then some .gt
  else none

end Binary64

end ScriptEngine
