import ScriptEngine.Decimal.Binary

/-! Floats of half the width, as the 64-bit floats that they widen to. Such a float has a significand
of 24 bits, or is a multiple of the least of them. -/
namespace ScriptEngine

/-- The exponent of the least float of half the width. -/
def leastSingleExponent : Int := -149

/-- The magnitude bits of the least float of half the width that is normal, `2 ^ -126`. -/
def leastNormalSingle : Nat := 897 * leadingBit

/-- The magnitude bits of the least power of two that is too large for half the width, `2 ^ 128`. -/
def singleCeiling : Nat := 1151 * leadingBit

/-- The unit in the magnitude bits of a float that half the width holds, if it is normal there. -/
def singleUnit : Nat := 0x20000000

/-- The magnitude bits of `n * 2 ^ exponent`, where the significand of a normal float holds `n`. -/
def scaledMagnitude (n : Nat) (exponent : Int) : Nat :=
  if n = 0 then 0
  else ((n.log2 : Int) + exponent + 1022).toNat * leadingBit + n * Nat.pow 2 (52 - n.log2)

/-- The magnitude bits of the nearest float of half the width, ties to the even significand, for the
magnitude bits of a float that is a number. -/
def nearestSingle (bits : Nat) : Nat :=
  if bits < leastNormalSingle then
    let d := Dyadic.ofMagnitude bits
    let unit := Nat.pow 2 (leastSingleExponent - d.exponent).toNat
    scaledMagnitude (Decimal.roundHalfEven d.significand unit) leastSingleExponent
  else
    -- a significand that is rounded up to the next power of two carries into the exponent
    let rounded := Decimal.roundHalfEven bits singleUnit * singleUnit
    if rounded < singleCeiling then rounded else infinityBits

namespace Binary64

/-- The nearest float of half the width. -/
def toSingle (x : Binary64) : Binary64 :=
  if x.isNaN then x else ofMagnitude x.isNegative (nearestSingle x.magnitude)

/-- The nearest float of half the width to an integer. -/
def singleOfInt64 (n : Int64) : Binary64 :=
  let size := n.toInt.natAbs
  -- the bits that a significand of half the width has no room for
  let spare := size.log2 - 23
  ofMagnitude (n.toInt < 0)
    (scaledMagnitude (Decimal.roundHalfEven size (Nat.pow 2 spare)) spare)

end Binary64

end ScriptEngine
