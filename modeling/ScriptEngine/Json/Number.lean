import ScriptEngine.Json.Basic
import ScriptEngine.Decimal.Reading

/-! The numbers that JSON numerals name. An integer is a numeral without fraction and exponent. A
float is computed in one float operation from a 64-bit significand and a power of ten, so it may
miss the nearest float by a unit in the last place. -/
namespace ScriptEngine.Decimal.Numeral

/-- The numeral has neither fraction nor exponent. -/
def isWhole (n : Numeral) : Bool :=
  n.fraction.isNone && n.exponent.isNone

/-- The numeral names zero. -/
def isZero (n : Numeral) : Bool :=
  natOfDigits n.whole == 0 && natOfDigits (n.fraction.getD []) == 0

/-- The integer a numeral names; `-0` names none. -/
def toInt? (n : Numeral) : Option Int :=
  if n.isWhole then
    let value := natOfDigits n.whole
    if n.negative then (if value = 0 then none else some (-(value : Int))) else some value
  else none

/-- The integer a numeral names, if it lies between the bounds. -/
def toIntIn? (low high : Int) (n : Numeral) : Option Int :=
  match n.toInt? with
  | some i => if low ≤ i ∧ i ≤ high then some i else none
  | none => none

/-- The natural number below the bound that a numeral names. -/
def toNatBelow? (bound : Nat) (n : Numeral) : Option (Fin bound) :=
  match n.toInt? with
  | some (.ofNat i) => if h : i < bound then some ⟨i, h⟩ else none
  | _ => none

/-- A significand of at most 64 bits and the power of ten it is multiplied by. -/
structure Parts where
  significand : Nat
  exponent : Int
  /-- A digit has been dropped, so that later ones of the same run are too. -/
  full : Bool
deriving Repr

/-- A digit before the point. One that no longer fits is dropped and counts as a place. -/
def Parts.wholeDigit (p : Parts) (c : Char) : Parts :=
  let next := p.significand * 10 + digitValue c
  if p.full || UInt64.size ≤ next then ⟨p.significand, p.exponent + 1, true⟩
  else ⟨next, p.exponent, false⟩

/-- A digit behind the point. From the first that no longer fits on, they are dropped. -/
def Parts.fractionDigit (p : Parts) (c : Char) : Parts :=
  let next := p.significand * 10 + digitValue c
  if p.full || UInt64.size ≤ next then ⟨p.significand, p.exponent, true⟩
  else ⟨next, p.exponent - 1, false⟩

/-- The significand and exponent of the digits alone. -/
def parts (n : Numeral) : Parts :=
  let whole := n.whole.foldl Parts.wholeDigit ⟨0, 0, false⟩
  (n.fraction.getD []).foldl Parts.fractionDigit ⟨whole.significand, whole.exponent, false⟩

/-- The largest power of ten that is a float. -/
def topPower : Nat := 308

/-- The float nearest to `10 ^ n`. -/
def powerOfTen (n : Nat) : Binary64 := nearest false 1 n

/-- `x * 10 ^ exponent` in float operations, unless that overflows. A power too small for one
division is divided by in steps. -/
def scale : (fuel : Nat) → Binary64 → Int → Option Binary64
  | 0, x, _ => some x
  | fuel + 1, x, exponent =>
    if exponent.natAbs ≤ topPower then
      if 0 ≤ exponent then
        let y := x * powerOfTen exponent.natAbs
        if y.isFinite then some y else none
      else some (x / powerOfTen exponent.natAbs)
    else if x.isZero then some x
    else if 0 ≤ exponent then none
    else scale fuel (x / powerOfTen topPower) (exponent + topPower)

/-- The sign and the size of the written exponent. -/
def writtenExponent (n : Numeral) : Bool × Nat :=
  let (negative, digits) := splitSign (n.exponent.getD [])
  (negative, natOfDigits digits)

/-- The size of the float a numeral names, unless that overflows. -/
def toMagnitude? (n : Numeral) : Option Binary64 :=
  let p := n.parts
  let (negative, size) := n.writtenExponent
  if 0x80000000 ≤ size then
    if p.significand ≠ 0 && !negative then none else some .zero
  else
    let exponent := p.exponent + (if negative then -(size : Int) else size)
    -- the significand is below 2 ^ 64, so some twenty steps of division reach zero
    scale 8 (nearest false p.significand 0) (max (-8 * topPower) exponent)

/-- The float a numeral names, unless that overflows. -/
def toFloat? (n : Numeral) : Option Binary64 :=
  (n.toMagnitude?).map fun x => if n.negative then -x else x

end ScriptEngine.Decimal.Numeral
