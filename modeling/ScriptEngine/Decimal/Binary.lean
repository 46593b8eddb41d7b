import ScriptEngine.Binary64

/-! The float nearest to a fraction, with ties to the even significand, computed with natural
numbers only. -/
namespace ScriptEngine.Decimal

/-- `num / den` rounded to the nearest whole number, ties to even. -/
def roundHalfEven (num den : Nat) : Nat :=
  let quotient := num / den
  let rest := num % den
  if 2 * rest < den then quotient
  else if den < 2 * rest then quotient + 1
  else if quotient % 2 = 0 then quotient else quotient + 1

/-- `num / den` in units of `2 ^ exponent`, rounded to the nearest, ties to even. -/
def roundInUnits (num den : Nat) (exponent : Int) : Nat :=
  if 0 ≤ exponent then roundHalfEven num (den * Nat.pow 2 exponent.toNat)
  else roundHalfEven (num * Nat.pow 2 (-exponent).toNat) den

/-- The exponent whose unit gives the fraction `num / den` a significand of 53 bits, or the least
exponent for fractions too small for that. -/
def unitExponent (num den : Nat) : Int :=
  let guess : Int := (num.log2 : Int) - (den.log2 : Int) - 52
  -- `num / den` lies between `2 ^ (guess + 51)` and `2 ^ (guess + 53)`
  let small :=
    if 0 ≤ guess + 52 then num < den * Nat.pow 2 (guess + 52).toNat
    else num * Nat.pow 2 (-(guess + 52)).toNat < den
  max leastExponent (if small then guess - 1 else guess)

/-- The magnitude bits of the float nearest to `num / den`, infinity when that is too large. -/
def nearestMagnitude (num den : Nat) : Nat :=
  if num = 0 then 0
  else
    let exponent := unitExponent num den
    let significand := roundInUnits num den exponent
    -- a subnormal significand has no leading bit; one rounded to 2 ^ 53 carries into the exponent
    let bits := (exponent - leastExponent).toNat * leadingBit + significand
    min bits infinityBits

/-- The float nearest to `coefficient * 10 ^ exponent`, ties to the even significand. -/
def nearest (negative : Bool) (coefficient : Nat) (exponent : Int) : Binary64 :=
  Binary64.ofMagnitude negative <|
    if coefficient = 0 then 0
    else
      -- beyond these bounds the answer is infinity or zero, whatever the digits are
      let digits : Int := (coefficient.log2 : Int) / 3 + 1
      if 400 < exponent then infinityBits
      else if exponent + digits < -400 then 0
      else if 0 ≤ exponent then nearestMagnitude (coefficient * Nat.pow 10 exponent.toNat) 1
      else nearestMagnitude coefficient (Nat.pow 10 (-exponent).toNat)

end ScriptEngine.Decimal
