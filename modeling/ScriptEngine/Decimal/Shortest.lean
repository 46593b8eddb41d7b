import ScriptEngine.Decimal.Binary

/-! The shortest decimal of a float: among all decimals that read back as the float, those with the
fewest digits, and among those the nearest. A decimal reads back as the float exactly if it lies in
the float's **rounding interval**, the reals between the midpoints to its two neighbours; the ends
belong to it when the significand is even, since ties are read as even. -/
namespace ScriptEngine.Decimal

/-- `digits * 10 ^ exponent`, the digits without leading or trailing zeros unless it is zero. -/
structure Scientific where
  digits : Nat
  exponent : Int
deriving Repr, DecidableEq

/-- What becomes of a decimal that lies half way between two of the same length. -/
inductive Tie where
  | up
  | toEven
deriving Repr, DecidableEq

/-- The rounding interval of a float in units of `2 ^ exponent`, with the float itself between. -/
structure Interval where
  lower : Nat
  value : Nat
  upper : Nat
  closed : Bool
  exponent : Int
deriving Repr

/-- The rounding interval of `d`. Below a power of two the neighbour is nearer than above it. -/
def Interval.ofDyadic (d : Dyadic) : Interval where
  lower :=
    if d.significand = leadingBit ∧ leastExponent < d.exponent then 4 * d.significand - 1
    else 4 * d.significand - 2
  value := 4 * d.significand
  upper := 4 * d.significand + 2
  closed := d.significand % 2 = 0
  exponent := d.exponent - 2

/-- The fraction `coefficient * 2 ^ two / 10 ^ ten` as numerator and denominator. -/
def scaled (coefficient : Nat) (two ten : Int) : Nat × Nat :=
  (coefficient * Nat.pow 2 two.toNat * Nat.pow 10 (-ten).toNat,
    Nat.pow 2 (-two).toNat * Nat.pow 10 ten.toNat)

/-- The greatest `p` with `10 ^ p ≤ coefficient * 2 ^ two`, for a coefficient other than zero. -/
def decimalExponent (coefficient : Nat) (two : Int) : Int :=
  let guess : Int := ((coefficient.log2 : Int) + two) * 30103 / 100000
  let atLeast (p : Int) : Bool :=
    let (num, den) := scaled coefficient two p
    den ≤ num
  if atLeast (guess + 1) then guess + 1 else if atLeast guess then guess else guess - 1

/-- The grid point `n * 10 ^ ten` lies in the interval. -/
def Interval.contains (i : Interval) (n : Nat) (ten : Int) : Bool :=
  -- compare `n * 10 ^ ten` with the ends, all multiplied by the same powers
  let point := n * Nat.pow 10 ten.toNat * Nat.pow 2 (-i.exponent).toNat
  let scale := Nat.pow 2 i.exponent.toNat * Nat.pow 10 (-ten).toNat
  if i.closed then i.lower * scale ≤ point && point ≤ i.upper * scale
  else i.lower * scale < point && point < i.upper * scale

/-- The multiple of `10 ^ ten` in the interval that is nearest to the value, if there is one. -/
def Interval.onGrid (i : Interval) (tie : Tie) (ten : Int) : Option Nat :=
  let (num, den) := scaled i.value i.exponent ten
  let below : Nat := num / den
  let above : Nat := below + 1
  match i.contains below ten && below != 0, i.contains above ten with
  | true, true =>
    let rest : Nat := num % den
    if 2 * rest < den then some below
    else if den < 2 * rest then some above
    else match tie with
      | .up => some above
      | .toEven => if below % 2 = 0 then some below else some above
  | true, false => some below
  | false, true => some above
  | false, false => none

/-- `n * 10 ^ e` with the trailing zeros of `n` moved into the exponent. -/
def Scientific.normal : (fuel : Nat) → (n : Nat) → (e : Int) → Scientific
  | 0, n, e => ⟨n, e⟩
  | fuel + 1, n, e =>
    if n ≠ 0 ∧ n % 10 = 0 then Scientific.normal fuel (n / 10) (e + 1) else ⟨n, e⟩

/-- The first grid, from the coarsest on, that meets the interval. Seventeen digits always do. -/
def Interval.shortest (i : Interval) (tie : Tie) : (grids : Nat) → (ten : Int) → Scientific
  | 0, ten => ⟨0, ten⟩
  | grids + 1, ten =>
    match i.onGrid tie ten with
    | some n => Scientific.normal 20 n ten
    | none => i.shortest tie grids (ten - 1)

/-- The shortest decimal of the finite float with these magnitude bits. -/
def shortest (tie : Tie) (bits : Nat) : Scientific :=
  let d := Dyadic.ofMagnitude bits
  if d.significand = 0 then ⟨0, 0⟩
  else (Interval.ofDyadic d).shortest tie 18 (decimalExponent d.significand d.exponent)

end ScriptEngine.Decimal
