import ScriptEngine.Decimal.Shortest

/-! How a float is written. Every layout starts from the shortest decimal and differs in a few
decisions only: which magnitudes are written with an exponent, whether a whole number keeps a
fraction, how the exponent is signed, and how a tie between two shortest decimals is broken. -/
namespace ScriptEngine.Decimal

/-- The decisions of one way to write floats. -/
structure Layout where
  /-- Powers of ten of the leading digit that are written positionally. -/
  positional : Int → Bool
  /-- A whole number written positionally ends in `.0`. -/
  keepsFraction : Bool
  /-- A positive exponent is written with `+`. -/
  signsExponent : Bool
  tie : Tie

/-- Text of values: always positional, whole numbers without a fraction. -/
def Layout.display : Layout := ⟨fun _ => true, false, false, .up⟩

/-- Text of the fields of host structs: an exponent from `1e16` on and below `1e-4`. -/
def Layout.debug : Layout := ⟨fun p => -4 ≤ p && p < 16, true, false, .up⟩

/-- Numerals in JSON text: an exponent from `1e+16` on and below `1e-5`. -/
def Layout.json : Layout := ⟨fun p => -5 ≤ p && p < 16, true, true, .toEven⟩

/-- The decimal digits of `n`, most significant first. -/
def digitChars (n : Nat) : List Char :=
  Nat.toDigits 10 n

/-- Whole and fractional digits of `s`, written positionally. -/
def Scientific.positional (s : Scientific) : List Char × List Char :=
  let digits := digitChars s.digits
  if 0 ≤ s.exponent then (digits ++ List.replicate s.exponent.toNat '0', [])
  else
    let places := (-s.exponent).toNat
    let padded := List.replicate (places + 1 - digits.length) '0' ++ digits
    (padded.take (padded.length - places), padded.drop (padded.length - places))

/-- The power of ten of the leading digit of `s`. -/
def Scientific.leading (s : Scientific) : Int :=
  s.exponent + ((digitChars s.digits).length : Int) - 1

/-- A numeral in three parts: the digits before the point, those behind it, and the power of ten. -/
structure Numeral where
  negative : Bool
  whole : List Char
  fraction : Option (List Char)
  exponent : Option (List Char)
deriving Repr, DecidableEq

/-- `n` as the digits of an exponent. -/
def Layout.exponentChars (l : Layout) (n : Int) : List Char :=
  let sign := if n < 0 then ['-'] else if l.signsExponent then ['+'] else []
  sign ++ digitChars n.natAbs

/-- The numeral of a finite float. -/
def Layout.numeral (l : Layout) (negative : Bool) (s : Scientific) : Numeral :=
  if s.digits = 0 ∨ l.positional s.leading then
    let (whole, fraction) := s.positional
    let fraction :=
      if fraction.isEmpty then (if l.keepsFraction then some ['0'] else none) else some fraction
    ⟨negative, whole, fraction, none⟩
  else
    let digits := digitChars s.digits
    let fraction := digits.drop 1
    ⟨negative, digits.take 1, if fraction.isEmpty then none else some fraction,
      some (l.exponentChars s.leading)⟩

/-- The text of a numeral. -/
def Numeral.chars (n : Numeral) : List Char :=
  (if n.negative then ['-'] else []) ++ n.whole ++
    (match n.fraction with | none => [] | some ds => '.' :: ds) ++
    (match n.exponent with | none => [] | some ds => 'e' :: ds)

/-- The numeral of the float `x`, if it is finite. -/
def Layout.numeral? (l : Layout) (x : Binary64) : Option Numeral :=
  if x.isFinite then some (l.numeral x.isNegative (shortest l.tie x.magnitude)) else none

/-- The text of any float. -/
def Layout.text (l : Layout) (x : Binary64) : String :=
  match l.numeral? x with
  | some n => String.ofList n.chars
  | none => if x.isNaN then "NaN" else if x.isNegative then "-inf" else "inf"

end ScriptEngine.Decimal
