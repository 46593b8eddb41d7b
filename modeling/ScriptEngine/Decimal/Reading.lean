import ScriptEngine.Decimal.Binary
import ScriptEngine.Text.Blank

/-! Reading numbers. An integer is an optional sign and digits within the 64-bit range. A float is
an optional sign and either a word for infinity or NaN in any case, or digits with at most one point
and an optional exponent; it reads as the nearest float. -/
namespace ScriptEngine.Decimal

/-- The value of a decimal digit. -/
def digitValue (c : Char) : Nat :=
  c.toNat - '0'.toNat

/-- Digits `cs` behind the digits of the number `n`. -/
def appendDigits (n : Nat) (cs : List Char) : Nat :=
  cs.foldl (fun n c => 10 * n + digitValue c) n

theorem appendDigits_eq (n : Nat) (cs : List Char) :
    appendDigits n cs = n * Nat.pow 10 cs.length + appendDigits 0 cs := by
  induction cs generalizing n with
  | nil => simp [appendDigits]
  | cons c cs ih =>
    have power : Nat.pow 10 (cs.length + 1) = Nat.pow 10 cs.length * 10 := rfl
    have head (m : Nat) : appendDigits m (c :: cs) = appendDigits (10 * m + digitValue c) cs := rfl
    rw [head, head, ih, ih (10 * 0 + digitValue c), List.length_cons, power, Nat.add_mul,
      Nat.mul_zero, Nat.zero_add, Nat.mul_comm 10 n, Nat.mul_assoc, Nat.mul_comm 10, Nat.add_assoc]

/-- The number whose decimal digits are `cs`. Halving the digits some times over keeps most of the
numbers on the way short. -/
def natOfHalves : (halvings : Nat) → List Char → Nat
  | 0, cs => appendDigits 0 cs
  | halvings + 1, cs =>
    let (high, low) := cs.splitAt (cs.length / 2)
    natOfHalves halvings high * Nat.pow 10 low.length + natOfHalves halvings low

theorem natOfHalves_eq (halvings : Nat) (cs : List Char) :
    natOfHalves halvings cs = appendDigits 0 cs := by
  induction halvings generalizing cs with
  | zero => rfl
  | succ halvings ih =>
    simp only [natOfHalves, List.splitAt_eq, ih]
    rw [← appendDigits_eq, appendDigits, appendDigits, ← List.foldl_append, List.take_append_drop,
      appendDigits]

/-- The number whose decimal digits are `cs`. -/
def natOfDigits (cs : List Char) : Nat :=
  natOfHalves (cs.length / 64).log2 cs

theorem natOfDigits_eq (cs : List Char) : natOfDigits cs = appendDigits 0 cs :=
  natOfHalves_eq _ cs

/-- One or more decimal digits. -/
def isDigits (cs : List Char) : Bool :=
  !cs.isEmpty && cs.all Char.isDigit

/-- A leading sign, and what follows it. -/
def splitSign : List Char → Bool × List Char
  | '-' :: cs => (true, cs)
  | '+' :: cs => (false, cs)
  | cs => (false, cs)

/-- An optional sign and one or more digits, as an integer of any size. -/
def readInteger? (cs : List Char) : Option Int :=
  let (negative, digits) := splitSign cs
  if isDigits digits then
    some (if negative then -(natOfDigits digits : Int) else natOfDigits digits)
  else none

/-- `n` lies in the range of 64-bit integers. -/
def inInt64 (n : Int) : Bool :=
  Int64.minValue.toInt ≤ n && n ≤ Int64.maxValue.toInt

/-- An optional sign and digits whose value fits 64 bits. -/
def readInt64? (cs : List Char) : Option Int64 :=
  match readInteger? cs with
  | some n => if inInt64 n then some (Int64.ofInt n) else none
  | none => none

/-- The words for floats that are no numerals. -/
def readWord? (negative : Bool) (cs : List Char) : Option Binary64 :=
  let word := cs.map Char.toLower
  if word = "inf".toList ∨ word = "infinity".toList then some (.ofMagnitude negative infinityBits)
  else if word = "nan".toList then some (.ofMagnitude negative nanBits)
  else none

/-- An exponent that has come this far takes no more digits. -/
def exponentReach : Nat := 0x10000

/-- The number whose decimal digits are `cs`, up to the digit with which it gets large enough. -/
def exponentOfDigits (cs : List Char) : Nat :=
  cs.foldl (fun n c => if n < exponentReach then 10 * n + digitValue c else n) 0

/-- The exponent behind `e`, zero when there is none. -/
def readExponent? : List Char → Option Int
  | [] => some 0
  | c :: cs =>
    let (negative, digits) := splitSign cs
    if (c = 'e' ∨ c = 'E') ∧ isDigits digits then
      some (if negative then -(exponentOfDigits digits : Int) else exponentOfDigits digits)
    else none

/-- Digits with at most one point and an optional exponent. -/
def readNumeral? (negative : Bool) (cs : List Char) : Option Binary64 :=
  let whole := cs.takeWhile Char.isDigit
  let rest := cs.dropWhile Char.isDigit
  let (fraction, rest) :=
    match rest with
    | '.' :: cs => (cs.takeWhile Char.isDigit, cs.dropWhile Char.isDigit)
    | cs => ([], cs)
  if whole.isEmpty && fraction.isEmpty then none
  else
    (readExponent? rest).map fun e =>
      nearest negative (natOfDigits (whole ++ fraction)) (e - fraction.length)

/-- The float that a text names. -/
def readFloat? (cs : List Char) : Option Binary64 :=
  let (negative, body) := splitSign cs
  (readNumeral? negative body).or (readWord? negative body)

end ScriptEngine.Decimal
