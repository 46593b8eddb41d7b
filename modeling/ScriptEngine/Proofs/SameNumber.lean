import Mathlib
import ScriptEngine.Binary64

/-! # When two floats are the same number

A float is the same number as itself unless it is a NaN (`Binary64.sameNumber_self`), and being the
same number is symmetric and transitive for all floats.  The reason is that floats are compared by what
their bits stand for (`Binary64.number?`): a sign and a magnitude, one zero for both signs, and nothing
for a NaN.
-/
namespace ScriptEngine.Binary64
open Float.Model (UnpackedFloat Format)
open Float.Model.UnpackedFloat

/-- What decides which numbers are equal to this one; the two zeros count as one. -/
def numeral? : UnpackedFloat → Option UnpackedFloat
  | .notANumber => none
  | .zero _ => some (.zero .positive)
  | x => some x

theorem numeral?_eq_none {a : UnpackedFloat} : numeral? a = none ↔ a = .notANumber := by
  cases a <;> simp [numeral?]

/-- The number that a float stands for, if it stands for any. -/
def number? (x : Binary64) : Option UnpackedFloat := numeral? x.value.toModel.unpack

theorem finite_beq_iff {s t : Sign} {m n : Nat} {e k : Int} {hm : 0 < m} {hn : 0 < n} :
    (UnpackedFloat.finite s m e hm).beq (.finite t n k hn) = true ↔ s = t ∧ m = n ∧ e = k := by
  cases s <;> cases t <;>
    simp [UnpackedFloat.beq, UnpackedFloat.compare, Ordering.then_eq_eq, and_comm]

theorem beq_iff {a b : UnpackedFloat} :
    a.beq b = true ↔ ∃ c, numeral? a = some c ∧ numeral? b = some c := by
  cases a with
  | notANumber => cases b <;> simp [UnpackedFloat.beq, UnpackedFloat.compare, numeral?]
  | infinity s =>
    have hself : compare s s = .eq := by cases s <;> rfl
    cases s <;> cases b with
    | infinity t => cases t <;> simp [UnpackedFloat.beq, UnpackedFloat.compare, numeral?, hself]
    | _ => simp [UnpackedFloat.beq, UnpackedFloat.compare, numeral?]
  | zero s =>
    cases b with
    | infinity t | finite t =>
      cases t <;> simp [UnpackedFloat.beq, UnpackedFloat.compare, numeral?]
    | _ => simp [UnpackedFloat.beq, UnpackedFloat.compare, numeral?]
  | finite s m e hm =>
    cases b with
    | infinity t =>
      cases s <;> cases t <;> simp [UnpackedFloat.beq, UnpackedFloat.compare, numeral?]
    | finite t n k hn =>
      rw [finite_beq_iff]
      simp [numeral?, eq_comm]
    | _ => cases s <;> simp [UnpackedFloat.beq, UnpackedFloat.compare, numeral?]

theorem sameNumber_iff {x y : Binary64} :
    x.sameNumber y = true ↔ ∃ c, x.number? = some c ∧ y.number? = some c :=
  beq_iff

theorem sameNumber_symm {x y : Binary64} (h : x.sameNumber y = true) : y.sameNumber x = true := by
  obtain ⟨c, hx, hy⟩ := sameNumber_iff.mp h
  exact sameNumber_iff.mpr ⟨c, hy, hx⟩

theorem sameNumber_trans {x y z : Binary64} (h : x.sameNumber y = true)
    (h' : y.sameNumber z = true) : x.sameNumber z = true := by
  obtain ⟨c, hx, hy⟩ := sameNumber_iff.mp h
  obtain ⟨d, hy', hz⟩ := sameNumber_iff.mp h'
  obtain rfl := Option.some.inj (hy.symm.trans hy')
  exact sameNumber_iff.mpr ⟨c, hx, hz⟩

/-! ## NaNs -/

/-- The exponent that 64 bits hold. -/
abbrev exponentOf (b : BitVec 64) : BitVec 11 := @unpackExponent .binary64 b

/-- The fraction that 64 bits hold. -/
abbrev fractionOf (b : BitVec 64) : BitVec 52 := @unpackMantissa .binary64 b

/-- The bits are those of a NaN: the greatest exponent with a fraction. -/
def IsNaNBits (b : BitVec 64) : Prop :=
  exponentOf b = 2047#11 ∧ fractionOf b ≠ 0#52

theorem toNat_exponent (b : BitVec 64) :
    (exponentOf b).toNat = b.toNat / 4503599627370496 % 2048 := by
  simp [exponentOf, unpackExponent, BitVec.extractLsb_toNat, Nat.shiftRight_eq_div_pow]

theorem toNat_fraction (b : BitVec 64) :
    (fractionOf b).toNat = b.toNat % 4503599627370496 := by
  simp [fractionOf, unpackMantissa, BitVec.extractLsb_toNat, Nat.shiftRight_eq_div_pow]

theorem exponent_pack (s : Sign) (e : BitVec 11) (m : BitVec 52) :
    exponentOf (packComponents .binary64 s e m) = e := by
  have hm := m.isLt
  have he := e.isLt
  refine BitVec.eq_of_toNat_eq ?_
  rw [toNat_exponent]
  simp only [packComponents, BitVec.toNat_append]
  rw [← Nat.shiftLeft_add_eq_or_of_lt (by omega), ← Nat.shiftLeft_add_eq_or_of_lt (by omega)]
  simp only [Nat.shiftLeft_eq]
  omega

theorem unpack_eq_notANumber_iff {b : BitVec 64} :
    unpack .binary64 b = .notANumber ↔ IsNaNBits b := by
  unfold unpack IsNaNBits
  simp only []
  split
  · rename_i hexp
    split <;> simp_all
  · rename_i hexp
    have hne : exponentOf b ≠ 2047#11 := hexp
    split
    · split <;> simp [hne]
    · simp [hne]

/-- Packing makes a NaN of a NaN only. -/
theorem isNaNBits_pack_iff {x : UnpackedFloat} :
    IsNaNBits (pack .binary64 x) ↔ x = .notANumber := by
  unfold IsNaNBits
  cases x with
  | notANumber => simp [pack, packedNaN]
  | infinity s => simp [pack, packedInfinity]
  | zero s => simp [pack, packedZero]
  | finite s m e hm =>
    simp only [pack]
    split
    · simp [packedInfinity]
    · rename_i hlt
      have hlt : (e + Format.binary64.exponentBias + 52).toNat + 1 < 2048 := Nat.lt_of_not_le hlt
      split
      · rw [exponent_pack]
        have hne : BitVec.ofNat 11 (e + Format.binary64.exponentBias + 52).toNat ≠ 2047#11 := by
          intro he
          have hbits := congrArg BitVec.toNat he
          rw [BitVec.toNat_ofNat, Nat.mod_eq_of_lt (by omega)] at hbits
          have hmax : (2047#11).toNat = 2047 := rfl
          omega
        simp [hne]
      · rw [exponent_pack]
        simp

theorem isNaNBits_iff {x : Binary64} : IsNaNBits x.bits.toBitVec ↔ x.isNaN = true := by
  have hbits : x.bits.toBitVec.toNat = x.bits.toNat := rfl
  have hexp := toNat_exponent x.bits.toBitVec
  have hfrac := toNat_fraction x.bits.toBitVec
  have hone : exponentOf x.bits.toBitVec = 2047#11 ↔
      (exponentOf x.bits.toBitVec).toNat = 2047 :=
    ⟨fun h => congrArg BitVec.toNat h, fun h => BitVec.eq_of_toNat_eq h⟩
  have hzero : fractionOf x.bits.toBitVec = 0#52 ↔
      (fractionOf x.bits.toBitVec).toNat = 0 :=
    ⟨fun h => congrArg BitVec.toNat h, fun h => BitVec.eq_of_toNat_eq h⟩
  rw [IsNaNBits, Ne, hone, hzero, hexp, hfrac, hbits, isNaN, magnitude, decide_eq_true_iff,
    infinityBits, signBit]
  omega

/-- **A float is the same number as itself unless it is a NaN.** -/
theorem sameNumber_self {x : Binary64} : x.sameNumber x = true ↔ x.isNaN = false := by
  have hnone : x.number? = none ↔ x.isNaN = true := by
    rw [← isNaNBits_iff, ← unpack_eq_notANumber_iff, ← isNaNBits_pack_iff,
      ← unpack_eq_notANumber_iff]
    exact numeral?_eq_none
  rw [sameNumber_iff, ← Bool.not_eq_true, ← hnone]
  cases x.number? <;> simp

end ScriptEngine.Binary64
