import ScriptEngine.Binary32

/-! # Floats of half the width

Half the width holds a zero, an infinity, the floats in its normal range whose significand has 24 bits,
and below that range the multiples of its least float (`HoldsSingle`).  Rounding to half the width gives
one of these and leaves each of them as it is, so rounding twice is rounding once
(`Binary64.toSingle_toSingle`), and an integer that was rounded to half the width stays as it is too.
-/
namespace ScriptEngine

/-! ## Rounding -/

namespace Decimal
variable {num den n : Nat}

/-- Only what is no whole number is rounded up. -/
theorem roundHalfEven_cases (num : Nat) (hden : 0 < den) : roundHalfEven num den = num / den ∨
    num % den ≠ 0 ∧ roundHalfEven num den = num / den + 1 := by
  by_cases hrest : num % den = 0
  · exact .inl (by simp [roundHalfEven, hrest, hden])
  · unfold roundHalfEven
    simp only
    split
    · exact .inl rfl
    · split
      · exact .inr ⟨hrest, rfl⟩
      · split
        · exact .inl rfl
        · exact .inr ⟨hrest, rfl⟩

theorem roundHalfEven_mul (n : Nat) (hden : 0 < den) : roundHalfEven (n * den) den = n := by
  obtain heq | ⟨hrest, -⟩ := roundHalfEven_cases (n * den) hden
  · rw [heq, Nat.mul_div_cancel _ hden]
  · exact absurd (Nat.mul_mod_left n den) hrest

theorem le_roundHalfEven (hden : 0 < den) (hnum : n * den ≤ num) : n ≤ roundHalfEven num den := by
  have hdiv : n ≤ num / den := (Nat.le_div_iff_mul_le hden).mpr hnum
  obtain heq | ⟨-, heq⟩ := roundHalfEven_cases num hden <;> omega

theorem roundHalfEven_le (hden : 0 < den) (hnum : num ≤ n * den) : roundHalfEven num den ≤ n := by
  obtain heq | ⟨hrest, heq⟩ := roundHalfEven_cases num hden
  · rw [heq]
    exact Nat.div_le_of_le_mul (by rwa [Nat.mul_comm])
  · have hne : num ≠ n * den := fun he => hrest (by rw [he, Nat.mul_mod_left])
    have hlt : num / den < n := (Nat.div_lt_iff_lt_mul hden).mpr (Nat.lt_of_le_of_ne hnum hne)
    omega

end Decimal

/-! ## What half the width holds -/

/-- The magnitude bits of a float that half the width holds. -/
inductive HoldsSingle : Nat → Prop where
  | zero : HoldsSingle 0
  /-- A multiple of the least float that is too small to be normal. -/
  | small {n : Nat} (hpos : 0 < n) (hn : n < 0x800000) :
      HoldsSingle (scaledMagnitude n leastSingleExponent)
  | normal {n : Nat} (hlow : leastNormalSingle ≤ n * singleUnit)
      (hhigh : n * singleUnit < singleCeiling) : HoldsSingle (n * singleUnit)
  | infinity : HoldsSingle infinityBits

theorem leastNormalSingle_eq : leastNormalSingle = 897 * 0x800000 * singleUnit := by decide

theorem singleCeiling_eq : singleCeiling = 1151 * 0x800000 * singleUnit := by decide

variable {n e m bits : Nat}

/-- A number of at most 53 bits, moved to the left, fills the significand of a normal float. -/
theorem significand_bounds (hpos : 0 < n) (hlog : n.log2 ≤ 52) :
    leadingBit ≤ n * Nat.pow 2 (52 - n.log2) ∧ n * Nat.pow 2 (52 - n.log2) < 2 * leadingBit := by
  have hlow : Nat.pow 2 n.log2 ≤ n := Nat.log2_self_le (Nat.ne_of_gt hpos)
  have hhigh : n < Nat.pow 2 n.log2 * 2 := Nat.lt_log2_self
  have hsum : Nat.pow 2 n.log2 * Nat.pow 2 (52 - n.log2) = leadingBit := by
    refine (Nat.pow_add 2 n.log2 (52 - n.log2)).symm.trans ?_
    rw [Nat.add_sub_cancel' hlog]
    rfl
  constructor
  · rw [← hsum]
    exact Nat.mul_le_mul_right _ hlow
  · rw [Nat.mul_comm 2, ← hsum, Nat.mul_right_comm]
    exact Nat.mul_lt_mul_of_pos_right hhigh (Nat.two_pow_pos _)

theorem log2_le_of_lt {k : Nat} (hn : n < Nat.pow 2 (k + 1)) : n.log2 ≤ k := by
  by_cases hzero : n = 0
  · subst hzero
    exact Nat.zero_le k
  · exact Nat.le_of_lt_succ ((Nat.log2_lt hzero).mpr hn)

/-- The parts of a normal float. -/
theorem Dyadic.ofMagnitude_normal (hlow : leadingBit ≤ m) (hhigh : m < 2 * leadingBit) :
    Dyadic.ofMagnitude (e * leadingBit + m) = ⟨m, (e : Int) - 1074⟩ := by
  rw [leadingBit] at hlow hhigh
  have hdiv : (e * leadingBit + m) / leadingBit = e + 1 := by
    rw [leadingBit]
    omega
  have hmod : (e * leadingBit + m) % leadingBit = m - leadingBit := by
    rw [leadingBit]
    omega
  unfold Dyadic.ofMagnitude
  simp only [hdiv, hmod, Nat.add_one_ne_zero, if_false, Dyadic.mk.injEq]
  rw [leadingBit]
  omega

theorem Dyadic.significand_lt (bits : Nat) : (Dyadic.ofMagnitude bits).significand < 2 * leadingBit := by
  have hmod : bits % leadingBit < leadingBit := Nat.mod_lt _ (by decide)
  unfold Dyadic.ofMagnitude
  simp only
  split <;> simp only <;> omega

theorem Dyadic.exponent_le (hbits : bits < leastNormalSingle) : (Dyadic.ofMagnitude bits).exponent ≤ -179 := by
  have hdiv : bits / leadingBit < 897 := Nat.div_lt_of_lt_mul (by rwa [Nat.mul_comm])
  unfold Dyadic.ofMagnitude
  simp only
  split
  · simp only [leastExponent]
    omega
  · simp only
    omega

/-- What is rounded to half the width is held by half the width. -/
theorem holdsSingle_nearestSingle (bits : Nat) : HoldsSingle (nearestSingle bits) := by
  unfold nearestSingle
  simp only
  split
  case isTrue hbits =>
    let d := Dyadic.ofMagnitude bits
    let unit := Nat.pow 2 (leastSingleExponent - d.exponent).toNat
    have hexp : d.exponent ≤ -179 := Dyadic.exponent_le hbits
    have hunit : Nat.pow 2 30 ≤ unit := Nat.pow_le_pow_right (by decide) (by
      rw [leastSingleExponent]
      omega)
    have hsize : d.significand ≤ 0x800000 * unit := by
      have hlt : d.significand < 2 * leadingBit := Dyadic.significand_lt bits
      have htop : 2 * leadingBit = 0x800000 * Nat.pow 2 30 := by decide
      have := Nat.mul_le_mul_left 0x800000 hunit
      omega
    have hle : Decimal.roundHalfEven d.significand unit ≤ 0x800000 :=
      Decimal.roundHalfEven_le (Nat.two_pow_pos _) hsize
    show HoldsSingle (scaledMagnitude (Decimal.roundHalfEven d.significand unit) leastSingleExponent)
    obtain hlt | heq := Nat.lt_or_eq_of_le hle
    · obtain hzero | hpos := Nat.eq_zero_or_pos (Decimal.roundHalfEven d.significand unit)
      · rw [hzero]
        exact .zero
      · exact .small hpos hlt
    · -- rounded up to the least normal float
      have hleast : scaledMagnitude 0x800000 leastSingleExponent = 897 * 0x800000 * singleUnit := by
        decide
      rw [heq, hleast]
      exact .normal (by decide) (by decide)
  case isFalse hbits =>
    split
    · rename_i hhigh
      refine .normal ?_ hhigh
      have hlow := Nat.le_of_not_lt hbits
      rw [leastNormalSingle_eq] at hlow ⊢
      exact Nat.mul_le_mul_right singleUnit (Decimal.le_roundHalfEven (by decide) hlow)
    · exact .infinity

theorem scaledMagnitude_eq {x : Int} (hpos : 0 < n) (he : (n.log2 : Int) + x + 1022 = e) :
    scaledMagnitude n x = e * leadingBit + n * Nat.pow 2 (52 - n.log2) := by
  rw [scaledMagnitude, if_neg (Nat.ne_of_gt hpos), he, Int.toNat_natCast]

/-- The multiples of the least float below the normal range. -/
theorem scaledMagnitude_small (hpos : 0 < n) (hn : n < 0x800000) :
    scaledMagnitude n leastSingleExponent =
        (n.log2 + 873) * leadingBit + n * Nat.pow 2 (52 - n.log2) ∧
      scaledMagnitude n leastSingleExponent < leastNormalSingle := by
  have hlog : n.log2 ≤ 22 := log2_le_of_lt hn
  obtain ⟨-, hhigh⟩ := significand_bounds hpos (Nat.le_trans hlog (by decide))
  have hscaled := scaledMagnitude_eq hpos (e := n.log2 + 873) (x := leastSingleExponent) (by
    rw [leastSingleExponent]
    omega)
  refine ⟨hscaled, ?_⟩
  rw [hscaled, leastNormalSingle]
  rw [leadingBit] at *
  omega

/-- What half the width holds is not rounded. -/
theorem HoldsSingle.nearestSingle_eq (hb : HoldsSingle bits) : nearestSingle bits = bits := by
  cases hb with
  | zero =>
    have hsignificand : (Dyadic.ofMagnitude 0).significand = 0 := by decide
    have hround (e : Nat) : Decimal.roundHalfEven 0 (Nat.pow 2 e) = 0 :=
      (congrArg (Decimal.roundHalfEven · _) (Nat.zero_mul _)).symm.trans
        (Decimal.roundHalfEven_mul 0 (Nat.two_pow_pos e))
    rw [nearestSingle, if_pos (by decide)]
    simp only [hsignificand, hround, scaledMagnitude, if_true]
  | @small n hpos hn =>
    have hlog : n.log2 ≤ 22 := log2_le_of_lt hn
    obtain ⟨hlow, hhigh⟩ := significand_bounds hpos (Nat.le_trans hlog (by decide))
    obtain ⟨hscaled, hbelow⟩ := scaledMagnitude_small hpos hn
    have hunit : (leastSingleExponent - (((n.log2 + 873 : Nat) : Int) - 1074)).toNat = 52 - n.log2 := by
      rw [leastSingleExponent]
      omega
    have hpow : 0 < Nat.pow 2 (52 - n.log2) := Nat.two_pow_pos _
    rw [nearestSingle, if_pos hbelow]
    simp only [hscaled, Dyadic.ofMagnitude_normal hlow hhigh, hunit, Decimal.roundHalfEven_mul n hpow]
  | normal hlow hhigh =>
    rw [nearestSingle, if_neg (Nat.not_lt_of_le hlow)]
    simp only [Decimal.roundHalfEven_mul _ (show 0 < singleUnit by decide), if_pos hhigh]
  | infinity => decide

theorem HoldsSingle.le_infinityBits (hb : HoldsSingle bits) : bits ≤ infinityBits := by
  cases hb with
  | zero => exact Nat.zero_le _
  | small hpos hn => exact Nat.le_of_lt (Nat.lt_trans (scaledMagnitude_small hpos hn).2 (by decide))
  | normal _ hhigh => exact Nat.le_of_lt (Nat.lt_trans hhigh (by decide))
  | infinity => exact Nat.le_refl _

/-- Half the width holds whole numbers of 24 bits, and those that end in zeros behind 24 bits. -/
theorem holdsSingle_scaled (hn : n ≤ 0x1000000) (he : e ≤ 40) : HoldsSingle (scaledMagnitude n e) := by
  obtain rfl | hpos := Nat.eq_zero_or_pos n
  · exact .zero
  have hlog : n.log2 ≤ 24 := log2_le_of_lt (Nat.lt_of_le_of_lt hn (by decide))
  obtain ⟨hlow, hhigh⟩ := significand_bounds hpos (Nat.le_trans hlog (by decide))
  have hscaled := scaledMagnitude_eq hpos (e := n.log2 + e + 1022) (x := e) (by omega)
  -- the least bits of the significand are zeros
  obtain ⟨m, hm⟩ : ∃ m, n * Nat.pow 2 (52 - n.log2) = m * singleUnit := by
    obtain hlt | rfl := Nat.lt_or_eq_of_le hn
    · have hlog : n.log2 ≤ 23 := log2_le_of_lt hlt
      refine ⟨n * Nat.pow 2 (23 - n.log2), ?_⟩
      have hsplit : 52 - n.log2 = 23 - n.log2 + 29 := by omega
      rw [hsplit, Nat.mul_assoc]
      exact congrArg (n * ·) (Nat.pow_add 2 (23 - n.log2) 29)
    · exact ⟨0x800000, by decide⟩
  have hlead : leadingBit = 0x800000 * singleUnit := by decide
  have hmultiple : scaledMagnitude n e = ((n.log2 + e + 1022) * 0x800000 + m) * singleUnit := by
    rw [hscaled, hm, hlead, Nat.add_mul _ m, Nat.mul_assoc]
  rw [hm, hlead] at hlow hhigh
  rw [← Nat.mul_assoc] at hhigh
  have hfirst : 0x800000 ≤ m := Nat.le_of_mul_le_mul_right hlow (by decide)
  have hlast : m < 2 * 0x800000 := Nat.lt_of_mul_lt_mul_right hhigh
  have hleast : 897 * 0x800000 ≤ (n.log2 + e + 1022) * 0x800000 + m := by omega
  have hmost : (n.log2 + e + 1022) * 0x800000 + m < 1151 * 0x800000 := by omega
  rw [hmultiple]
  refine .normal ?_ ?_
  · rw [leastNormalSingle_eq]
    exact Nat.mul_le_mul_right _ hleast
  · rw [singleCeiling_eq]
    exact Nat.mul_lt_mul_of_pos_right hmost (by decide)

/-! ## Floats -/

namespace Binary64

theorem magnitude_ofMagnitude (negative : Bool) (hbits : bits < signBit) :
    (ofMagnitude negative bits).magnitude = bits := by
  rw [signBit] at hbits
  cases negative <;>
    simp only [ofMagnitude, magnitude, UInt64.toNat_ofNat', signBit, if_true, Bool.false_eq_true,
      if_false] <;> omega

/-- A float is its sign and its magnitude. -/
theorem ofMagnitude_magnitude (x : Binary64) : ofMagnitude x.isNegative x.magnitude = x := by
  have hbits : x.bits.toNat < 0x10000000000000000 := x.bits.toNat_lt
  refine congrArg mk (UInt64.toNat_inj.mp ?_)
  rw [UInt64.toNat_ofNat']
  simp only [isNegative, magnitude, signBit]
  by_cases hsign : 0x8000000000000000 ≤ x.bits.toNat
  · simp only [hsign, decide_true, if_true]
    omega
  · simp only [hsign, decide_false, Bool.false_eq_true, if_false]
    omega

/-- What half the width holds is not rounded. -/
theorem toSingle_of_holdsSingle {x : Binary64} (hx : HoldsSingle x.magnitude) : x.toSingle = x := by
  unfold toSingle
  split
  · rfl
  · rw [hx.nearestSingle_eq, ofMagnitude_magnitude]

theorem holdsSingle_ofMagnitude (negative : Bool) (hb : HoldsSingle bits) :
    HoldsSingle (ofMagnitude negative bits).magnitude := by
  rw [magnitude_ofMagnitude negative (Nat.lt_of_le_of_lt hb.le_infinityBits (by decide))]
  exact hb

/-- **Rounding to half the width twice is rounding once.** -/
theorem toSingle_toSingle (x : Binary64) : x.toSingle.toSingle = x.toSingle := by
  by_cases hnan : x.isNaN
  · have hsame : x.toSingle = x := if_pos hnan
    rw [hsame, hsame]
  · have hround : x.toSingle = ofMagnitude x.isNegative (nearestSingle x.magnitude) := if_neg hnan
    rw [hround]
    exact toSingle_of_holdsSingle (holdsSingle_ofMagnitude _ (holdsSingle_nearestSingle _))

/-- An integer that was rounded to half the width stays as it is. -/
theorem toSingle_singleOfInt64 (n : Int64) : (singleOfInt64 n).toSingle = singleOfInt64 n := by
  have hsize : n.toInt.natAbs < 0x10000000000000000 := by
    have hlow := n.le_toInt
    have hhigh := n.toInt_lt
    omega
  have hlog : n.toInt.natAbs.log2 ≤ 63 := log2_le_of_lt hsize
  refine toSingle_of_holdsSingle (holdsSingle_ofMagnitude _ (holdsSingle_scaled ?_ (by omega)))
  refine Decimal.roundHalfEven_le (Nat.two_pow_pos _) (Nat.le_of_lt ?_)
  -- the bits that are left are 24
  calc n.toInt.natAbs
    _ < Nat.pow 2 (n.toInt.natAbs.log2 + 1) := Nat.lt_log2_self
    _ ≤ Nat.pow 2 (24 + (n.toInt.natAbs.log2 - 23)) := Nat.pow_le_pow_right (by decide) (by omega)
    _ = 0x1000000 * Nat.pow 2 (n.toInt.natAbs.log2 - 23) := Nat.pow_add 2 24 _

end Binary64

end ScriptEngine
