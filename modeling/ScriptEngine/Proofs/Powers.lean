import Mathlib.Algebra.Ring.Int.Parity
import ScriptEngine.Operator

/-! # Powers of integers

A power of integers is worked out exactly where it fits 64 bits, and as floats otherwise.  Which powers fit
is soon told: from the 64th on none of a number other than 0, 1 and -1 does (`Heap.ne_pow_of_large`), and the
powers of these three always do (`Heap.intPower?_eq_some_iff`).

The exact way takes exponents of 32 bits only.  `integer_power_exact` says that nothing is lost by this for
larger bases.  But 0, 1 and -1 have powers that fit whatever the exponent is, and from the exponent 2 ^ 32 on
these are floats too; an odd power of -1 may then even have the wrong sign, since the nearest float to an odd
exponent is mostly even.
-/
namespace ScriptEngine

/-- The value is a scalar, and reads as this integer. -/
def Value.ReadsAs (v : Value) (n : Int64) : Prop := v.isReference = false ∧ v.toNumber = .int n

instance (v : Value) (n : Int64) : Decidable (v.ReadsAs n) :=
  match hv : v.toNumber with
  | .int m => decidable_of_iff (v.isReference = false ∧ m = n) (by simp [Value.ReadsAs, hv])
  | .float x => .isFalse (by simp [Value.ReadsAs, hv])

namespace Heap
variable {h : Heap} {v left right : Value} {base exponent n : Int64} {b m : Int} {e : Nat}

/-! ## The powers that fit -/

/-- The integer of 64 bits with a value in their range. -/
theorem ofInt_eq_iff (hleast : -2 ^ 63 ≤ m) (hgreatest : m < 2 ^ 63) :
    some (Int64.ofInt m) = some n ↔ n.toInt = m := by
  rw [Option.some_inj, ← Int64.toInt_inj, Int64.toInt_ofInt_of_le hleast hgreatest, eq_comm]

theorem inInt64_iff : Decimal.inInt64 m = true ↔ -2 ^ 63 ≤ m ∧ m < 2 ^ 63 := by
  simp only [Decimal.inInt64, Int64.toInt_minValue, Int64.toInt_maxValue, Bool.and_eq_true,
    decide_eq_true_eq]
  omega

/-- **No large power fits** of a number that is not 0, 1 or -1. -/
theorem ne_pow_of_large (hb : 2 ≤ b.natAbs) (he : 64 ≤ e) (n : Int64) : n.toInt ≠ b ^ e := by
  intro heq
  have hlarge : 2 ^ 64 ≤ (b ^ e).natAbs := by
    calc 2 ^ 64 ≤ 2 ^ e := Nat.pow_le_pow_right (by decide) he
      _ ≤ b.natAbs ^ e := Nat.pow_le_pow_left hb e
      _ = (b ^ e).natAbs := (Int.natAbs_pow b e).symm
  have hleast := n.le_toInt
  have hgreatest := n.toInt_lt
  omega

/-- **An exact power is given exactly if it fits.** -/
theorem intPower?_eq_some_iff : intPower? b e = some n ↔ n.toInt = b ^ e := by
  unfold intPower?
  split
  · rename_i hbase
    have hpower : b ^ e = if e = 0 then 1 else b := by
      split
      · subst e
        exact Int.pow_zero b
      · rename_i he
        rcases hbase with rfl | rfl
        · exact Int.zero_pow he
        · exact Int.one_pow
    rw [hpower]
    exact ofInt_eq_iff (by split <;> omega) (by split <;> omega)
  split
  · rename_i hbase
    subst hbase
    split
    · rename_i heven
      rw [(Nat.even_iff.mpr heven).neg_one_pow]
      exact ofInt_eq_iff (m := 1) (by decide) (by decide)
    · rename_i hodd
      rw [(Nat.odd_iff.mpr (Nat.mod_two_ne_zero.mp hodd)).neg_one_pow]
      exact ofInt_eq_iff (m := -1) (by decide) (by decide)
  split
  · rename_i hfits
    obtain ⟨hleast, hgreatest⟩ := inInt64_iff.mp hfits.2
    exact ofInt_eq_iff hleast hgreatest
  · rename_i hlarge
    refine iff_of_false nofun fun heq => ?_
    by_cases he : e < 64
    · have hfits := inInt64_iff.mpr ⟨heq ▸ n.le_toInt, heq ▸ n.toInt_lt⟩
      exact hlarge ⟨he, hfits⟩
    · exact ne_pow_of_large (by omega) (by omega) n heq

/-! ## The operator -/

theorem numeric_of_readsAs (hv : v.ReadsAs n) (symbol : String) :
    h.numeric symbol v = .ok (.int n) := by
  rw [numeric, hv.1, hv.2]
  rfl

/-- The power of what reads as integers is that of the integers. -/
theorem binary_pow_of_readsAs (hleft : left.ReadsAs base) (hright : right.ReadsAs exponent) :
    h.binary .pow left right = .ok ((power (.int base) (.int exponent)).toValue, h) := by
  show ((h.numeric _ left >>= fun a => h.numeric _ right >>= fun b => pure (power a b).toValue) >>=
    fun v => pure (v, h)) = _
  rw [numeric_of_readsAs hleft, numeric_of_readsAs hright]
  rfl

/-- The powers that are worked out exactly are those that fit. -/
theorem power_of_small_exponent (base : Int64) (hsign : 0 ≤ exponent.toInt)
    (hsmall : exponent.toInt < 2 ^ 32) :
    (∀ n, n.toInt = base.toInt ^ exponent.toInt.toNat →
      power (.int base) (.int exponent) = .int n) ∧
    ((¬ ∃ n : Int64, n.toInt = base.toInt ^ exponent.toInt.toNat) →
      power (.int base) (.int exponent) = .float ((Binary64.ofInt64 base).pow (.ofInt64 exponent))) := by
  have hexact : 0 ≤ exponent.toInt ∧ exponent.toInt < UInt32.size := ⟨hsign, hsmall⟩
  unfold power
  simp only [if_pos hexact]
  refine ⟨fun n hn => ?_, fun hnone => ?_⟩
  · rw [intPower?_eq_some_iff.mpr hn]
  · cases hpower : intPower? base.toInt exponent.toInt.toNat with
    | none => rfl
    | some n => exact absurd ⟨n, intPower?_eq_some_iff.mp hpower⟩ hnone

/-- Larger exponents are not tried. -/
theorem power_of_large_exponent (hlarge : 2 ^ 32 ≤ exponent.toInt) :
    power (.int base) (.int exponent) =
      .float ((Binary64.ofInt64 base).pow (.ofInt64 exponent)) := by
  have hexact : ¬ (0 ≤ exponent.toInt ∧ exponent.toInt < UInt32.size) :=
    fun hsmall => absurd hsmall.2 (Int.not_lt.mpr hlarge)
  unfold power
  simp only [if_neg hexact]

/-- **A power of integers is exact where it fits**, unless its exponent is too large to be tried.  Below the
exponent 2 ^ 32, and for every exponent if the base is not 0, 1 or -1, it is an integer exactly if the power
fits 64 bits, and then it is the power; otherwise it is the float that is the power of the nearest floats.
From the exponent 2 ^ 32 on it is always this float, whether or not the power fits. -/
theorem integer_power_exact (hleft : left.ReadsAs base) (hright : right.ReadsAs exponent)
    (hsign : 0 ≤ exponent.toInt) (h : Heap) :
    (exponent.toInt < 2 ^ 32 ∨ 2 ≤ base.toInt.natAbs →
      (∀ n : Int64, h.binary .pow left right = .ok (.int n, h) ↔
        n.toInt = base.toInt ^ exponent.toInt.toNat) ∧
      ((¬ ∃ n : Int64, n.toInt = base.toInt ^ exponent.toInt.toNat) →
        h.binary .pow left right =
          .ok (.float ((Binary64.ofInt64 base).pow (.ofInt64 exponent)), h))) ∧
    (2 ^ 32 ≤ exponent.toInt →
      h.binary .pow left right =
        .ok (.float ((Binary64.ofInt64 base).pow (.ofInt64 exponent)), h)) := by
  rw [binary_pow_of_readsAs hleft hright]
  refine ⟨fun htried => ?_, fun hlarge => by rw [power_of_large_exponent hlarge]; rfl⟩
  by_cases hsmall : exponent.toInt < 2 ^ 32
  · obtain ⟨hfits, hfloat⟩ := power_of_small_exponent base hsign hsmall
    refine ⟨fun n => ⟨fun hn => ?_, fun hn => by rw [hfits n hn]; rfl⟩,
      fun hnone => by rw [hfloat hnone]; rfl⟩
    by_cases hexists : ∃ m : Int64, m.toInt = base.toInt ^ exponent.toInt.toNat
    · obtain ⟨m, hm⟩ := hexists
      rw [hfits m hm] at hn
      cases hn
      exact hm
    · rw [hfloat hexists] at hn
      cases hn
  · -- The power is a float, and since the base is large this is as it should be.
    have hlarge : 2 ^ 32 ≤ exponent.toInt := Int.not_lt.mp hsmall
    have hbase : 2 ≤ base.toInt.natAbs := htried.resolve_left hsmall
    rw [power_of_large_exponent hlarge]
    refine ⟨fun n => iff_of_false nofun ?_, fun _ => rfl⟩
    exact ne_pow_of_large hbase (by omega) n

/-- The least integer of 64 bits is a power of -2, and the next one with the same sign does not fit any more.
The exponents are texts. -/
theorem integer_power_exact_least :
    (Value.int (-2)).ReadsAs (-2) ∧ (Value.str "63").ReadsAs 63 ∧ (Value.str " +65 ").ReadsAs 65 ∧
    ∀ h : Heap, h.binary .pow (.int (-2)) (.str "63") = .ok (.int Int64.minValue, h) ∧
      h.binary .pow (.int (-2)) (.str " +65 ") =
        .ok (.float ((Binary64.ofInt64 (-2)).pow (.ofInt64 65)), h) := by
  have hbase : (Value.int (-2)).ReadsAs (-2) := ⟨rfl, rfl⟩
  have hfirst : (Value.str "63").ReadsAs 63 := by decide
  have hsecond : (Value.str " +65 ").ReadsAs 65 := by decide
  refine ⟨hbase, hfirst, hsecond, fun h => ⟨?_, ?_⟩⟩
  · obtain ⟨hexact, -⟩ := (integer_power_exact hbase hfirst (by decide) h).1 (.inl (by decide))
    exact (hexact Int64.minValue).mpr (by decide)
  · obtain ⟨-, hfloat⟩ := (integer_power_exact hbase hsecond (by decide) h).1 (.inl (by decide))
    refine hfloat ?_
    rintro ⟨n, hn⟩
    have hleast := n.le_toInt
    have hpower : (-2 : Int64).toInt ^ (65 : Int64).toInt.toNat = -2 ^ 65 := by decide
    omega

/-- The greatest exponent is odd, so this power of -1 is -1, which fits; but it is a float. -/
theorem power_of_minus_one_not_integer :
    (Value.int (-1)).ReadsAs (-1) ∧ (Value.int Int64.maxValue).ReadsAs Int64.maxValue ∧
    0 ≤ Int64.maxValue.toInt ∧
    (-1 : Int64).toInt = (-1 : Int64).toInt ^ Int64.maxValue.toInt.toNat ∧
    ∀ (h h' : Heap) (n : Int64),
      h.binary .pow (.int (-1)) (.int Int64.maxValue) ≠ .ok (.int n, h') := by
  have hbase : (Value.int (-1)).ReadsAs (-1) := ⟨rfl, rfl⟩
  have hexponent : (Value.int Int64.maxValue).ReadsAs Int64.maxValue := ⟨rfl, rfl⟩
  refine ⟨hbase, hexponent, by decide, ?_, fun h h' n heq => ?_⟩
  · have hodd : Odd Int64.maxValue.toInt.toNat := by decide
    exact hodd.neg_one_pow.symm
  · rw [binary_pow_of_readsAs hbase hexponent, power_of_large_exponent (by decide)] at heq
    cases heq

end Heap
end ScriptEngine
