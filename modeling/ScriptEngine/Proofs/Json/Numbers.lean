import ScriptEngine.Proofs.Json.Reading
import ScriptEngine.Tree.Decoding

/-! # Numbers in JSON text

Integers are written as their decimal digits and read back exactly.  Of floats this cannot be said in
general, since a numeral is read in one float operation; so the floats for which it holds have a name,
those that **read back** (`Binary64.ReadsBack`).  The numeral of such a float is legible, and names
the float.
-/
namespace ScriptEngine

open Decimal (Numeral isDigits digitChars natOfDigits)

namespace Decimal

/-! ## Digits -/

theorem isDigits_digitChars (n : Nat) : isDigits (digitChars n) = true := by
  have hne : (digitChars n).isEmpty = false := by
    rw [List.isEmpty_eq_false_iff]
    exact Nat.toDigits_ne_nil
  have hall : (digitChars n).all Char.isDigit = true := by
    rw [List.all_eq_true]
    exact fun c hc => Nat.isDigit_of_mem_toDigits (by decide) (by decide) hc
  simp [isDigits, hne, hall]

theorem natOfDigits_digitChars (n : Nat) : natOfDigits (digitChars n) = n := by
  rw [natOfDigits_eq]
  have h := Nat.ofDigitChars_ten_toDigits (n := n)
  rwa [Nat.ofDigitChars_eq_foldl] at h

theorem digitChar_eq_zero : ∀ n < 10, n.digitChar = '0' → n = 0 := by decide

/-- Only zero has a leading zero. -/
theorem head_digitChars (n : Nat) (h : (digitChars n).head? = some '0') : n = 0 := by
  induction n using Nat.strongRecOn with
  | ind n ih =>
    by_cases hn : n < 10
    · rw [digitChars, Nat.toDigits_of_lt_base hn] at h
      exact digitChar_eq_zero n hn (Option.some.inj h)
    · have hrest : digitChars n = digitChars (n / 10) ++ [(n % 10).digitChar] :=
        Nat.toDigits_of_base_le (by decide) (by omega)
      obtain ⟨d, ds, hd⟩ := List.exists_cons_of_ne_nil (Nat.toDigits_ne_nil (n := n / 10) (b := 10))
      have hhead : (digitChars (n / 10)).head? = some '0' := by
        rw [hrest] at h
        simpa [digitChars, hd] using h
      have := ih (n / 10) (by omega) hhead
      omega

namespace Numeral

/-- A whole number, written as its digits. -/
theorem legible_digits (negative : Bool) (n : Nat) :
    Legible ⟨negative, digitChars n, none, none⟩ where
  whole := isDigits_digitChars n
  fraction := by
    rintro ds hds
    cases hds
  exponent := by
    rintro cs hcs
    cases hcs
  noLeadingZero := by
    by_cases hzero : (digitChars n).head? = some '0'
    · obtain rfl := head_digitChars n hzero
      rfl
    · simp [hasLeadingZero, hzero]

theorem toInt?_int (n : Int) : toInt? ⟨n < 0, digitChars n.natAbs, none, none⟩ = some n := by
  simp only [toInt?, isWhole, Option.isNone_none, Bool.and_self, if_true, natOfDigits_digitChars]
  by_cases hn : n < 0
  · have hne : n.natAbs ≠ 0 := by omega
    simp only [hn, decide_true, if_true, hne, if_false]
    congr 1
    omega
  · simp only [hn, decide_false, Bool.false_eq_true, if_false]
    congr 1
    omega

theorem toInt?_nat (n : Nat) : toInt? ⟨false, digitChars n, none, none⟩ = some (n : Int) := by
  simp [toInt?, isWhole, natOfDigits_digitChars]

end Numeral

end Decimal

namespace Decode

theorem word_nat {bits : Nat} (n : Word bits) (levels : Nat) :
    word bits levels (.nat n) = some n := by
  simp [word, Json.nat, Numeral.toNatBelow?, Numeral.toInt?_nat]

theorem int64_int (n : Int64) (levels : Nat) : int64 levels (.int n.toInt) = some n := by
  have hrange : Int64.minValue.toInt ≤ n.toInt ∧ n.toInt ≤ Int64.maxValue.toInt :=
    ⟨n.minValue_le_toInt, n.toInt_le⟩
  simp only [int64, intIn, Json.int, Numeral.toIntIn?, Numeral.toInt?_int, if_pos hrange,
    Option.map_some, Int64.ofInt_toInt]

end Decode

/-! ## Floats -/

/-- **The float reads back**: the text that is written for it is read as the same float. -/
def Binary64.ReadsBack (x : Binary64) : Prop :=
  (Json.parse? (Json.float x).text).bind (Decode.float 0) = some x

namespace Decimal

theorem isDigits_iff {cs : List Char} : isDigits cs = true ↔ cs ≠ [] ∧ ∀ c ∈ cs, c.isDigit = true := by
  simp [isDigits]

theorem digits_digitChars {n : Nat} {c : Char} (h : c ∈ digitChars n) : c.isDigit = true :=
  (isDigits_iff.mp (isDigits_digitChars n)).2 c h

/-- Written positionally, a decimal has digits before the point, and only digits behind it. -/
theorem digits_positional (s : Scientific) :
    isDigits s.positional.1 = true ∧ ∀ c ∈ s.positional.2, c.isDigit = true := by
  unfold Scientific.positional
  split
  · rw [isDigits_iff]
    refine ⟨⟨?_, ?_⟩, ?_⟩
    · simp only [ne_eq, List.append_eq_nil_iff, not_and]
      exact fun h => absurd h Nat.toDigits_ne_nil
    · intro c hc
      rcases List.mem_append.mp hc with hc | hc
      · exact digits_digitChars hc
      · rw [List.eq_of_mem_replicate hc]
        decide
    · rintro c ⟨⟩
  · rename_i hexp
    dsimp only
    generalize hplaces : (-s.exponent).toNat = places
    generalize hpadded : List.replicate (places + 1 - (digitChars s.digits).length) '0' ++
      digitChars s.digits = padded
    have hlength : places + 1 ≤ padded.length := by
      rw [← hpadded, List.length_append, List.length_replicate]
      omega
    have hall : ∀ c ∈ padded, c.isDigit = true := by
      intro c hc
      rw [← hpadded] at hc
      rcases List.mem_append.mp hc with hc | hc
      · rw [List.eq_of_mem_replicate hc]
        decide
      · exact digits_digitChars hc
    rw [isDigits_iff]
    refine ⟨⟨?_, fun c hc => hall c (List.mem_of_mem_take hc)⟩,
      fun c hc => hall c (List.mem_of_mem_drop hc)⟩
    intro hnil
    rw [List.take_eq_nil_iff] at hnil
    rcases hnil with hnil | rfl
    · omega
    · rw [List.length_nil] at hlength
      omega

/-- A part that is left out if it is empty holds digits if it is there. -/
theorem isDigits_of_kept {cs ds : List Char} (h : ∀ c ∈ cs, c.isDigit = true) {other : Option (List Char)}
    (hother : ∀ ds, other = some ds → isDigits ds = true)
    (hds : (if cs.isEmpty then other else some cs) = some ds) : isDigits ds = true := by
  split at hds
  · exact hother ds hds
  · rename_i hne
    obtain rfl := Option.some.inj hds
    rw [isDigits_iff]
    refine ⟨?_, h⟩
    rintro rfl
    exact hne rfl

theorem shaped_exponent (n : Int) : ∃ sign ds, Layout.json.exponentChars n = sign ++ ds ∧
    (sign = [] ∨ sign = ['+'] ∨ sign = ['-']) ∧ isDigits ds = true := by
  refine ⟨_, digitChars n.natAbs, rfl, ?_, isDigits_digitChars _⟩
  by_cases hn : n < 0
  · exact .inr (.inr (if_pos hn))
  · exact .inr (.inl (if_neg hn))

/-- Whatever decimal is written, the parts of its numeral are digits. -/
theorem shaped_numeral (negative : Bool) (s : Scientific) :
    (Layout.json.numeral negative s).Shaped := by
  unfold Layout.numeral
  split
  · obtain ⟨hwhole, hfraction⟩ := digits_positional s
    refine ⟨hwhole, fun ds hds => isDigits_of_kept hfraction ?_ hds, fun cs hcs => by cases hcs⟩
    rintro _ ⟨⟩
    decide
  · have hdrop : ∀ c ∈ (digitChars s.digits).drop 1, c.isDigit = true :=
      fun c hc => digits_digitChars (List.mem_of_mem_drop hc)
    refine ⟨?_, fun ds hds => isDigits_of_kept hdrop (by rintro _ ⟨⟩) hds, fun cs hcs => ?_⟩
    · rw [isDigits_iff]
      refine ⟨?_, fun c hc => digits_digitChars (List.mem_of_mem_take hc)⟩
      intro hnil
      rw [List.take_eq_nil_iff] at hnil
      rcases hnil with hnil | hnil
      · cases hnil
      · exact Nat.toDigits_ne_nil hnil
    · cases hcs
      exact shaped_exponent _

end Decimal

namespace Json

/-- The numeral of a finite float. -/
theorem float_of_isFinite {x : Binary64} (h : x.isFinite = true) :
    ∃ n : Numeral, float x = .num n ∧ n.Shaped := by
  refine ⟨_, ?_, Decimal.shaped_numeral x.isNegative (Decimal.shortest .toEven x.magnitude)⟩
  simp only [float, Decimal.Layout.numeral?, h, if_true]
  rfl

/-- NaN and the infinities have no numeral. -/
theorem float_of_not_isFinite {x : Binary64} (h : x.isFinite = false) : float x = .null := by
  simp [float, Decimal.Layout.numeral?, h]

/-- The numeral of a finite float that reads back is read as it is written, and names the float. -/
theorem numeral_of_readsBack {x : Binary64} (hfinite : x.isFinite = true) (h : x.ReadsBack) :
    ∃ n : Numeral, float x = .num n ∧ n.Legible ∧ n.toFloat? = some x := by
  obtain ⟨n, hn, hshaped⟩ := float_of_isFinite hfinite
  rw [Binary64.ReadsBack, hn, parse?_num hshaped] at h
  by_cases hzero : n.hasLeadingZero = true
  · rw [if_pos hzero] at h
    cases h
  · rw [if_neg hzero] at h
    exact ⟨n, hn, ⟨hshaped, eq_false_of_ne_true hzero⟩, h⟩

/-- What is written for a float is legible, provided that the finite ones read back. -/
theorem legible_float {x : Binary64} (h : x.isFinite = true → x.ReadsBack) :
    (float x).Legible := by
  cases hfinite : x.isFinite with
  | false =>
    rw [float_of_not_isFinite hfinite]
    trivial
  | true =>
    obtain ⟨n, hn, hlegible, -⟩ := numeral_of_readsBack hfinite (h hfinite)
    rw [hn]
    exact hlegible

end Json

/-- A float is read from its numeral, if it has one. -/
theorem Decode.float_float {x : Binary64} (h : x.isFinite = true → x.ReadsBack) (levels : Nat) :
    Decode.float levels (.float x) = if x.isFinite = true then some x else none := by
  cases hfinite : x.isFinite with
  | false =>
    rw [Json.float_of_not_isFinite hfinite]
    rfl
  | true =>
    obtain ⟨n, hn, -, hfloat⟩ := Json.numeral_of_readsBack hfinite (h hfinite)
    rw [hn]
    exact hfloat

end ScriptEngine
