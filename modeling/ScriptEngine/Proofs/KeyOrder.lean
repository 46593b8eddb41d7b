import Mathlib.Data.String.Basic
import Mathlib.Order.Defs.Unbundled
import ScriptEngine.Value

/-! # The order of keys

A map keeps its keys in order: first by kind, and keys of one kind by size (`MapKey.Before`).  Floats
come in the total order of their bits (`Binary64.Precedes`): the negative ones before the others, `-0`
before `0`, and NaNs at the ends, so every float has its place and no two floats share one.

`MapKey.compare` decides this order (`compare_eq_lt_iff`, `compare_eq_eq_iff`, `compare_eq_gt_iff`).  It
is a strict total order (`isStrictTotalOrder_before`); in particular two keys that are the same for a map
are one and the same key.
-/
namespace ScriptEngine

/-! ## Floats on their line -/

namespace Binary64

/-- **The total order of floats.**  Of two negative ones the one of greater magnitude comes first. -/
def Precedes (x y : Binary64) : Prop :=
  match x.isNegative, y.isNegative with
  | true, true => y.magnitude < x.magnitude
  | true, false => True
  | false, true => False
  | false, false => x.magnitude < y.magnitude

theorem line_lt_iff (x y : Binary64) : x.line < y.line ↔ x.Precedes y := by
  unfold line Precedes
  cases x.isNegative <;> cases y.isNegative <;>
    simp only [Bool.false_eq_true, if_true, if_false, iff_true, iff_false] <;> omega

/-- The sign and the magnitude are all there is to a float. -/
theorem bits_eq (x : Binary64) :
    x.bits.toNat = x.magnitude + if x.isNegative then signBit else 0 := by
  have hbits := x.bits.toNat_lt
  unfold magnitude isNegative signBit
  by_cases hneg : 0x8000000000000000 ≤ x.bits.toNat
  · simp only [hneg, decide_true, if_true]
    omega
  · simp only [hneg, decide_false, Bool.false_eq_true, if_false]
    omega

/-- **No two floats have the same place on the line.** -/
theorem line_inj {x y : Binary64} : x.line = y.line ↔ x = y := by
  constructor
  · intro h
    have hparts : x.isNegative = y.isNegative ∧ x.magnitude = y.magnitude := by
      unfold line at h
      cases hx : x.isNegative <;> cases hy : y.isNegative <;>
        simp only [hx, hy, Bool.false_eq_true, if_true, if_false] at h <;>
        constructor <;> first | rfl | omega
    have hbits : x.bits.toNat = y.bits.toNat := by
      rw [bits_eq x, bits_eq y, hparts.1, hparts.2]
    cases x
    cases y
    exact congrArg Binary64.mk (UInt64.toNat_inj.mp hbits)
  · rintro rfl
    rfl

end Binary64

/-! ## Keys -/

namespace MapKey

/-- **The order of keys**: nil, then the truth values, the integers, the floats, and text. -/
inductive Before : MapKey → MapKey → Prop where
  | kind {a b : MapKey} (h : a.rank < b.rank) : Before a b
  | bool : Before (.bool false) (.bool true)
  | int {m n : Int64} (h : m.toInt < n.toInt) : Before (.int m) (.int n)
  | float {x y : Binary64} (h : x.Precedes y) : Before (.float x) (.float y)
  | str {s t : String} (h : s < t) : Before (.str s) (.str t)

theorem rank_le_of_before {a b : MapKey} (h : a.Before b) : a.rank ≤ b.rank := by
  cases h with
  | kind h => exact Nat.le_of_lt h
  | bool | int | float | str => exact Nat.le_refl _

theorem not_before_nil : ¬MapKey.nil.Before .nil := by
  intro h
  cases h with
  | kind h => exact absurd h (Nat.lt_irrefl _)

theorem before_int_iff {m n : Int64} : (MapKey.int m).Before (.int n) ↔ m.toInt < n.toInt := by
  constructor
  · intro h
    cases h with
    | kind h => exact absurd h (Nat.lt_irrefl _)
    | int h => exact h
  · exact .int

theorem before_float_iff {x y : Binary64} : (MapKey.float x).Before (.float y) ↔ x.Precedes y := by
  constructor
  · intro h
    cases h with
    | kind h => exact absurd h (Nat.lt_irrefl _)
    | float h => exact h
  · exact .float

theorem before_str_iff {s t : String} : (MapKey.str s).Before (.str t) ↔ s < t := by
  constructor
  · intro h
    cases h with
    | kind h => exact absurd h (Nat.lt_irrefl _)
    | str h => exact h
  · exact .str

theorem before_bool_iff {a b : Bool} : (MapKey.bool a).Before (.bool b) ↔ a < b := by
  constructor
  · intro h
    cases h with
    | kind h => exact absurd h (Nat.lt_irrefl _)
    | bool => decide
  · intro h
    cases a <;> cases b <;> first | exact .bool | exact absurd h (by decide)

/-- Keys of different kinds are ordered by their kinds. -/
theorem before_iff_of_rank_ne {a b : MapKey} (hne : a.rank ≠ b.rank) :
    a.Before b ↔ a.rank < b.rank :=
  ⟨fun h => Nat.lt_of_le_of_ne (rank_le_of_before h) hne, .kind⟩

/-- **Comparison finds out which key comes first.** -/
theorem compare_eq_lt_iff (a b : MapKey) : a.compare b = .lt ↔ a.Before b := by
  by_cases hrank : a.rank = b.rank
  · match a, b, hrank with
    | .nil, .nil, _ => exact iff_of_false nofun not_before_nil
    | .bool _, .bool _, _ => exact compare_lt_iff_lt.trans before_bool_iff.symm
    | .int _, .int _, _ => exact compare_lt_iff_lt.trans before_int_iff.symm
    | .float x, .float y, _ =>
      exact compare_lt_iff_lt.trans ((Binary64.line_lt_iff x y).trans before_float_iff.symm)
    | .str _, .str _, _ => exact compare_lt_iff_lt.trans before_str_iff.symm
  · have hkinds : a.compare b = Ord.compare a.rank b.rank := by
      cases a <;> cases b <;> first | rfl | exact absurd rfl hrank
    rw [hkinds, before_iff_of_rank_ne hrank]
    exact compare_lt_iff_lt

/-- **Keys that are the same for a map are one and the same.** -/
theorem compare_eq_eq_iff (a b : MapKey) : a.compare b = .eq ↔ a = b := by
  constructor
  · intro h
    match a, b, h with
    | .nil, .nil, _ => rfl
    | .bool _, .bool _, h => exact congrArg MapKey.bool (compare_eq_iff_eq.mp h)
    | .int _, .int _, h => exact congrArg MapKey.int (Int64.toInt_inj.mp (compare_eq_iff_eq.mp h))
    | .float _, .float _, h =>
      exact congrArg MapKey.float (Binary64.line_inj.mp (compare_eq_iff_eq.mp h))
    | .str _, .str _, h => exact congrArg MapKey.str (compare_eq_iff_eq.mp h)
  · rintro rfl
    cases a <;> first | rfl | exact compare_eq_iff_eq.mpr rfl

theorem compare_eq_gt_iff (a b : MapKey) : a.compare b = .gt ↔ b.Before a := by
  have hswap : a.compare b = (b.compare a).swap := by
    cases a <;> cases b <;> first | rfl | exact @Std.OrientedCmp.eq_swap _ Ord.compare _ _ _
  rw [← compare_eq_lt_iff b a, hswap, Ordering.swap_eq_gt]

theorem same_iff {a b : MapKey} : a.same b = true ↔ a = b := by
  rw [same, beq_iff_eq, compare_eq_eq_iff]

instance : DecidableEq MapKey := fun a b => decidable_of_iff (a.same b = true) same_iff

theorem Before.trans {a b c : MapKey} (hab : a.Before b) (hbc : b.Before c) : a.Before c := by
  rcases Nat.lt_or_ge a.rank c.rank with hlt | hge
  · exact .kind hlt
  · -- all three are of one kind
    have hab' := rank_le_of_before hab
    have hbc' := rank_le_of_before hbc
    cases hab with
    | kind h => omega
    | bool =>
      cases hbc with
      | kind h => exact absurd h (by omega)
    | int h =>
      cases hbc with
      | kind h => exact absurd h (by omega)
      | int h' => exact .int (Int.lt_trans h h')
    | float h =>
      cases hbc with
      | kind h => exact absurd h (by omega)
      | float h' =>
        rw [← Binary64.line_lt_iff] at h h'
        exact .float ((Binary64.line_lt_iff _ _).mp (Int.lt_trans h h'))
    | str h =>
      cases hbc with
      | kind h => exact absurd h (by omega)
      | str h' => exact .str (lt_trans h h')

theorem before_irrefl (a : MapKey) : ¬a.Before a := by
  intro h
  have hlt := (compare_eq_lt_iff a a).mpr h
  rw [(compare_eq_eq_iff a a).mpr rfl] at hlt
  cases hlt

theorem Before.ne {a b : MapKey} (h : a.Before b) : a ≠ b := by
  rintro rfl
  exact before_irrefl a h

/-- **The order of keys is total.** -/
theorem before_trichotomous (a b : MapKey) : a.Before b ∨ a = b ∨ b.Before a := by
  cases h : a.compare b with
  | lt => exact .inl ((compare_eq_lt_iff a b).mp h)
  | eq => exact .inr (.inl ((compare_eq_eq_iff a b).mp h))
  | gt => exact .inr (.inr ((compare_eq_gt_iff a b).mp h))

instance isStrictTotalOrder_before : IsStrictTotalOrder MapKey Before where
  irrefl := before_irrefl
  trans _ _ _ := Before.trans
  trichotomous a b hab hba :=
    ((before_trichotomous a b).resolve_left hab).resolve_right hba

end MapKey

end ScriptEngine
