import Mathlib.Data.List.Induction
import Mathlib.Data.List.TakeWhile
import Mathlib.Data.Nat.Digits.Defs
import Mathlib.Tactic.FinCases
import ScriptEngine.Proofs.HostCalls
import ScriptEngine.Proofs.Json.Numbers
import ScriptEngine.Proofs.Powers

/-! # Integers as text

A number that is read from text is an integer if it is written as one and fits 64 bits, and a float
otherwise.  What it means to be written as an integer is a relation of its own here: a text **spells** an
integer if it consists of an optional sign and of decimal digits with its absolute value, each digit
counting by its place (`Decimal.Spells`).  Reading decides this relation (`Decimal.readInteger?_eq_some_iff`),
and the text that is written for an integer stands in it (`Decimal.spells_toString`), the least integer
included, whose absolute value is no integer of 64 bits.
-/
namespace ScriptEngine

open Text (isBlank trimBlanks)

namespace Text
variable {pre cs post : List Char}

theorem dropWhile_isBlank (hpre : ∀ c ∈ pre, isBlank c = true)
    (hhead : ∀ c ∈ cs.head?, isBlank c = false) : (pre ++ cs).dropWhile isBlank = cs := by
  rw [List.dropWhile_append_of_pos hpre]
  cases cs with
  | nil => rfl
  | cons c cs => rw [List.dropWhile_cons_of_neg (by simp [hhead c rfl])]

/-- Trimming removes exactly the blanks around a text that neither starts nor ends with one. -/
theorem trimBlanks_padded (hpre : ∀ c ∈ pre, isBlank c = true) (hpost : ∀ c ∈ post, isBlank c = true)
    (hne : cs ≠ []) (hhead : ∀ c ∈ cs.head?, isBlank c = false)
    (hlast : ∀ c ∈ cs.getLast?, isBlank c = false) : trimBlanks (pre ++ cs ++ post) = cs := by
  have hfront : (pre ++ (cs ++ post)).dropWhile isBlank = cs ++ post := by
    refine dropWhile_isBlank hpre fun c hc => hhead c ?_
    rwa [List.head?_append_of_ne_nil _ hne] at hc
  have hback : (post.reverse ++ cs.reverse).dropWhile isBlank = cs.reverse := by
    refine dropWhile_isBlank (fun c hc => hpost c (List.mem_reverse.mp hc)) fun c hc => hlast c ?_
    rwa [List.head?_reverse] at hc
  rw [trimBlanks, List.append_assoc, hfront, List.reverse_append, hback, List.reverse_reverse]

end Text

namespace Decimal
variable {cs ds : List Char} {v w : Int} {c : Char}

/-! ## Texts that spell integers -/

/-- The value of decimal digits, the last of which stands for ones. -/
def placeValue (ds : List Char) : Nat := Nat.ofDigits 10 (ds.reverse.map digitValue)

/-- **The text spells the integer**: it is an optional sign and one or more decimal digits, and the
integer is their value. -/
inductive Spells : List Char → Int → Prop
  | unsigned {ds : List Char} (hdigits : isDigits ds = true) : Spells ds (placeValue ds)
  | plus {ds : List Char} (hdigits : isDigits ds = true) : Spells ('+' :: ds) (placeValue ds)
  | minus {ds : List Char} (hdigits : isDigits ds = true) : Spells ('-' :: ds) (-placeValue ds)

theorem natOfDigits_eq_placeValue (ds : List Char) : natOfDigits ds = placeValue ds := by
  rw [natOfDigits_eq]
  induction ds using List.reverseRecOn with
  | nil => rfl
  | append_singleton ds d ih =>
    have hlast : appendDigits 0 (ds ++ [d]) = 10 * appendDigits 0 ds + digitValue d := by
      simp [appendDigits]
    have hplace : placeValue (ds ++ [d]) = digitValue d + 10 * placeValue ds := by
      simp [placeValue, Nat.ofDigits_cons]
    rw [hlast, hplace, ih, Nat.add_comm]

theorem not_isBlank_of_isDigit (h : c.isDigit = true) : isBlank c = false := by
  have hrange : 48 ≤ c.toNat ∧ c.toNat ≤ 57 := by simpa [Char.isDigit, UInt32.le_iff_toNat_le] using h
  simp only [isBlank, Bool.or_eq_false_iff, Bool.and_eq_false_iff, decide_eq_false_iff_not,
    beq_eq_false_iff_ne]
  omega

/-- Digits have no sign in front. -/
theorem splitSign_of_isDigits (h : isDigits ds = true) : splitSign ds = (false, ds) := by
  obtain ⟨-, hall⟩ := isDigits_iff.mp h
  unfold splitSign
  split
  · exact absurd (hall '-' List.mem_cons_self) (by decide)
  · exact absurd (hall '+' List.mem_cons_self) (by decide)
  · rfl

theorem splitSign_cases (cs : List Char) :
    (∃ ds, cs = '-' :: ds ∧ splitSign cs = (true, ds)) ∨
      (∃ ds, cs = '+' :: ds ∧ splitSign cs = (false, ds)) ∨ splitSign cs = (false, cs) := by
  unfold splitSign
  split
  · exact .inl ⟨_, rfl, rfl⟩
  · exact .inr (.inl ⟨_, rfl, rfl⟩)
  · exact .inr (.inr rfl)

/-- **Reading integers decides what spells them.** -/
theorem readInteger?_eq_some_iff : readInteger? cs = some v ↔ Spells cs v := by
  constructor
  · intro hread
    rcases splitSign_cases cs with ⟨ds, rfl, hsplit⟩ | ⟨ds, rfl, hsplit⟩ | hsplit <;>
      rw [readInteger?, hsplit] at hread <;>
      obtain ⟨hdigits, hvalue⟩ := Option.ite_none_right_eq_some.mp hread <;>
      rw [natOfDigits_eq_placeValue] at hvalue <;> obtain rfl := Option.some.inj hvalue
    · exact .minus hdigits
    · exact .plus hdigits
    · exact .unsigned hdigits
  · intro hspells
    cases hspells with
    | unsigned hdigits =>
      simp [readInteger?, splitSign_of_isDigits hdigits, hdigits, natOfDigits_eq_placeValue]
    | plus hdigits => simp [readInteger?, splitSign, hdigits, natOfDigits_eq_placeValue]
    | minus hdigits => simp [readInteger?, splitSign, hdigits, natOfDigits_eq_placeValue]

theorem readInt64?_eq_some_iff {n : Int64} : readInt64? cs = some n ↔ Spells cs n.toInt := by
  rw [← readInteger?_eq_some_iff, readInt64?]
  split
  · rename_i v hread
    split
    · rename_i hrange
      obtain ⟨hleast, hgreatest⟩ := Heap.inInt64_iff.mp hrange
      rw [Heap.ofInt_eq_iff hleast hgreatest, hread, Option.some_inj, eq_comm]
    · rename_i hrange
      refine iff_of_false nofun fun heq => hrange (Heap.inInt64_iff.mpr ?_)
      obtain rfl := Option.some.inj (hread.symm.trans heq)
      exact ⟨n.le_toInt, n.toInt_lt⟩
  · rename_i hread
    rw [hread]
    exact iff_of_false nofun nofun

/-! ## Their shape -/

theorem Spells.ne_nil (h : Spells cs v) : cs ≠ [] := by
  cases h with
  | unsigned hdigits => exact (isDigits_iff.mp hdigits).1
  | plus hdigits => exact List.cons_ne_nil _ _
  | minus hdigits => exact List.cons_ne_nil _ _

/-- Signs and digits are no blanks. -/
theorem Spells.not_isBlank (h : Spells cs v) (hc : c ∈ cs) : isBlank c = false := by
  have hds {ds : List Char} (hdigits : isDigits ds = true) (hc : c ∈ ds) : isBlank c = false :=
    not_isBlank_of_isDigit ((isDigits_iff.mp hdigits).2 c hc)
  cases h with
  | unsigned hdigits => exact hds hdigits hc
  | plus hdigits =>
    rcases List.mem_cons.mp hc with rfl | hc
    · decide
    · exact hds hdigits hc
  | minus hdigits =>
    rcases List.mem_cons.mp hc with rfl | hc
    · decide
    · exact hds hdigits hc

theorem Spells.trimBlanks_padded {pre post : List Char} (h : Spells cs v)
    (hpre : ∀ c ∈ pre, isBlank c = true) (hpost : ∀ c ∈ post, isBlank c = true) :
    trimBlanks (pre ++ cs ++ post) = cs :=
  Text.trimBlanks_padded hpre hpost h.ne_nil (fun _ hc => h.not_isBlank (List.mem_of_head? hc))
    fun _ hc => h.not_isBlank (List.mem_of_getLast? hc)

/-- Digits alone are a numeral without fraction and exponent. -/
theorem readNumeral?_of_isDigits (h : isDigits ds = true) (negative : Bool) :
    readNumeral? negative ds = some (nearest negative (placeValue ds) 0) := by
  obtain ⟨hne, hall⟩ := isDigits_iff.mp h
  have htake : ds.takeWhile Char.isDigit = ds := List.takeWhile_eq_self_iff.mpr hall
  have hdrop : ds.dropWhile Char.isDigit = [] := List.dropWhile_eq_nil_iff.mpr hall
  simp [readNumeral?, htake, hdrop, hne, readExponent?, natOfDigits_eq_placeValue]

/-- A text that spells an integer other than zero reads as the float nearest to it. -/
theorem Spells.readFloat? (h : Spells cs v) (hv : v ≠ 0) :
    readFloat? cs = some (nearest (v < 0) v.natAbs 0) := by
  cases h with
  | unsigned hdigits =>
    have hpositive : ¬(placeValue cs : Int) < 0 := by omega
    simp only [Decimal.readFloat?, splitSign_of_isDigits hdigits, readNumeral?_of_isDigits hdigits,
      Option.some_or, hpositive, decide_false, Int.natAbs_natCast]
  | @plus ds hdigits =>
    have hpositive : ¬(placeValue ds : Int) < 0 := by omega
    simp only [Decimal.readFloat?, splitSign, readNumeral?_of_isDigits hdigits, Option.some_or,
      hpositive, decide_false, Int.natAbs_natCast]
  | @minus ds hdigits =>
    have hnegative : -(placeValue ds : Int) < 0 := by omega
    simp only [Decimal.readFloat?, splitSign, readNumeral?_of_isDigits hdigits, Option.some_or,
      hnegative, decide_true, Int.natAbs_neg, Int.natAbs_natCast]

/-! ## The text that is written -/

theorem placeValue_digitChars (n : Nat) : placeValue (digitChars n) = n := by
  rw [← natOfDigits_eq_placeValue, natOfDigits_digitChars]

theorem spells_toString (v : Int) : Spells (toString v).toList v := by
  cases v with
  | ofNat n =>
    have htext : (toString (Int.ofNat n)).toList = digitChars n := String.toList_ofList
    have h := Spells.unsigned (isDigits_digitChars n)
    rwa [placeValue_digitChars, ← htext] at h
  | negSucc n =>
    have htext : (toString (Int.negSucc n)).toList = '-' :: digitChars (n + 1) := by
      change ("-" ++ String.ofList (digitChars (n + 1))).toList = _
      simp
    have h := Spells.minus (isDigits_digitChars (n + 1))
    rwa [placeValue_digitChars, ← htext] at h

end Decimal

open Decimal (Spells)

/-! ## Numbers from text -/

theorem parseNumber?_eq_int_iff {s : String} {n : Int64} :
    parseNumber? s = some (.int n) ↔ Spells (trimBlanks s.toList) n.toInt := by
  rw [← Decimal.readInt64?_eq_some_iff, parseNumber?]
  split
  · rename_i m hread
    rw [hread]
    simp
  · rename_i hread
    rw [hread]
    simp

/-- What is spelled, but does not fit, is read as a float. -/
theorem parseNumber?_of_large {s : String} {v : Int} (h : Spells (trimBlanks s.toList) v)
    (hlarge : ¬(-2 ^ 63 ≤ v ∧ v < 2 ^ 63)) :
    parseNumber? s = some (.float (Decimal.nearest (v < 0) v.natAbs 0)) := by
  have hnone : Decimal.readInt64? (trimBlanks s.toList) = none := by
    rw [Decimal.readInt64?, Decimal.readInteger?_eq_some_iff.mpr h]
    exact if_neg fun hrange => hlarge (Heap.inInt64_iff.mp hrange)
  have hv : v ≠ 0 := by omega
  rw [parseNumber?, hnone]
  simp [h.readFloat? hv]

/-- The text of an integer is read as the integer, whatever blanks are around it. -/
theorem parseNumber?_text (h : Heap) (n : Int64) {pre post : List Char}
    (hpre : ∀ c ∈ pre, isBlank c = true) (hpost : ∀ c ∈ post, isBlank c = true) :
    parseNumber? (String.ofList pre ++ h.text (.int n) ++ String.ofList post) = some (.int n) := by
  have htext : Spells (h.text (.int n)).toList n.toInt := Decimal.spells_toString n.toInt
  rw [parseNumber?_eq_int_iff, String.toList_append, String.toList_append, String.toList_ofList,
    String.toList_ofList, htext.trimBlanks_padded hpre hpost]
  exact htext

/-! ## The functions of the core library -/

/-- `g(f(v))` -/
def Evaluator.callInTurn (ev : Evaluator) (f g : HostFunction) (v : Value) : Eval Value := do
  let w ← ev.callHost f [v] false
  ev.callHost g [w] false

theorem callHost_toString {f : HostFunction} (hf : f ∈ Builtin.functions) (hname : f.name = "toString")
    (ev : Evaluator) (n : Int64) (s : EngineState) :
    ev.callHost f [.int n] false s = .done s (.ok (.str (s.heap.text (.int n)))) := by
  obtain rfl : f = .fixed "toString" [.any] [.string] (.core .toString) := by
    fin_cases hf <;> first | rfl | exact absurd hname (by decide)
  rfl

theorem callHost_toInt {f : HostFunction} (hf : f ∈ Builtin.functions) (hname : f.name = "toInt")
    (ev : Evaluator) (text : String) (s : EngineState) :
    ev.callHost f [.str text] false s = .done s (.ok (.int (Value.str text).toInt)) := by
  obtain rfl : f = .fixed "toInt" [.any] [.int .int64] (.core .toInt) := by
    fin_cases hf <;> first | rfl | exact absurd hname (by decide)
  rfl

/-- **Integers survive text.**  The text of an integer of 64 bits, between any blanks, is read as this
integer, and `toInt(toString(n))` is `n`, in every state, which it leaves as it is.  Nothing else is read as
an integer: a text is read as `n` exactly if it spells `n` when trimmed.  A text that spells an integer which
does not fit 64 bits is read as the float nearest to it. -/
theorem integers_survive_text :
    (∀ (h : Heap) (n : Int64) (pre post : List Char), (∀ c ∈ pre, isBlank c = true) →
      (∀ c ∈ post, isBlank c = true) →
      parseNumber? (String.ofList pre ++ h.text (.int n) ++ String.ofList post) = some (.int n) ∧
      (Value.str (String.ofList pre ++ h.text (.int n) ++ String.ofList post)).toInt = n) ∧
    (∀ f ∈ Builtin.functions, f.name = "toString" → ∀ g ∈ Builtin.functions, g.name = "toInt" →
      ∀ (ev : Evaluator) (n : Int64) (s : EngineState),
      ev.callInTurn f g (.int n) s = .done s (.ok (.int n))) ∧
    (∀ (s : String) (n : Int64),
      parseNumber? s = some (.int n) ↔ Spells (trimBlanks s.toList) n.toInt) ∧
    (∀ (s : String) (v : Int), Spells (trimBlanks s.toList) v → ¬(-2 ^ 63 ≤ v ∧ v < 2 ^ 63) →
      parseNumber? s = some (.float (Decimal.nearest (v < 0) v.natAbs 0))) := by
  refine ⟨fun h n pre post hpre hpost => ?_, fun f hf hfname g hg hgname ev n s => ?_,
    fun s n => parseNumber?_eq_int_iff, fun s v => parseNumber?_of_large⟩
  · have hparse := parseNumber?_text h n hpre hpost
    exact ⟨hparse, by rw [Value.toInt, Value.toNumber, hparse]; rfl⟩
  · have hparse : parseNumber? (s.heap.text (.int n)) = some (.int n) := by
      simpa using @parseNumber?_text s.heap n [] [] (by simp) (by simp)
    rw [Evaluator.callInTurn, Eval.bind_apply, callHost_toString hf hfname, Step.bind_of_done, Eval.andThen_ok,
      callHost_toInt hg hgname, Value.toInt, Value.toNumber, hparse]
    rfl

/-- The least integer is read back from between blanks, and from a script's own text.  A plus sign and leading
zeros are read; a second sign is not.  The first number that does not fit is a float, 2 ^ 63. -/
theorem integers_survive_text_bounds :
    parseNumber? (String.ofList ['\t', ' '] ++ ({} : Heap).text (.int Int64.minValue) ++
      String.ofList ['\u3000']) = some (.int Int64.minValue) ∧
    (∀ ev : Evaluator, ev.callInTurn (.fixed "toString" [.any] [.string] (.core .toString))
        (.fixed "toInt" [.any] [.int .int64] (.core .toInt)) (.int Int64.minValue) {} =
      .done {} (.ok (.int Int64.minValue))) ∧
    parseNumber? " +007\n" = some (.int 7) ∧
    parseNumber? "9223372036854775808" = some (.float ⟨0x43e0000000000000⟩) := by
  obtain ⟨htext, hcalls, hreads, hlarge⟩ := integers_survive_text
  refine ⟨(htext {} _ _ _ (List.all_eq_true.mp (by decide)) (List.all_eq_true.mp (by decide))).1,
    fun ev => hcalls _ (by simp [Builtin.functions]) rfl _ (by simp [Builtin.functions]) rfl ev _ _,
    (hreads _ _).mpr (Decimal.readInteger?_eq_some_iff.mp (by decide)), ?_⟩
  exact hlarge "9223372036854775808" (2 ^ 63) (Decimal.readInteger?_eq_some_iff.mp (by decide)) (by decide)

end ScriptEngine
