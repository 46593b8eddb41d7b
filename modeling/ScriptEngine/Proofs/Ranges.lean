import ScriptEngine.CoreLibrary
import ScriptEngine.Proofs.Task.Attaining

/-! # Ranges

The numbers of a range are counted by one division, rounded up, and each is worked out from its position
and cut to 64 bits.  The bounds may lie anywhere in 64 bits, so neither the span between them nor the
distance of a number from the start needs to fit; but every number that is counted lies between the
bounds, and nothing of it is cut off (`RangeBounds.lt_count_iff`, `RangeBounds.toInt_item`).

`range_exact` says so of the function that scripts call: while its run goes on, it gives the numbers that
lie before the end, all of them and in order, and it fails only if the step is zero or there are more of
them than the run may have; and then nothing has been built.
-/
namespace ScriptEngine

namespace RangeBounds
variable {b : RangeBounds} {i : Nat}

/-- The number at the position lies before the end, in the direction of the step. -/
def Reaches (b : RangeBounds) (i : Nat) : Prop :=
  if 0 < b.step then b.item i < b.stop else b.stop < b.item i

instance (b : RangeBounds) (i : Nat) : Decidable (b.Reaches i) :=
  inferInstanceAs (Decidable (if 0 < b.step then b.item i < b.stop else b.stop < b.item i))

/-- How often a stride fits into a span, the last time perhaps not to the full. -/
theorem lt_strides_iff {span stride : Int} (hstride : 0 < stride) (i : Nat) :
    i < (if span ≤ 0 then 0 else ((span + stride - 1) / stride).toNat) ↔ i * stride < span := by
  have hdistance : 0 ≤ i * stride := Int.mul_nonneg (Int.natCast_nonneg i) (Int.le_of_lt hstride)
  split
  · exact iff_of_false (Nat.not_lt_zero i) (by omega)
  · rw [Int.lt_toNat, Int.lt_iff_add_one_le, Int.le_ediv_iff_mul_le hstride, Int.add_mul, Int.one_mul]
    omega

/-- **Those numbers are counted that lie before the end.** -/
theorem lt_count_iff (hstep : b.step ≠ 0) : i < b.count ↔ b.Reaches i := by
  have hstride : (0 : Int) < b.step.natAbs := by omega
  refine (lt_strides_iff hstride i).trans ?_
  unfold Reaches item
  split
  · rw [Int.natAbs_of_nonneg (by omega)]
    omega
  · rw [Int.ofNat_natAbs_of_nonpos (by omega), Int.mul_neg]
    omega

/-- **Nothing of a number that is counted is cut off**, wherever in 64 bits the bounds are. -/
theorem toInt_item {start stop step : Int64} (hi : Reaches ⟨start.toInt, stop.toInt, step.toInt⟩ i) :
    (Int64.ofInt (item ⟨start.toInt, stop.toInt, step.toInt⟩ i)).toInt =
      start.toInt + i * step.toInt := by
  have hstart := start.le_toInt
  have hstart' := start.toInt_lt
  have hstop := stop.le_toInt
  have hstop' := stop.toInt_lt
  unfold Reaches item at hi
  unfold item
  simp only at hi ⊢
  split at hi
  · have hdistance : 0 ≤ i * step.toInt := Int.mul_nonneg (Int.natCast_nonneg i) (by omega)
    exact Int64.toInt_ofInt_of_le (by omega) (by omega)
  · have hdistance : i * step.toInt ≤ 0 :=
      Int.mul_nonpos_of_nonneg_of_nonpos (Int.natCast_nonneg i) (by omega)
    exact Int64.toInt_ofInt_of_le (by omega) (by omega)

/-- The arguments that are read as these numbers stand for these bounds. -/
inductive StandFor (start stop step : Int64) : List Int64 → Prop where
  | stop (hstart : start = 0) (hstep : step = 1) : StandFor start stop step [stop]
  | startStop (hstep : step = 1) : StandFor start stop step [start, stop]
  | all : StandFor start stop step [start, stop, step]

theorem ofArguments_of_standFor {start stop step : Int64} {args : List Int64}
    (hargs : StandFor start stop step args) :
    ofArguments (args.map (·.toInt)) =
      if step = 0 then invalid "range argument 3 must not be zero"
      else .ok ⟨start.toInt, stop.toInt, step.toInt⟩ := by
  cases hargs with
  | stop hstart hstep =>
    subst hstart hstep
    rfl
  | startStop hstep =>
    subst hstep
    rfl
  | all =>
    have hzero : step.toInt = 0 ↔ step = 0 := by
      rw [← Int64.toInt_inj, Int64.toInt_zero]
    simp only [List.map_cons, List.map_nil, ofArguments, hzero]

end RangeBounds

/-- **The plain list has these numbers**, and no others: so many, from the start on, with this step. -/
def Heap.HoldsRange (h : Heap) (id : ListId) (start step : Int64) (count : Nat) : Prop :=
  ∃ items, h.lists.get? id = some ⟨items, none, false⟩ ∧ items.size = count ∧
    ∀ i < count, ∃ m : Int64, items[i]? = some (.int m) ∧ m.toInt = start.toInt + i * step.toInt

namespace Builtin
open Eval
variable {run : RunId} {signal : SignalId} {s : EngineState} {args : List Value}
  {start stop step : Int64}

/-- The function reads the bounds, and goes on with the numbers of the range. -/
theorem act_range_apply {bounds : Outcome RangeBounds} (hbounds :
    RangeBounds.ofArguments ((s.heap.packed args).map (·.toInt.toInt)) = bounds) :
    act run args .range s =
      (ofOutcome bounds s).bind (andThen fun b => buildRange run b >>= fun v => pure [v]) := by
  subst hbounds
  show (readHeap (·.packed args) >>= _) s = _
  rw [bind_apply, readHeap_apply, Step.bind_of_done, andThen_ok, bind_apply]

/-- What is built has the numbers of the range, if those are counted that lie before the end. -/
theorem holdsRange_itemsOf (h : Heap) {count : Nat} (hcount : ∀ i, i < count →
    RangeBounds.Reaches ⟨start.toInt, stop.toInt, step.toInt⟩ i) :
    (h.addPlainList (itemsOf (fun i => .int (Int64.ofInt
      (RangeBounds.item ⟨start.toInt, stop.toInt, step.toInt⟩ i))) count)).2.HoldsRange
      h.lists.next start step count := by
  refine ⟨_, Store.get?_push_next _ _, by simp [itemsOf], fun i hi => ?_⟩
  exact ⟨_, by simp [itemsOf, hi], RangeBounds.toInt_item (hcount i hi)⟩

/-- **The numbers that are counted are built into a new list**, if there are no more of them than the run
may have. -/
theorem attains_buildRange (hs : s.GoesOn run signal) {count : Nat}
    (hcount : ∀ i, i < count ↔ RangeBounds.Reaches ⟨start.toInt, stop.toInt, step.toInt⟩ i)
    (hlength : RangeBounds.count ⟨start.toInt, stop.toInt, step.toInt⟩ = count)
    (hfits : ¬ (0 < (s.run run).maxElements ∧ (s.run run).maxElements < count)) :
    (buildRange run ⟨start.toInt, stop.toInt, step.toInt⟩ s).Attains (EngineState.GoesOn run signal)
      fun r t => ∃ id, r = .ok (.list id) ∧ t.heap.HoldsRange id start step count := by
  subst hlength
  rw [buildRange, bind_apply]
  refine (gives_build _ hs hfits).bind ?_
  rintro _ t ⟨⟨_, rfl, rfl⟩, -⟩
  exact .done ⟨_, rfl, holdsRange_itemsOf t.heap fun i => (hcount i).mp⟩

end Builtin

/-- **A range is exact, wherever in 64 bits its bounds are.**  While its run goes on, it gives a new list
of just the numbers that lie before the end in the direction of the step, in order; unless the step is
zero or the run may not have so many elements, and then it fails at once and nothing is built. -/
theorem range_exact {run : RunId} {signal : SignalId} {s : EngineState} (hs : s.GoesOn run signal)
    {args : List Value} {start stop step : Int64}
    (hargs : RangeBounds.StandFor start stop step ((s.heap.packed args).map (·.toInt))) :
    (step = 0 → Builtin.act run args .range s =
      .done s (.error { fault := .invalidOperation "range argument 3 must not be zero" })) ∧
    (step ≠ 0 → ∃ count : Nat,
      (∀ i : Nat, i < count ↔ RangeBounds.Reaches ⟨start.toInt, stop.toInt, step.toInt⟩ i) ∧
      (0 < (s.run run).maxElements ∧ (s.run run).maxElements < count →
        Builtin.act run args .range s = .done (s.refuse (.length run)) (.error {
          fault := .invalidOperation ("result of " ++ toString count ++
            " elements exceeds the limit of " ++ toString (s.run run).maxElements) })) ∧
      (¬ (0 < (s.run run).maxElements ∧ (s.run run).maxElements < count) →
        (Builtin.act run args .range s).Attains (EngineState.GoesOn run signal) fun r t =>
          ∃ id, r = .ok [.list id] ∧ t.heap.HoldsRange id start step count)) := by
  have hbounds := RangeBounds.ofArguments_of_standFor hargs
  rw [List.map_map] at hbounds
  refine ⟨fun hstep => ?_, fun hstep => ?_⟩
  · rw [if_pos hstep] at hbounds
    rw [Builtin.act_range_apply hbounds]
    rfl
  · rw [if_neg hstep] at hbounds
    rw [Builtin.act_range_apply hbounds]
    have hnonzero : step.toInt ≠ 0 := fun hzero => hstep (Int64.toInt_inj.mp hzero)
    have hcount (i : Nat) := RangeBounds.lt_count_iff (i := i)
      (b := ⟨start.toInt, stop.toInt, step.toInt⟩) hnonzero
    refine ⟨_, hcount, fun hlong => ?_, fun hfits => ?_⟩
    · show ((Builtin.buildRange run _ >>= fun v => pure [v]) : Eval (List Value)) s = _
      rw [Eval.bind_apply, Builtin.buildRange, Eval.bind_apply, Eval.build_of_tooLong hlong]
      rfl
    · refine (Builtin.attains_buildRange hs hcount rfl hfits).bind ?_
      rintro _ t ⟨id, rfl, hid⟩
      exact .done ⟨id, rfl, hid⟩

/-- A run that may have five elements, and the arguments of a range from the least number to the greatest
with a step of a quarter of the span. -/
def acrossAll : EngineState where
  heap.lists := ({} : Store ListCell).push
    ⟨#[.int Int64.minValue, .int Int64.maxValue, .int 0x4000000000000000], none, false⟩
  signals := ({} : Store Signal).push {}
  runs := ({} : Store Run).push ⟨0, ⟨0, 0, 0, 0⟩, 5, 0⟩

/-- The span does not fit into 64 bits, and the last number is not the end. -/
theorem range_exact_acrossAll :
    acrossAll.GoesOn 0 0 ∧
    RangeBounds.StandFor Int64.minValue Int64.maxValue 0x4000000000000000
      ((acrossAll.heap.packed [.list 0]).map (·.toInt)) ∧
    (Builtin.act 0 [.list 0] .range acrossAll).Attains (EngineState.GoesOn 0 0) fun r t =>
      ∃ id, r = .ok [.list id] ∧
        t.heap.HoldsRange id Int64.minValue 0x4000000000000000 4 := by
  have hs : acrossAll.GoesOn 0 0 := ⟨⟨_, rfl, rfl⟩, by decide⟩
  have hargs : RangeBounds.StandFor Int64.minValue Int64.maxValue 0x4000000000000000
      ((acrossAll.heap.packed [.list 0]).map (·.toInt)) := .all
  refine ⟨hs, hargs, ?_⟩
  obtain ⟨count, hcount, -, hbuilt⟩ := (range_exact hs hargs).2 (by decide)
  obtain rfl : count = 4 := by
    have hlast := (hcount 3).mpr (by decide)
    have hend : ¬ 4 < count := (hcount 4).not.mpr (by decide)
    omega
  exact hbuilt (by decide)

end ScriptEngine
