import ScriptEngine.Proofs.Heap.Comparing

/-! # Equality of scripts

Scripts compare numbers, text and truth values with conversion.  The conversion does not mind which
value stands on which side, so a comparison from the other side takes the same steps, with every pair
that is under comparison turned around (`equalBy_swap`).  And it takes for equal whatever is equal
without conversion, so all that is found equal without conversion is found equal by scripts
(`equalBy_of_leaf`).
-/

/-! ## Equality without conversion

Two values are equal without conversion exactly if no path leads to a difference, that is if they have
the same unfolding.  So equality does not depend on how containers are shared and where they lead back
to themselves, and it is an equivalence of the values that no NaN can be got at from.
-/
namespace ScriptEngine
namespace Heap

variable {h : Heap} {v w : Value} {fuel : Nat}

theorem keepsKinds_sameLeaf : KeepsKinds sameLeaf := fun _ _ => ⟨rfl, rfl⟩

/-- A comparison ends, and more levels do not change its answer. -/
theorem equalBy_identical (h : Heap) (v w : Value) (hfuel : h.equalityLevels ≤ fuel) :
    h.equalBy? sameLeaf fuel [] v w = some (h.identical v w) :=
  equalBy_of_levels h sameLeaf v w hfuel

theorem identical_iff (hv : h.NaNFree v) :
    h.identical v w = true ↔ ∀ path, ¬ h.DifferAt sameLeaf v w path :=
  equalBy_iff keepsKinds_sameLeaf hv.selfSame (equalBy_identical h v w (Nat.le_refl _))

theorem identical_iff_unfolding (hv : h.NaNFree v) (hw : h.NaNFree w) :
    h.identical v w = true ↔ h.unfolding v = h.unfolding w :=
  (identical_iff hv).trans (unfolding_eq_iff hw.selfSame).symm

/-- A value that no NaN can be got at from is equal to all that have its unfolding. -/
theorem identical_of_unfolding (hv : h.NaNFree v) (he : h.unfolding v = h.unfolding w) :
    h.identical v w = true :=
  (identical_iff hv).mpr fun path hd => (unfolding_eq_iff hv.selfSame).mp he.symm path hd.symm

/-- **Equality without conversion decides equality of unfoldings.**  Comparing two values always ends.
For values that no NaN can be got at from it tells whether there is no path to different leaves, kinds,
lengths or keys, that is whether the unfoldings are equal; among those values it is an equivalence. -/
theorem identical_decides_unfoldings (h : Heap) :
    (∀ v w fuel, h.equalityLevels ≤ fuel →
      h.equalBy? sameLeaf fuel [] v w = some (h.identical v w)) ∧
    (∀ v w, h.NaNFree v → h.NaNFree w →
      (h.identical v w = true ↔ ∀ path, ¬ h.DifferAt sameLeaf v w path) ∧
      (h.identical v w = true ↔ h.unfolding v = h.unfolding w)) ∧
    Equivalence fun v w : { v // h.NaNFree v } => h.identical v w = true := by
  refine ⟨fun v w fuel hfuel => equalBy_identical h v w hfuel, fun v w hv hw =>
    ⟨identical_iff hv, identical_iff_unfolding hv hw⟩, ?_, ?_, ?_⟩
  · intro v
    exact (identical_iff_unfolding v.2 v.2).mpr rfl
  · intro v w hs
    exact (identical_iff_unfolding w.2 v.2).mpr ((identical_iff_unfolding v.2 w.2).mp hs).symm
  · intro v w x hs hs'
    refine (identical_iff_unfolding v.2 x.2).mpr ?_
    exact ((identical_iff_unfolding v.2 w.2).mp hs).trans ((identical_iff_unfolding w.2 x.2).mp hs')

/-- A ring of two lists, a list that contains itself, and a ring with another number in it. -/
def rings : Heap where
  lists := (((Store.push {} ⟨#[.int 1, .list 1], none, false⟩).push
    ⟨#[.int 1, .list 0], none, false⟩).push ⟨#[.int 1, .list 2], none, false⟩).push
    ⟨#[.int 1, .map 0], none, false⟩
  maps := Store.push {} ⟨[(.int 0, .list 3)], none, none⟩

/-- What can be got at in the rings are the containers themselves and one number. -/
theorem rings_nanFree {v : Value} (hv : v ∈ [Value.int 1, .list 0, .list 1, .list 2, .list 3, .map 0]) :
    rings.NaNFree v := by
  refine nanFree_of_closed (by decide) (fun v hv => ?_) hv
  simp only [List.mem_cons, List.not_mem_nil, or_false] at hv
  obtain rfl | rfl | rfl | rfl | rfl | rfl := hv
  case inr.inr.inr.inr.inr =>
    rintro ⟨x, hx, -⟩
    obtain ⟨e, he, hkey⟩ := List.mem_map.mp hx
    obtain rfl := List.mem_singleton.mp he
    cases hkey
  all_goals exact id

/-- The ring of two lists has the unfolding of the list that contains itself, and not that of the third
one, where a map stands in the place of a list. -/
theorem identical_decides_rings :
    rings.identical (.list 0) (.list 2) = true ∧
      rings.unfolding (.list 0) = rings.unfolding (.list 2) ∧
      rings.identical (.list 0) (.list 3) = false ∧
      ∃ path, rings.DifferAt sameLeaf (.list 0) (.list 3) path := by
  obtain ⟨-, hdecides, -⟩ := identical_decides_unfoldings rings
  have htwo : rings.identical (.list 0) (.list 2) = true := by decide +kernel
  have hthree : rings.identical (.list 0) (.list 3) = false := by decide +kernel
  have hzero : rings.NaNFree (.list 0) := rings_nanFree (by decide)
  refine ⟨htwo, (hdecides _ _ hzero (rings_nanFree (by decide))).2.mp htwo, hthree, ?_⟩
  by_contra hnone
  have hsame := (hdecides _ _ hzero (rings_nanFree (by decide))).1.mpr fun path hd => hnone ⟨path, hd⟩
  rw [hthree] at hsame
  cases hsame

end Heap
end ScriptEngine

namespace ScriptEngine

theorem Binary64.sameNumber_comm (x y : Binary64) : x.sameNumber y = y.sameNumber x :=
  Bool.eq_iff_iff.mpr ⟨sameNumber_symm, sameNumber_symm⟩

theorem Number.same_comm (a b : Number) : a.same b = b.same a := by
  cases a <;> cases b
  case int.int => exact BEq.comm
  all_goals exact Binary64.sameNumber_comm _ _

namespace Heap

variable {h : Heap} {leaf leaf' : Value → Value → Bool} {v w : Value} {fuel : Nat} {visited : List Pair}

/-! ## Leaves -/

theorem sameLeaf_comm (v w : Value) : sameLeaf v w = sameLeaf w v :=
  Bool.eq_iff_iff.mpr ⟨sameLeaf_symm, sameLeaf_symm⟩

/-- Conversion does not mind the sides. -/
theorem looselySameLeaf_comm (h : Heap) (v w : Value) :
    h.looselySameLeaf v w = h.looselySameLeaf w v := by
  have hstrict : sameLeaf v w = sameLeaf w v := sameLeaf_comm v w
  cases v <;> cases w
  -- a truth value or a text is compared with what it is converted to, whichever side it is on
  case bool.str | str.bool | bool.int | int.bool | bool.float | float.bool => rfl
  case str.int | int.str | str.float | float.str => rfl
  case int.int m n => exact Number.same_comm (.int m) (.int n)
  case int.float m x => exact Number.same_comm (.int m) (.float x)
  case float.int x n => exact Number.same_comm (.float x) (.int n)
  case float.float x y => exact Number.same_comm (.float x) (.float y)
  all_goals exact hstrict

/-- What is equal without conversion is equal with it. -/
theorem looselySameLeaf_of_sameLeaf (hs : sameLeaf v w = true) : h.looselySameLeaf v w = true := by
  unfold sameLeaf at hs
  split at hs
  case h_9 => cases hs
  all_goals exact hs

theorem keepsKinds_looselySameLeaf (h : Heap) : KeepsKinds h.looselySameLeaf :=
  fun _ _ => ⟨rfl, rfl⟩

theorem Agree.of_leaf (hleaf : ∀ v w, leaf v w = true → leaf' v w = true) (ha : h.Agree leaf v w) :
    h.Agree leaf' v w := by
  cases v with
  | list a =>
    cases w with
    | list b => exact ha
    | _ => exact hleaf _ _ ha
  | map a =>
    cases w with
    | map b => exact ha
    | _ => exact hleaf _ _ ha
  | _ => cases w <;> exact hleaf _ _ ha

/-- Whatever can be got at from a value without NaNs is equal to itself for scripts. -/
theorem NaNFree.looselySelfSame (hv : h.NaNFree v) : h.SelfSame h.looselySameLeaf v :=
  fun path x hx => (hv.selfSame path x hx).of_leaf fun _ _ => looselySameLeaf_of_sameLeaf

/-! ## More equal leaves -/

/-- A comparison that takes more leaves for equal finds at least as much equal. -/
theorem equalBy_of_leaf (hleaf : ∀ v w, leaf v w = true → leaf' v w = true)
    (hr : h.equalBy? leaf fuel visited v w = some true) :
    h.equalBy? leaf' fuel visited v w = some true := by
  induction fuel generalizing visited v w with
  | zero => cases hr
  | succ fuel ih =>
    unfold equalBy? at hr ⊢
    split at hr
    · simp only at hr ⊢
      split
      · rfl
      · rw [if_neg ‹_›] at hr
        split
        · rw [if_pos ‹_›] at hr
          exact allM_eq_some_true.mpr fun row hrow => ih (allM_eq_some_true.mp hr row hrow)
        · rwa [if_neg ‹_›] at hr
    · simp only at hr ⊢
      split
      · rfl
      · rw [if_neg ‹_›] at hr
        split
        · rw [if_pos ‹_›] at hr
          refine allM_eq_some_true.mpr fun row hrow => ?_
          have hrow := allM_eq_some_true.mp hr row hrow
          split
          · rw [if_pos ‹_›] at hrow
            exact ih hrow
          · rwa [if_neg ‹_›] at hrow
        · rwa [if_neg ‹_›] at hr
    · exact congrArg some (hleaf _ _ (Option.some.inj hr))

/-! ## The other side -/

theorem allM_map {α β : Type} {f : β → Option Bool} {g : α → β} (l : List α) :
    (l.map g).allM f = l.allM fun a => f (g a) := by
  induction l with
  | nil => rfl
  | cons a l ih => rw [List.map_cons, allM_cons, allM_cons, ih]

/-- The pair from the other side. -/
def Pair.swap : Pair → Pair
  | .lists a b => .lists b a
  | .maps a b => .maps b a

theorem Pair.swap_injective : Function.Injective Pair.swap := by
  intro p q hpq
  cases p <;> cases q <;> cases hpq <;> rfl

theorem contains_swap (visited : List Pair) (p : Pair) :
    (visited.map Pair.swap).contains p.swap = visited.contains p := by
  rw [Bool.eq_iff_iff, List.contains_iff_mem, List.contains_iff_mem,
    List.mem_map_of_injective Pair.swap_injective]

theorem listRows_swap (h : Heap) (a b : ListId) : h.listRows b a = (h.listRows a b).map Prod.swap :=
  (List.zip_swap _ _).symm

theorem mapRows_swap (h : Heap) (a b : MapId) : h.mapRows b a = (h.mapRows a b).map Prod.swap :=
  (List.zip_swap _ _).symm

/-- **A comparison from the other side has the same answer.**  What is under comparison is turned around
with the values, so both comparisons meet a pair again at the same places. -/
theorem equalBy_swap (hleaf : ∀ v w, leaf v w = leaf w v) (fuel : Nat) (visited : List Pair)
    (v w : Value) :
    h.equalBy? leaf fuel (visited.map Pair.swap) w v = h.equalBy? leaf fuel visited v w := by
  induction fuel generalizing visited v w with
  | zero => rfl
  | succ fuel ih =>
    cases v with
    | list a =>
      cases w with
      | list b =>
        have hseen := contains_swap visited (.lists a b)
        have hrow := ih (.lists a b :: visited)
        simp only [List.map_cons, Pair.swap] at hseen hrow
        simp only [equalBy?, BEq.comm (a := b), BEq.comm (a := (h.list b).items.size), hseen,
          listRows_swap h a b, allM_map]
        split
        · rfl
        split
        · exact congrArg (List.allM · _) (funext fun row => hrow row.1 row.2)
        · rfl
      | _ => exact congrArg some (hleaf _ _)
    | map a =>
      cases w with
      | map b =>
        have hseen := contains_swap visited (.maps a b)
        have hrow := ih (.maps a b :: visited)
        simp only [List.map_cons, Pair.swap] at hseen hrow
        simp only [equalBy?, BEq.comm (a := b), BEq.comm (a := (h.map b).entries.length), hseen,
          mapRows_swap h a b, allM_map]
        split
        · rfl
        split
        · refine congrArg (List.allM · _) (funext fun row => ?_)
          simp only [Prod.swap, sameLeaf_comm row.2.1.toValue, hrow]
        · rfl
      | _ => exact congrArg some (hleaf _ _)
    | _ => cases w <;> exact congrArg some (hleaf _ _)

/-! ## Equality of scripts -/

/-- A comparison ends, and more levels do not change its answer. -/
theorem equalBy_equal (h : Heap) (v w : Value) (hfuel : h.equalityLevels ≤ fuel) :
    h.equalBy? h.looselySameLeaf fuel [] v w = some (h.equal v w) :=
  equalBy_of_levels h h.looselySameLeaf v w hfuel

theorem equal_comm (h : Heap) (v w : Value) : h.equal v w = h.equal w v := by
  rw [equal, equal, ← equalBy_swap (looselySameLeaf_comm h), List.map_nil]

theorem equal_of_identical (hs : h.identical v w = true) : h.equal v w = true := by
  have hstrict := equalBy_identical h v w (Nat.le_refl _)
  rw [hs] at hstrict
  have hloose : h.equalBy? h.looselySameLeaf h.equalityLevels [] v w = some true :=
    equalBy_of_leaf (fun _ _ => looselySameLeaf_of_sameLeaf) hstrict
  rw [equalBy_equal h v w (Nat.le_refl _)] at hloose
  exact Option.some.inj hloose

/-- **Equality of scripts is symmetric and extends equality without conversion.**  Comparing two values
always ends.  Which of them stands first does not matter, and what is equal without conversion is equal,
so every value that no NaN can be got at from is equal to itself; such a value is equal to those only to
which no path leads to a difference that conversion leaves. -/
theorem equality_extends_identity (h : Heap) :
    (∀ v w fuel, h.equalityLevels ≤ fuel →
      h.equalBy? h.looselySameLeaf fuel [] v w = some (h.equal v w)) ∧
    (∀ v w, h.equal v w = h.equal w v) ∧
    (∀ v w, h.identical v w = true → h.equal v w = true) ∧
    (∀ v, h.NaNFree v → h.equal v v = true) ∧
    (∀ v w, h.NaNFree v →
      (h.equal v w = true ↔ ∀ path, ¬ h.DifferAt h.looselySameLeaf v w path)) := by
  refine ⟨fun v w fuel hfuel => equalBy_equal h v w hfuel, equal_comm h,
    fun v w => equal_of_identical, fun v hv => ?_, fun v w hv => ?_⟩
  · exact equal_of_identical (identical_of_unfolding hv rfl)
  · exact equalBy_iff (keepsKinds_looselySameLeaf h) hv.looselySelfSame
      (equalBy_equal h v w (Nat.le_refl _))

/-- A list that contains itself, a ring of two lists with a text and a truth value for its number, a list
with another number that contains itself, and a list of what is in the first one. -/
def mixedRings : Heap where
  lists := ((((Store.push {} ⟨#[.int 1, .list 0], none, false⟩).push
    ⟨#[.str "1", .list 2], none, false⟩).push ⟨#[.bool true, .list 1], none, false⟩).push
    ⟨#[.int 2, .list 3], none, false⟩).push ⟨#[.int 1, .list 0], none, false⟩

theorem mixedRings_nanFree : mixedRings.NaNFree (.list 0) := by
  refine nanFree_of_closed (l := [.int 1, .list 0]) (by decide) (fun v hv => ?_) (by decide)
  simp only [List.mem_cons, List.not_mem_nil, or_false] at hv
  obtain rfl | rfl := hv <;> exact id

/-- The ring is equal to the first list from both sides, though not without conversion; the last list is
even without.  The first list is equal to itself, and differs from the one with another number. -/
theorem equality_extends_identity_mixedRings :
    mixedRings.equal (.list 0) (.list 1) = true ∧ mixedRings.equal (.list 1) (.list 0) = true ∧
      mixedRings.identical (.list 1) (.list 0) = false ∧ mixedRings.equal (.list 4) (.list 0) = true ∧
      mixedRings.equal (.list 0) (.list 0) = true ∧
      mixedRings.equalBy? mixedRings.looselySameLeaf 100 [] (.list 0) (.list 3) = some false ∧
      ∃ path, mixedRings.DifferAt mixedRings.looselySameLeaf (.list 0) (.list 3) path := by
  obtain ⟨hends, hsymm, hextends, hself, hdecides⟩ := equality_extends_identity mixedRings
  have hone : mixedRings.equal (.list 1) (.list 0) = true := by decide +kernel
  have hthree : mixedRings.equal (.list 0) (.list 3) = false := by decide +kernel
  refine ⟨(hsymm _ _).trans hone, hone, by decide +kernel, hextends _ _ (by decide +kernel),
    hself _ mixedRings_nanFree, ?_, ?_⟩
  · rw [hends _ _ 100 (by decide), hthree]
  · by_contra hnone
    have hsame := (hdecides _ _ mixedRings_nanFree).mpr fun path hd => hnone ⟨path, hd⟩
    rw [hthree] at hsame
    cases hsame

end Heap
end ScriptEngine
