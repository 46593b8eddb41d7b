import ScriptEngine.Proofs.Heap.Growth

/-! # Positions inside a value

From a list one may step down to an item, and from a struct to a field; a sequence of such steps is
a position inside the value at which it begins (`Heap.partAt?`).  What stands at a position changes only if
an object on the way to it is written to.

Objects are numbered in the order in which they are made, so what was made within a stretch of time is
told by its number (`Heap.MadeBetween`).  A value that was made within a stretch shares its objects
among its positions in some way (`Heap.Sharing`), and a container of such values shares what they do.
-/
namespace ScriptEngine

/-- One step down from a value. -/
inductive Part where
  | item (i : Nat)
  | field (i : Nat)
deriving DecidableEq

/-- The step, whichever item it leads to. -/
def Part.blur : Part → Part
  | .item _ => .item 0
  | .field i => .field i

/-- The positions agree up to the numbers of items. -/
def SameButItems (p q : List Part) : Prop := p.map Part.blur = q.map Part.blur

/-- The positions agree up to the numbers of items below the first step. -/
def SameButInnerItems (p q : List Part) : Prop := p.head? = q.head? ∧ SameButItems p q

/-- Positions in different values are never the same. -/
def Apart (same : List Part → List Part → Prop) (i : Nat) (p : List Part) (j : Nat)
    (q : List Part) : Prop :=
  i = j ∧ same p q

theorem SameButItems.cons_item (i : Nat) (p : List Part) (j : Nat) (q : List Part) :
    SameButItems (.item i :: p) (.item j :: q) ↔ SameButItems p q := by
  simp [SameButItems, Part.blur]

theorem SameButItems.cons_field (i : Nat) (p : List Part) (j : Nat) (q : List Part) :
    SameButItems (.field i :: p) (.field j :: q) ↔ Apart SameButItems i p j q := by
  simp [SameButItems, Apart, Part.blur]

theorem SameButInnerItems.cons_item (i : Nat) (p : List Part) (j : Nat) (q : List Part) :
    SameButInnerItems (.item i :: p) (.item j :: q) ↔ Apart SameButItems i p j q := by
  simp [SameButInnerItems, SameButItems, Apart, Part.blur]

/-- The value is a list, a map or something of the host. -/
def Value.isContainer : Value → Bool
  | .list _ | .map _ | .handle _ => true
  | _ => false

/-- What a write writes to. -/
def Write.target : Write → Value
  | .item id _ _ => .list id
  | .entry id _ _ => .map id
  | .field id _ _ => .handle id

namespace Heap
variable {h h₁ h₂ h' : Heap} {v w x y : Value} {p q : List Part} {step : Part}

/-- The value one step down. -/
def part? (h : Heap) : Value → Part → Option Value
  | .list id, .item i => (h.list id).items[i]?
  | .handle id, .field i =>
    match h.handle id with
    | .struct c => c.values[i]?
    | .token _ => none
  | _, _ => none

/-- The value at a position. -/
def partAt? (h : Heap) : Value → List Part → Option Value
  | v, [] => some v
  | v, step :: path => (h.part? v step).bind fun w => h.partAt? w path

theorem partAt?_cons_eq_some : h.partAt? v (step :: p) = some x ↔
    ∃ w, h.part? v step = some w ∧ h.partAt? w p = some x :=
  Option.bind_eq_some_iff

/-- There is nothing below a value that is no container. -/
theorem part?_of_not_isContainer (hv : v.isContainer = false) : h.part? v step = none := by
  cases v with
  | list | map | handle => cases hv
  | _ => rfl

/-! ## Writes -/

theorem list_perform_of_ne {write : Write} {id : ListId} (hv : .list id ≠ write.target) :
    (h.perform write).list id = h.list id := by
  cases write with
  | item other i a =>
    have hne : id ≠ other := fun he => hv (he ▸ rfl)
    unfold list perform modifyList
    simp only [Store.get?_modify_of_ne hne]
  | entry | field => rfl

theorem handle_perform_of_ne {write : Write} {id : HandleId} (hv : .handle id ≠ write.target) :
    (h.perform write).handle id = h.handle id := by
  cases write with
  | field other i a =>
    have hne : id ≠ other := fun he => hv (he ▸ rfl)
    unfold handle perform modifyHandle
    simp only [Store.get?_modify_of_ne hne]
  | item | entry => rfl

theorem part?_perform_of_ne {write : Write} (hv : v ≠ write.target) :
    (h.perform write).part? v step = h.part? v step := by
  cases v with
  | list id => cases step <;> simp only [part?, list_perform_of_ne hv]
  | handle id => cases step <;> simp only [part?, handle_perform_of_ne hv]
  | _ => rfl

/-- **A write shows only behind the object that is written to.** -/
theorem partAt?_perform {write : Write} :
    ∀ {q : List Part} {v : Value},
      (∀ q' y, q' <+: q → q' ≠ q → h.partAt? v q' = some y → y ≠ write.target) →
      (h.perform write).partAt? v q = h.partAt? v q
  | [], _, _ => rfl
  | step :: q, v, hq => by
    have hv : v ≠ write.target := hq [] v List.nil_prefix (List.cons_ne_nil _ _).symm rfl
    unfold partAt?
    rw [part?_perform_of_ne hv]
    refine Option.bind_congr fun w hw => partAt?_perform fun q' y hprefix hne hy => ?_
    refine hq (step :: q') y ((List.prefix_cons_inj step).mpr hprefix)
      (fun he => hne (List.cons.inj he).2) ?_
    exact partAt?_cons_eq_some.mpr ⟨w, hw, hy⟩

/-! ## Growth -/

/-- The object was made after the first of two moments and before the second. -/
def MadeBetween (h h' : Heap) : Value → Prop
  | .list id => h.lists.next ≤ id ∧ id < h'.lists.next
  | .map id => h.maps.next ≤ id ∧ id < h'.maps.next
  | .handle id => h.handles.next ≤ id ∧ id < h'.handles.next
  | _ => True

/-- No numbers are given out a second time. -/
structure Precedes (h h' : Heap) : Prop where
  lists : h.lists.next ≤ h'.lists.next
  maps : h.maps.next ≤ h'.maps.next
  handles : h.handles.next ≤ h'.handles.next

theorem Precedes.refl (h : Heap) : h.Precedes h := ⟨Nat.le_refl _, Nat.le_refl _, Nat.le_refl _⟩

theorem Precedes.trans (hp : h.Precedes h₁) (hp' : h₁.Precedes h') : h.Precedes h' :=
  ⟨Nat.le_trans hp.lists hp'.lists, Nat.le_trans hp.maps hp'.maps,
    Nat.le_trans hp.handles hp'.handles⟩

theorem Grows.precedes (hg : h.Grows h') : h.Precedes h' :=
  ⟨hg.lists.next_le, hg.maps.next_le, hg.handles.next_le⟩

theorem MadeBetween.widen (hx : h₁.MadeBetween h₂ x) (hp : h.Precedes h₁) (hp' : h₂.Precedes h') :
    h.MadeBetween h' x := by
  cases x with
  | list => exact ⟨Nat.le_trans hp.lists hx.1, Nat.lt_of_lt_of_le hx.2 hp'.lists⟩
  | map => exact ⟨Nat.le_trans hp.maps hx.1, Nat.lt_of_lt_of_le hx.2 hp'.maps⟩
  | handle => exact ⟨Nat.le_trans hp.handles hx.1, Nat.lt_of_lt_of_le hx.2 hp'.handles⟩
  | _ => trivial

/-- What was made earlier is not what was made later. -/
theorem MadeBetween.ne (hx : h.MadeBetween h₁ x) (hy : h₂.MadeBetween h' y) (hp : h₁.Precedes h₂)
    (hc : x.isContainer = true) : x ≠ y := by
  rintro rfl
  cases x with
  | list => exact Nat.not_le_of_lt hx.2 (Nat.le_trans hp.lists hy.1)
  | map => exact Nat.not_le_of_lt hx.2 (Nat.le_trans hp.maps hy.1)
  | handle => exact Nat.not_le_of_lt hx.2 (Nat.le_trans hp.handles hy.1)
  | _ => cases hc

theorem part?_of_grows (hg : h.Grows h') (hv : h₁.MadeBetween h v) :
    h'.part? v step = h.part? v step := by
  cases v with
  | list id =>
    have hsame : h'.list id = h.list id := by
      unfold list
      rw [hg.lists.get?_eq id hv.2]
    cases step <;> simp only [part?, hsame]
  | handle id =>
    have hsame : h'.handle id = h.handle id := by
      unfold handle
      rw [hg.handles.get?_eq id hv.2]
    cases step <;> simp only [part?, hsame]
  | _ => rfl

/-- What stands at the positions of something that is there already stays there. -/
theorem partAt?_of_grows (hg : h.Grows h') : ∀ {p : List Part} {v : Value},
    (∀ p x, h.partAt? v p = some x → h₁.MadeBetween h x) → h'.partAt? v p = h.partAt? v p
  | [], _, _ => rfl
  | step :: p, v, hv => by
    unfold partAt?
    rw [part?_of_grows hg (hv [] v rfl)]
    refine Option.bind_congr fun w hw => partAt?_of_grows hg fun p' x hx => ?_
    exact hv (step :: p') x (partAt?_cons_eq_some.mpr ⟨w, hw, hx⟩)

/-! ## Sharing -/

/-- **The value was made between two moments, and two of its positions hold the same container exactly
if they are the `same`.** -/
structure Sharing (h h' : Heap) (v : Value) (same : List Part → List Part → Prop) : Prop where
  fresh : ∀ p x, h'.partAt? v p = some x → h.MadeBetween h' x
  shared : ∀ p q x y, h'.partAt? v p = some x → h'.partAt? v q = some y → x.isContainer = true →
    (x = y ↔ same p q)

/-- The same of several values: positions are told by the number of the value, too. -/
structure SharingAll (h h' : Heap) (vs : List Value)
    (same : Nat → List Part → Nat → List Part → Prop) : Prop where
  fresh : ∀ (i : Nat) v p x, vs[i]? = some v → h'.partAt? v p = some x → h.MadeBetween h' x
  shared : ∀ (i j : Nat) v w p q x y, vs[i]? = some v → vs[j]? = some w → h'.partAt? v p = some x →
    h'.partAt? w q = some y → x.isContainer = true → (x = y ↔ same i p j q)

/-- A value without parts. -/
theorem Sharing.scalar {same : List Part → List Part → Prop} (hv : v.isContainer = false) :
    Sharing h h' v same where
  fresh p x hx := by
    cases p with
    | nil =>
      cases hx
      cases v with
      | list | map | handle => cases hv
      | _ => trivial
    | cons step p =>
      obtain ⟨w, hw, -⟩ := partAt?_cons_eq_some.mp hx
      rw [part?_of_not_isContainer hv] at hw
      cases hw
  shared p q x y hx hy hc := by
    cases p with
    | nil =>
      cases hx
      rw [hv] at hc
      cases hc
    | cons step p =>
      obtain ⟨w, hw, -⟩ := partAt?_cons_eq_some.mp hx
      rw [part?_of_not_isContainer hv] at hw
      cases hw

theorem SharingAll.nil {same : Nat → List Part → Nat → List Part → Prop} :
    SharingAll h h' [] same where
  fresh _ _ _ _ hv := by rw [List.getElem?_nil] at hv; cases hv
  shared _ _ _ _ _ _ _ _ hv := by rw [List.getElem?_nil] at hv; cases hv

theorem Sharing.singleton {same : List Part → List Part → Prop} (hv : Sharing h h' v same) :
    SharingAll h h' [v] (Apart same) where
  fresh i w p x hw hx := by
    obtain rfl := List.mem_singleton.mp (List.mem_of_getElem? hw)
    exact hv.fresh p x hx
  shared i j w w' p q x y hw hw' hx hy hc := by
    obtain ⟨hi, rfl⟩ := List.getElem?_eq_some_iff.mp hw
    obtain ⟨hj, rfl⟩ := List.getElem?_eq_some_iff.mp hw'
    obtain rfl := Nat.lt_one_iff.mp hi
    obtain rfl := Nat.lt_one_iff.mp hj
    exact (hv.shared p q x y hx hy hc).trans (and_iff_right rfl).symm

/-- Copies of one value share everything. -/
theorem Sharing.replicate {same : List Part → List Part → Prop} (hv : Sharing h h' v same)
    (n : Nat) : SharingAll h h' (List.replicate n v) fun _ p _ q => same p q where
  fresh i w p x hw hx := by
    obtain rfl := List.eq_of_mem_replicate (List.mem_of_getElem? hw)
    exact hv.fresh p x hx
  shared i j w w' p q x y hw hw' hx hy hc := by
    obtain rfl := List.eq_of_mem_replicate (List.mem_of_getElem? hw)
    obtain rfl := List.eq_of_mem_replicate (List.mem_of_getElem? hw')
    exact hv.shared p q x y hx hy hc

/-- Values that were made one after the other share nothing. -/
theorem SharingAll.append {same : List Part → List Part → Prop} {vs ws : List Value}
    (hvs : SharingAll h h₁ vs (Apart same)) (hws : SharingAll h₂ h' ws (Apart same))
    (hp : h.Precedes h₁) (hp' : h₁.Precedes h₂) (hp'' : h₂.Precedes h')
    (hkept : ∀ v ∈ vs, ∀ p, h'.partAt? v p = h₁.partAt? v p) :
    SharingAll h h' (vs ++ ws) (Apart same) := by
  have hold {i : Nat} {v : Value} {p : List Part} {x : Value} (hv : vs[i]? = some v)
      (hx : h'.partAt? v p = some x) : h₁.partAt? v p = some x :=
    (hkept v (List.mem_of_getElem? hv) p).symm.trans hx
  constructor
  · intro i v p x hv hx
    obtain hi | hi := Nat.lt_or_ge i vs.length
    · rw [List.getElem?_append_left hi] at hv
      exact (hvs.fresh i v p x hv (hold hv hx)).widen (.refl h) (hp'.trans hp'')
    · rw [List.getElem?_append_right hi] at hv
      exact (hws.fresh _ v p x hv hx).widen (hp.trans hp') (.refl h')
  · intro i j v w p q x y hv hw hx hy hc
    obtain hi | hi := Nat.lt_or_ge i vs.length <;> obtain hj | hj := Nat.lt_or_ge j vs.length
    · rw [List.getElem?_append_left hi] at hv
      rw [List.getElem?_append_left hj] at hw
      exact hvs.shared i j v w p q x y hv hw (hold hv hx) (hold hw hy) hc
    · rw [List.getElem?_append_left hi] at hv
      rw [List.getElem?_append_right hj] at hw
      have hne := (hvs.fresh i v p x hv (hold hv hx)).ne (hws.fresh _ w q y hw hy) hp' hc
      exact ⟨fun he => absurd he hne, fun he => by have := he.1; omega⟩
    · rw [List.getElem?_append_right hi] at hv
      rw [List.getElem?_append_left hj] at hw
      refine ⟨fun he => ?_, fun he => by have := he.1; omega⟩
      subst he
      exact absurd rfl ((hvs.fresh j w q x hw (hold hw hy)).ne (hws.fresh _ v p x hv hx) hp' hc)
    · rw [List.getElem?_append_right hi] at hv
      rw [List.getElem?_append_right hj] at hw
      refine (hws.shared _ _ v w p q x y hv hw hx hy hc).trans (and_congr_left fun _ => ?_)
      omega

/-- **A container that was made after all of its parts** shares what they share. -/
theorem SharingAll.node {same : Nat → List Part → Nat → List Part → Prop}
    {same' : List Part → List Part → Prop} {vs : List Value} {down : Nat → Part}
    (hvs : SharingAll h h₁ vs same) (hp : h.Precedes h₁) (hp' : h₁.Precedes h')
    (hv : h₁.MadeBetween h' v)
    (hparts : ∀ step w, h'.part? v step = some w → ∃ i, step = down i ∧ vs[i]? = some w)
    (hkept : ∀ w ∈ vs, ∀ p, h'.partAt? w p = h₁.partAt? w p)
    (hnil : same' [] []) (hleft : ∀ i p, ¬same' (down i :: p) [])
    (hright : ∀ i p, ¬same' [] (down i :: p))
    (hcons : ∀ i p j q, same' (down i :: p) (down j :: q) ↔ same i p j q) :
    Sharing h h' v same' := by
  have hbelow {step : Part} {p : List Part} {x : Value} (hx : h'.partAt? v (step :: p) = some x) :
      ∃ i w, step = down i ∧ vs[i]? = some w ∧ h₁.partAt? w p = some x := by
    obtain ⟨w, hw, hwx⟩ := partAt?_cons_eq_some.mp hx
    obtain ⟨i, rfl, hi⟩ := hparts step w hw
    exact ⟨i, w, rfl, hi, (hkept w (List.mem_of_getElem? hi) p).symm.trans hwx⟩
  constructor
  · intro p x hx
    cases p with
    | nil =>
      cases hx
      exact hv.widen hp (.refl h')
    | cons step p =>
      obtain ⟨i, w, -, hi, hwx⟩ := hbelow hx
      exact (hvs.fresh i w p x hi hwx).widen (.refl h) hp'
  · intro p q x y hx hy hc
    cases p with
    | nil =>
      cases hx
      cases q with
      | nil =>
        cases hy
        exact iff_of_true rfl hnil
      | cons step q =>
        obtain ⟨j, w, rfl, hj, hwy⟩ := hbelow hy
        refine iff_of_false (fun he => ?_) (hright j q)
        subst he
        exact (hvs.fresh j w q _ hj hwy).ne hv (.refl h₁) hc rfl
    | cons step p =>
      obtain ⟨i, w, rfl, hi, hwx⟩ := hbelow hx
      cases q with
      | nil =>
        cases hy
        refine iff_of_false (fun he => ?_) (hleft i p)
        exact (hvs.fresh i w p x hi hwx).ne hv (.refl h₁) hc he
      | cons step' q =>
        obtain ⟨j, w', rfl, hj, hwy⟩ := hbelow hy
        exact (hvs.shared i j w w' p q x y hi hj hwx hwy hc).trans (hcons i p j q).symm

end Heap

end ScriptEngine
