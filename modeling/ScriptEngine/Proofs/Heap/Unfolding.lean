import Mathlib.Data.List.Forall2
import ScriptEngine.Heap.Equality
import ScriptEngine.Proofs.SameNumber

/-! # Unfoldings of values

A list or a map may contain itself, so a value stands for a tree that may be infinite: its
**unfolding** (`Heap.unfolding`).  A node of the tree is a **path**, the positions of items and entries
on the way (`Heap.at?`), and carries what is seen there at a glance: a list shows its length, a map its
keys, and a leaf shows which values are equal to it.

Two values **differ** at a path (`Heap.DifferAt`) if it leads to different leaves, kinds, lengths or keys.
If they differ nowhere they have the same unfolding.
-/
namespace ScriptEngine.Heap

/-! ## Paths -/

/-- The values that stand in a list, or behind the keys of a map. -/
def children (h : Heap) : Value → List Value
  | .list id => (h.list id).items.toList
  | .map id => (h.map id).entries.map (·.2)
  | _ => []

/-- What a path leads to. -/
def at? (h : Heap) : List Nat → Value → Option Value
  | [], v => some v
  | i :: path, v => ((h.children v)[i]?).bind (h.at? path)

variable {h : Heap} {v w x y : Value} {path : List Nat} {i : Nat}

@[simp] theorem at?_nil : h.at? [] v = some v := rfl

theorem at?_cons : h.at? (i :: path) v = ((h.children v)[i]?).bind (h.at? path) := rfl

theorem at?_cons_eq_some :
    h.at? (i :: path) v = some w ↔ ∃ x, (h.children v)[i]? = some x ∧ h.at? path x = some w :=
  Option.bind_eq_some_iff

/-- What holds of a value, and of the children of whatever it holds of, holds of all that paths lead
to. -/
theorem at?_induction {P : Value → Prop} (hstep : ∀ v, P v → ∀ x ∈ h.children v, P x) (hv : P v)
    (hw : h.at? path v = some w) : P w := by
  induction path generalizing v with
  | nil => exact Option.some.inj hw ▸ hv
  | cons i path ih =>
    obtain ⟨x, hx, hw⟩ := at?_cons_eq_some.mp hw
    exact ih (hstep v hv x (List.mem_of_getElem? hx)) hw

/-! ## Differences -/

/-- The two values agree at a glance: they are equal leaves, lists of one length, or maps with equal
keys.  Leaves are compared by `leaf`, and keys without conversion. -/
def Agree (h : Heap) (leaf : Value → Value → Bool) : Value → Value → Prop
  | .list a, .list b => (h.list a).items.size = (h.list b).items.size
  | .map a, .map b => List.Forall₂ (fun j k => sameLeaf j k = true) (h.map a).keys (h.map b).keys
  | a, b => leaf a b = true

/-- The path leads to values that do not agree at a glance. -/
def DifferAt (h : Heap) (leaf : Value → Value → Bool) (v w : Value) (path : List Nat) : Prop :=
  ∃ x y, h.at? path v = some x ∧ h.at? path w = some y ∧ ¬ h.Agree leaf x y

/-- Whatever can be got at from the value agrees with itself. -/
def SelfSame (h : Heap) (leaf : Value → Value → Bool) (v : Value) : Prop :=
  ∀ path x, h.at? path v = some x → h.Agree leaf x x

variable {leaf : Value → Value → Bool}

theorem differAt_nil : h.DifferAt leaf v w [] ↔ ¬ h.Agree leaf v w := by
  constructor
  · rintro ⟨_, _, hx, hy, hne⟩
    cases hx
    cases hy
    exact hne
  · exact fun hne => ⟨v, w, rfl, rfl, hne⟩

theorem differAt_cons : h.DifferAt leaf v w (i :: path) ↔
    ∃ x y, (h.children v)[i]? = some x ∧ (h.children w)[i]? = some y ∧
      h.DifferAt leaf x y path := by
  constructor
  · rintro ⟨x', y', hx', hy', hne⟩
    obtain ⟨x, hx, hx'⟩ := at?_cons_eq_some.mp hx'
    obtain ⟨y, hy, hy'⟩ := at?_cons_eq_some.mp hy'
    exact ⟨x, y, hx, hy, x', y', hx', hy', hne⟩
  · rintro ⟨x, y, hx, hy, x', y', hx', hy', hne⟩
    exact ⟨x', y', at?_cons_eq_some.mpr ⟨x, hx, hx'⟩, at?_cons_eq_some.mpr ⟨y, hy, hy'⟩, hne⟩

theorem SelfSame.agree (hv : h.SelfSame leaf v) : h.Agree leaf v v := hv [] v rfl

theorem SelfSame.child (hv : h.SelfSame leaf v) (hx : (h.children v)[i]? = some x) :
    h.SelfSame leaf x :=
  fun path w hw => hv (i :: path) w (at?_cons_eq_some.mpr ⟨x, hx, hw⟩)

/-- What agrees with itself throughout differs from itself nowhere. -/
theorem SelfSame.not_differAt (hv : h.SelfSame leaf v) : ¬ h.DifferAt leaf v v path := by
  rintro ⟨x, y, hx, hy, hne⟩
  obtain rfl := Option.some.inj (hx.symm.trans hy)
  exact hne (hv path x hx)

/-! ## Leaves -/

/-- Two equal leaves are both nothing to look into, and either is equal to what the other one is. -/
theorem sameLeaf_symm (hs : sameLeaf v w = true) : sameLeaf w v = true := by
  unfold sameLeaf at hs
  split at hs
  · rfl
  case h_4 x y => exact Binary64.sameNumber_symm hs
  case h_9 => cases hs
  all_goals exact beq_iff_eq.mpr (beq_iff_eq.mp hs).symm

theorem sameLeaf_trans (hs : sameLeaf v w = true) (hs' : sameLeaf w x = true) :
    sameLeaf v x = true := by
  unfold sameLeaf at hs
  split at hs
  · exact hs'
  case h_4 y z =>
    cases x with
    | float x => exact Binary64.sameNumber_trans hs hs'
    | _ => cases hs'
  case h_9 => cases hs
  all_goals
    obtain rfl := beq_iff_eq.mp hs
    exact hs'

/-- A leaf is equal to itself unless it is a NaN. -/
theorem sameLeaf_self (hlist : ∀ id, v ≠ .list id) (hmap : ∀ id, v ≠ .map id)
    (hnan : ∀ x, v = .float x → x.isNaN = false) : sameLeaf v v = true := by
  cases v with
  | list id => exact absurd rfl (hlist id)
  | map id => exact absurd rfl (hmap id)
  | float x => exact Binary64.sameNumber_self.mpr (hnan x rfl)
  | nil => rfl
  | bool _ | int _ | str _ | func _ | chan _ | handle _ => exact beq_self_eq_true _

/-- Leaves have no children. -/
theorem children_of_sameLeaf (hs : sameLeaf v w = true) : h.children v = [] ∧ h.children w = [] := by
  unfold sameLeaf at hs
  split at hs
  case h_9 => cases hs
  all_goals exact ⟨rfl, rfl⟩

theorem Agree.symm (ha : h.Agree sameLeaf v w) : h.Agree sameLeaf w v := by
  unfold Agree at ha
  split at ha
  · exact ha.symm
  · exact (ha.imp fun _ _ => sameLeaf_symm).flip
  · rename_i hlists hmaps
    have hs := sameLeaf_symm ha
    unfold Agree
    split
    · exact absurd rfl (hlists _ _ rfl)
    · exact absurd rfl (hmaps _ _ rfl)
    · exact hs

theorem DifferAt.symm (hd : h.DifferAt sameLeaf v w path) : h.DifferAt sameLeaf w v path := by
  obtain ⟨x, y, hx, hy, hne⟩ := hd
  exact ⟨y, x, hy, hx, fun ha => hne ha.symm⟩

/-- Values that agree have equally many children. -/
theorem Agree.length_children (ha : h.Agree sameLeaf v w) :
    (h.children v).length = (h.children w).length := by
  unfold Agree at ha
  split at ha
  · simpa [children] using ha
  · simpa [children, MapCell.keys] using ha.length_eq
  · obtain ⟨hv, hw⟩ := children_of_sameLeaf (h := h) ha
    rw [hv, hw]

/-! ## Unfoldings -/

/-- What is seen of a value at a glance.  A leaf shows which values are equal to it. -/
inductive Sight where
  | leaf (equals : Value → Bool)
  | list (length : Nat)
  | map (keys : List (Value → Bool))

def sight (h : Heap) : Value → Sight
  | .list id => .list (h.list id).items.size
  | .map id => .map ((h.map id).keys.map sameLeaf)
  | v => .leaf (sameLeaf v)

/-- **The unfolding of a value**: what is seen at the end of each path. -/
def unfolding (h : Heap) (v : Value) (path : List Nat) : Option Sight := (h.at? path v).map h.sight

theorem sight_of_sameLeaf (hs : sameLeaf v w = true) : h.sight v = .leaf (sameLeaf v) := by
  unfold sameLeaf at hs
  split at hs
  case h_9 => cases hs
  all_goals rfl

/-- Equal leaves are equal to the same values. -/
theorem sameLeaf_eq (hs : sameLeaf v w = true) : sameLeaf v = sameLeaf w := by
  funext u
  rw [Bool.eq_iff_iff]
  exact ⟨fun hu => sameLeaf_trans (sameLeaf_symm hs) hu, fun hu => sameLeaf_trans hs hu⟩

theorem Agree.sight_eq (ha : h.Agree sameLeaf v w) : h.sight v = h.sight w := by
  unfold Agree at ha
  split at ha
  · exact congrArg Sight.list ha
  · refine congrArg Sight.map ?_
    exact List.forall₂_eq_eq_eq ▸ List.forall₂_map_left_iff.mpr
      (List.forall₂_map_right_iff.mpr (ha.imp fun _ _ => sameLeaf_eq))
  · rw [sight_of_sameLeaf ha, sight_of_sameLeaf (sameLeaf_symm ha), sameLeaf_eq ha]

/-- Values that look the same agree, unless what they show is not equal to itself. -/
theorem agree_of_sight_eq (hw : h.Agree sameLeaf w w) (hs : h.sight v = h.sight w) :
    h.Agree sameLeaf v w := by
  have hkeys {js ks : List Value} (hks : List.Forall₂ (fun j k => sameLeaf j k = true) ks ks)
      (hjk : js.map sameLeaf = ks.map sameLeaf) :
      List.Forall₂ (fun j k => sameLeaf j k = true) js ks := by
    induction js generalizing ks with
    | nil =>
      cases ks with
      | nil => exact .nil
      | cons k ks => cases hjk
    | cons j js ih =>
      cases ks with
      | nil => cases hjk
      | cons k ks =>
        obtain ⟨hj, hjs⟩ := List.cons.inj hjk
        obtain ⟨hk, hks⟩ := List.forall₂_cons.mp hks
        exact .cons (congrFun hj k ▸ hk) (ih hks hjs)
  cases v with
  | list a =>
    cases w with
    | list b => exact Sight.list.inj hs
    | _ => cases hs
  | map a =>
    cases w with
    | map b => exact hkeys hw (Sight.map.inj hs)
    | _ => cases hs
  | _ =>
    cases w with
    | list b | map b => cases hs
    | _ =>
      have hleaf := congrFun (Sight.leaf.inj hs)
      exact (hleaf _).trans hw

theorem unfolding_eq_of_not_differAt (hsame : ∀ path, ¬ h.DifferAt sameLeaf v w path)
    (path : List Nat) : h.unfolding v path = h.unfolding w path := by
  have hagree : h.Agree sameLeaf v w := by
    by_contra hne
    exact hsame [] (differAt_nil.mpr hne)
  induction path generalizing v w with
  | nil => exact congrArg some hagree.sight_eq
  | cons i path ih =>
    simp only [unfolding, at?_cons] at ih ⊢
    have hlen := hagree.length_children
    cases hx : (h.children v)[i]? with
    | none =>
      have hi := List.getElem?_eq_none_iff.mp hx
      rw [List.getElem?_eq_none (hlen ▸ hi)]
    | some x =>
      obtain ⟨hi, -⟩ := List.getElem?_eq_some_iff.mp hx
      obtain ⟨y, hy⟩ : ∃ y, (h.children w)[i]? = some y :=
        ⟨_, List.getElem?_eq_getElem (hlen ▸ hi)⟩
      have hchild (path : List Nat) : ¬ h.DifferAt sameLeaf x y path :=
        fun hd => hsame (i :: path) (differAt_cons.mpr ⟨x, y, hx, hy, hd⟩)
      rw [hy]
      refine ih hchild ?_
      by_contra hne
      exact hchild [] (differAt_nil.mpr hne)

/-- **Values have the same unfolding exactly if they differ nowhere.** -/
theorem unfolding_eq_iff (hw : h.SelfSame sameLeaf w) :
    h.unfolding v = h.unfolding w ↔ ∀ path, ¬ h.DifferAt sameLeaf v w path := by
  constructor
  · rintro he path ⟨x, y, hx, hy, hne⟩
    have hsight := congrFun he path
    rw [unfolding, unfolding, hx, hy] at hsight
    exact hne (agree_of_sight_eq (hw path y hy) (Option.some.inj hsight))
  · exact fun hsame => funext (unfolding_eq_of_not_differAt hsame)

/-! ## NaNs -/

/-- The value is a NaN, or a map with a NaN among its keys. -/
def ShowsNaN (h : Heap) : Value → Prop
  | .float x => x.isNaN = true
  | .map id => ∃ x, .float x ∈ (h.map id).keys ∧ x.isNaN = true
  | _ => False

/-- No NaN can be got at from the value, neither as an item nor as a key. -/
def NaNFree (h : Heap) (v : Value) : Prop := ∀ path w, h.at? path v = some w → ¬ h.ShowsNaN w

/-- No NaN can be got at from values that show none and have no other children. -/
theorem nanFree_of_closed {l : List Value} (hclosed : ∀ v ∈ l, ∀ x ∈ h.children v, x ∈ l)
    (hnone : ∀ v ∈ l, ¬ h.ShowsNaN v) (hv : v ∈ l) : h.NaNFree v :=
  fun _ w hw => hnone w (at?_induction hclosed hv hw)

/-- Keys are no containers. -/
theorem key_ne_container {id : MapId} (hk : v ∈ (h.map id).keys) :
    (∀ id, v ≠ .list id) ∧ ∀ id, v ≠ .map id := by
  obtain ⟨e, -, rfl⟩ := List.mem_map.mp hk
  cases e.1 <;> exact ⟨nofun, nofun⟩

/-- Everything but a NaN is equal to itself. -/
theorem agree_self (hn : ¬ h.ShowsNaN v) : h.Agree sameLeaf v v := by
  cases v with
  | list id => exact rfl
  | map id =>
    refine List.forall₂_same.mpr fun k hk => ?_
    obtain ⟨hlist, hmap⟩ := key_ne_container hk
    refine sameLeaf_self hlist hmap fun x hx => ?_
    exact Bool.eq_false_iff.mpr fun hnan => hn ⟨x, hx ▸ hk, hnan⟩
  | float x => exact Binary64.sameNumber_self.mpr (Bool.eq_false_iff.mpr hn)
  | _ => exact sameLeaf_self nofun nofun nofun

theorem NaNFree.selfSame (hv : h.NaNFree v) : h.SelfSame sameLeaf v :=
  fun path x hx => agree_self (hv path x hx)

end ScriptEngine.Heap
