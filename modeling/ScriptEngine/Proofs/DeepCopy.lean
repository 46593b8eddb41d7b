import ScriptEngine.Proofs.Equality
import ScriptEngine.Proofs.Heap.Correspondence

/-! # Deep copies of lists and maps

A deep copy of a value that leads to lists and maps, and otherwise to leaves only, is made of new lists
and maps, one for each list and map of the original: sharing and cycles survive
(`Heap.deepCopy_isomorphic`).  The two have nothing in common but the leaves.

With structs there may be more than one copy of an object, but only of those that can be got at in two ways
and are structs or stand in one (`Heap.Replica.functional`).
-/
namespace ScriptEngine
namespace Heap

/-- All that the object comprises has been made, and there is no struct. -/
structure StructFree (h : Heap) (o : Object) : Prop where
  made : ∀ x, h.Comprises o x → ¬ h.Unused x
  plain : ∀ id, h.Comprises o (.handle id) → (h.handle id).isStruct = false

/-- **No struct, and nothing that stands in one, can be got at in two ways**, leaves apart: it stands in
one object only and at one place there, or else it is what the value itself refers to. -/
structure Parted (h : Heap) (v : Value) : Prop where
  holder : ∀ x o o', h.Enclosed (h.Within v) x → ¬ h.Leaf x → h.Within v o → h.Within v o' →
    h.Holds o x → h.Holds o' x → o = o'
  place : ∀ x o i j, h.Enclosed (h.Within v) x → ¬ h.Leaf x → h.Within v o →
    RefersAt (h.elements o) i x → RefersAt (h.elements o) j x → i = j
  top : ∀ x o, h.Enclosed (h.Within v) x → ¬ h.Leaf x → v.object? = some x → h.Within v o →
    ¬ h.Holds o x

/-- The value leads to this list or map. -/
def LeadsTo (h : Heap) (v : Value) (x : Object) : Prop := x.isContainer = true ∧ h.Within v x

/-- **The second value is an isomorphic copy of the first one**, by pairs of a list or a map and its
copy: each copy is declared and made like its original, and the pairs match the lists and maps that the
values lead to, one by one. -/
structure Isomorphic (h h' : Heap) (R : Pairing) (v w : Value) : Prop where
  becomes : Becomes h R v w
  duplicate : ∀ o p, R o p → Duplicate h h' R o p
  functional : ∀ o p p', R o p → R o p' → p = p'
  injective : ∀ o o' p, R o p → R o' p → o = o'
  original : ∀ o, (∃ p, R o p) ↔ h.LeadsTo v o
  copy : ∀ p, (∃ o, R o p) ↔ h'.LeadsTo w p

variable {h h' g : Heap} {v w : Value} {o p q x : Object} {R : Pairing}

theorem StructFree.founded (hs : h.StructFree o) : h.Founded o := by
  intro id hid hself
  obtain ⟨x, hx, -⟩ := Relation.TransGen.head'_iff.mp hself
  exact Leaf.not_holds (o := .handle id) (hs.plain id hid) hx

/-- No struct is entered. -/
theorem StructFree.avoids (hs : h.StructFree o) : h.Avoids h.structs o := by
  intro id hid hcomp
  have hplain := hs.plain id hcomp
  rw [(Finset.mem_filter.mp hid).2] at hplain
  cases hplain

theorem StructFree.held (hs : h.StructFree o) (hx : h.Holds o x) : h.StructFree x :=
  ⟨fun y hy => hs.made y (.head hx hy), fun id hid => hs.plain id (.head hx hid)⟩

theorem StructFree.parted (hv : v.In h.StructFree) : h.Parted v := by
  have hnever {x : Object} : ¬ h.Enclosed (h.Within v) x := by
    rintro ⟨id, ⟨o, ho, hcomp⟩, hstruct, -⟩
    rw [(hv o ho).plain id hcomp] at hstruct
    cases hstruct
  exact ⟨fun _ _ _ hx => absurd hx hnever, fun _ _ _ _ hx => absurd hx hnever,
    fun _ _ hx => absurd hx hnever⟩

/-- Copying goes no deeper than there are lists and maps. -/
theorem copy_structFree {fuel : Nat} (hv : v.In h.StructFree)
    (hfuel : h.lists.next + h.maps.next < fuel) :
    ∃ memo, copy? h fuel h {} v = some ((h.deepCopy v).1, (h.deepCopy v).2, memo) := by
  refine copy_eq_deepCopy h.structs (fun o ho => ⟨(hv o ho).founded, (hv o ho).avoids⟩) ?_
  rw [Finset.sdiff_self, Finset.card_empty, Nat.zero_mul, Nat.zero_add]
  exact Nat.lt_of_le_of_lt h.card_containers_le hfuel

/-- **What there is to know about a copy of any value**, a struct or one with structs in it too: the
pairs of originals and copies. -/
structure Replica (h h' : Heap) (R : Pairing) (v w : Value) : Prop where
  gains : h.Gains (fun _ => True) h'
  becomes : Becomes h R v w
  duplicate : ∀ o p, R o p → Duplicate h h' R o p
  fresh : ∀ o p, R o p → h.Unused p ∧ ¬ h'.Unused p
  met : ∀ o p, R o p → h.Within v o
  injective : ∀ o o' p, R o p → R o' p → o = o'
  stems : Stems h h' R [v] [w]
  /-- Lists and maps are copied once, except inside of structs. -/
  remembered : ∀ o p p', R o p → R o p' → p = p' ∨ h.Enclosed (h.Within v) o

theorem exists_replica (hv : v.In h.Founded) :
    ∃ R, Replica h (h.deepCopy v).2 R v (h.deepCopy v).1 := by
  obtain ⟨memo, hc⟩ := copy_eq_deepCopy ∅ (fun o ho => ⟨hv o ho, nofun⟩)
    (Nat.lt_succ_self _)
  obtain ⟨R, ha, hb, hstems⟩ := addsCopy_copy Within.held (h.within_in v) _ hc
  rw [Copies.pairing_empty] at ha hb
  rw [bot_sup_eq] at hb
  refine ⟨R, ha.gains, hb, fun o p hR => bot_sup_eq R ▸ ha.duplicate hR, fun _ _ => ha.fresh,
    fun _ _ => ha.met, fun _ _ _ => ha.injective, hstems, fun o p p' hR hR' => ?_⟩
  obtain hknown | hin := ha.remembered hR
  · obtain hknown' | hin := ha.remembered hR'
    · exact .inl (Copies.pairing_functional hknown hknown')
    · exact .inr hin
  · exact .inr hin

/-- **Everything is copied once** if no struct, and nothing in one, can be got at in two ways. -/
theorem Replica.functional (hr : Replica h h' R v w) (hv : h.Parted v) :
    ∀ o p p', R o p → R o p' → p = p' := by
  -- By induction on the way to the object.  What was copied inside a struct was come upon at the one
  -- place where it stands, in an object of which there is one copy.
  suffices hway : ∀ x, v.object? = some x → ∀ o, h.Comprises x o → ∀ p p', R o p → R o p' → p = p' by
    intro o p p' hR
    obtain ⟨x, hx, hcomp⟩ := hr.met o p hR
    exact hway x hx o hcomp p p' hR
  intro x hx o hcomp
  induction hcomp with
  | refl =>
    intro p p' hR hR'
    obtain heq | hin := hr.remembered x p p' hR hR'
    · exact heq
    have hcopy {p : Object} (hR : R x p) : w.object? = some p := by
      obtain hb | ⟨o, q, hq, i, ho, -⟩ := hr.stems x p hR
      · exact hb.of_single.2
      · exact absurd ho.holds (hv.top x o hin (hr.duplicate x p hR).not_leaf hx (hr.met o q hq))
    exact Option.some.inj ((hcopy hR).symm.trans (hcopy hR'))
  | @tail y o hy ho ih =>
    intro p p' hR hR'
    obtain heq | hin := hr.remembered o p p' hR hR'
    · exact heq
    have hleaf := (hr.duplicate o p hR).not_leaf
    have hcopy {p : Object} (hR : R o p) :
        ∃ q i, R y q ∧ RefersAt (h.elements y) i o ∧ RefersAt (h'.elements q) i p := by
      obtain hb | ⟨o', q, hq, i, hi, hp⟩ := hr.stems o p hR
      · exact absurd ho (hv.top o y hin hleaf hb.of_single.1 ⟨x, hx, hy⟩)
      · obtain rfl := hv.holder o o' y hin hleaf (hr.met o' q hq) ⟨x, hx, hy⟩ hi.holds ho
        exact ⟨q, i, hq, hi, hp⟩
    obtain ⟨q, i, hq, hi, hp⟩ := hcopy hR
    obtain ⟨q', j, hq', hj, hp'⟩ := hcopy hR'
    obtain rfl := ih q q' hq hq'
    obtain rfl := hv.place o y i j hin hleaf ⟨x, hx, hy⟩ hi hj
    exact Option.some.inj (hp.symm.trans hp')

/-- What can be got at from the original is a leaf, or has a copy that can be got at from the copy. -/
theorem Becomes.exists_copy (hb : Becomes h R v w) (hdup : ∀ o p, R o p → Duplicate h h' R o p)
    (hx : h.Within v x) : h.Leaf x ∨ ∃ p, R x p ∧ h'.Within w p := by
  obtain ⟨o, ho, hcomp⟩ := hx
  cases hb with
  | leaf hleaf =>
    obtain rfl := (hleaf o ho).eq_of_comprises hcomp
    exact .inl (hleaf x ho)
  | copy ho' hp hR =>
    cases ho.symm.trans ho'
    exact (exists_copy_of_comprises hdup hcomp hR).imp_right
      fun ⟨q, hq, hcomp⟩ => ⟨q, hq, _, hp, hcomp⟩

/-- What can be got at from the copy is a leaf, or a copy. -/
theorem Becomes.exists_original (hb : Becomes h R v w) (hdup : ∀ o p, R o p → Duplicate h h' R o p)
    (hleaf : ∀ {o}, h.Leaf o → h'.Leaf o) (hq : h'.Within w q) : h.Leaf q ∨ ∃ o, R o q := by
  obtain ⟨p, hp, hcomp⟩ := hq
  cases hb with
  | leaf hl =>
    obtain rfl := (hleaf (hl p hp)).eq_of_comprises hcomp
    exact .inl (hl q hp)
  | copy ho hp' hR =>
    cases hp.symm.trans hp'
    exact exists_original_of_comprises hdup hleaf hcomp hR

theorem Replica.plain (hr : Replica h h' R v w) (hv : v.In h.StructFree) (hR : R o p) :
    o.isContainer = true ∧ p.isContainer = true := by
  obtain ⟨x, hx, hcomp⟩ := hr.met o p hR
  cases hr.duplicate o p hR with
  | list | map => exact ⟨rfl, rfl⟩
  | struct hd hc =>
    have hplain := (hv x hx).plain _ hcomp
    rw [hc] at hplain
    cases hplain

/-- **A copy without structs is isomorphic to the original.** -/
theorem Replica.isomorphic (hr : Replica h h' R v w) (hv : v.In h.StructFree) :
    Isomorphic h h' R v w where
  becomes := hr.becomes
  duplicate := hr.duplicate
  functional := hr.functional (StructFree.parted hv)
  injective := hr.injective
  original o := by
    constructor
    · rintro ⟨p, hR⟩
      exact ⟨(hr.plain hv hR).1, hr.met o p hR⟩
    · rintro ⟨ho, hwithin⟩
      obtain hleaf | ⟨p, hR, -⟩ := hr.becomes.exists_copy hr.duplicate hwithin
      · rw [hleaf.isContainer] at ho
        cases ho
      · exact ⟨p, hR⟩
  copy p := by
    constructor
    · rintro ⟨o, hR⟩
      obtain ⟨ho, hp⟩ := hr.plain hv hR
      obtain hleaf | ⟨p', hR', hwithin⟩ := hr.becomes.exists_copy hr.duplicate (hr.met o p hR)
      · rw [hleaf.isContainer] at ho
        cases ho
      · exact ⟨hp, hr.functional (StructFree.parted hv) o p' p hR' hR ▸ hwithin⟩
    · rintro ⟨hp, hwithin⟩
      obtain hleaf | horiginal := hr.becomes.exists_original hr.duplicate hr.gains.leaf hwithin
      · rw [hleaf.isContainer] at hp
        cases hp
      · exact horiginal

/-- **A deep copy is disjoint from the original and isomorphic to it.**  Let a value lead to lists and
maps, shared and cyclic in any way, and to leaves.  Copying it ends, no deeper than there are lists and
maps, and changes no object.  The copy is made of new lists and maps, which match those of the original
one by one.  Whatever is done to the copy's lists and maps, the value unfolds as before, and so does the
copy whatever is done to those of the original; and the copy is equal to the original unless a NaN can
be got at. -/
theorem deepCopy_isomorphic {h h' : Heap} {v w : Value} (hv : v.In h.StructFree)
    (hcopy : h.deepCopy v = (w, h')) :
    (∀ fuel, h.lists.next + h.maps.next < fuel →
      ∃ memo, copy? h fuel h {} v = some (w, h', memo)) ∧
    (∀ o, ¬ h.Unused o → h'.cell? o = h.cell? o) ∧
    ∃ R, Isomorphic h h' R v w ∧ (∀ o p, R o p → h.Unused p ∧ ¬ h'.Unused p) ∧
      (∀ g : Heap, (∀ x, ¬ h'.Unused x → (∀ o, ¬ R o x) → g.cell? x = h'.cell? x) →
        g.unfolding v = h.unfolding v) ∧
      (∀ g : Heap, (∀ x, ¬ h'.Unused x → (∀ p, ¬ R x p) → g.cell? x = h'.cell? x) →
        g.unfolding w = h.unfolding v) ∧
      (h.NaNFree v → h'.identical w v = true) := by
  obtain rfl : (h.deepCopy v).1 = w := congrArg Prod.fst hcopy
  obtain rfl : (h.deepCopy v).2 = h' := congrArg Prod.snd hcopy
  obtain ⟨R, hr⟩ := exists_replica fun o ho => (hv o ho).founded
  have hplain {id : HandleId} {p : Object} (hR : R (.handle id) p) : False := by
    cases (hr.plain hv hR).1
  have hold {o : Object} (ho : h.Within v o) : ¬ h.Unused o := by
    obtain ⟨x, hx, hcomp⟩ := ho
    exact (hv x hx).made o hcomp
  have hsame := hr.becomes.unfolding_eq hr.duplicate @hplain
  have hsource (g : Heap) (hg : ∀ x, ¬ (h.deepCopy v).2.Unused x → (∀ o, ¬ R o x) →
      g.cell? x = (h.deepCopy v).2.cell? x) : g.unfolding v = h.unfolding v := by
    refine unfolding_congr (fun _ _ => Within.held) (fun x hx _ => ?_) (h.within_in v)
    exact (hg x (fun hunused => hold hx (hr.gains.unused x hunused))
      fun o hR => hold hx (hr.fresh o x hR).1).trans (hr.gains.kept x (hold hx))
  have hcopy (g : Heap) (hg : ∀ x, ¬ (h.deepCopy v).2.Unused x → (∀ p, ¬ R x p) →
      g.cell? x = (h.deepCopy v).2.cell? x) : g.unfolding (h.deepCopy v).1 = h.unfolding v := by
    refine (unfolding_congr (fun _ _ => Within.held) (fun x hx hcontainer => ?_)
      (within_in _ _)).trans hsame
    obtain ⟨o, hR⟩ := ((hr.isomorphic hv).copy x).mpr ⟨hcontainer, hx⟩
    obtain ⟨hunused, hmade⟩ := hr.fresh o x hR
    exact hg x hmade fun p hR' => hold (hr.met x p hR') hunused
  refine ⟨fun _ hfuel => copy_structFree hv hfuel, hr.gains.kept, R, hr.isomorphic hv, hr.fresh,
    hsource, hcopy, fun hnan =>
      identical_of_unfolding (hr.becomes.nanFree hr.duplicate @hplain hnan) ?_⟩
  exact hsame.trans (hsource _ fun _ _ _ => rfl).symm

/-- A list with itself in it, twice a list of numbers, and a map from which the same numbers and a token
can be got at. -/
def sharing : Heap where
  lists := (Store.push {} ⟨#[.list 0, .list 1, .map 0, .list 1], none, false⟩).push
    ⟨#[.int 2, .int 3], some (.int .int64), true⟩
  maps := Store.push {} ⟨[(.str "numbers", .list 1), (.str "token", .handle 0)], none, none⟩
  handles := Store.push {} (.token "Token")

theorem sharing_structFree : sharing.StructFree (.list 0) := by
  have hmet {x : Object} (hx : sharing.Comprises (.list 0) x) :
      x = .list 0 ∨ x = .list 1 ∨ x = .map 0 ∨ x = .handle 0 := by
    have hmem := mem_of_reflTransGen (f := sharing.contents)
      (S := [.list 0, .list 1, .map 0, .handle 0]) (by decide +kernel) (by decide) hx
    simpa using hmem
  refine ⟨fun x hx => ?_, fun id hid => ?_⟩
  · obtain rfl | rfl | rfl | rfl := hmet hx <;> exact Nat.not_le_of_lt (by decide +kernel)
  · obtain hid | hid | hid | hid := hmet hid <;> cases hid
    rfl

/-- The copy has a list of numbers of its own, which is shared as the original's is, and the same
token. -/
theorem deepCopy_isomorphic_sharing :
    (sharing.deepCopy (.list 0)).1 = .list 2 ∧
      ((sharing.deepCopy (.list 0)).2.list 2).items = #[.list 2, .list 3, .map 1, .list 3] ∧
      ((sharing.deepCopy (.list 0)).2.map 1).entries =
        [(.str "numbers", .list 3), (.str "token", .handle 0)] ∧
      ((sharing.deepCopy (.list 0)).2.list 3).fixed = true ∧
      (∀ o, ¬ sharing.Unused o → (sharing.deepCopy (.list 0)).2.cell? o = sharing.cell? o) ∧
      ∃ memo, copy? sharing 4 sharing {} (.list 0) =
        some ((sharing.deepCopy (.list 0)).1, (sharing.deepCopy (.list 0)).2, memo) := by
  have hcopy : sharing.deepCopy (.list 0) =
      ((sharing.deepCopy (.list 0)).1, (sharing.deepCopy (.list 0)).2) := rfl
  obtain ⟨hends, hkept, -⟩ := deepCopy_isomorphic (Value.in_list.mpr sharing_structFree) hcopy
  refine ⟨?_, ?_, ?_, ?_, hkept, hends 4 (by decide +kernel)⟩
  all_goals rfl

end Heap
end ScriptEngine
