import ScriptEngine.Proofs.EngineState.Collecting

/-! # What is garbage

A sweep marks the objects that something refers to: the host, a task, a deferred call, a report, or
another object.  It marks nothing else that is there (`EngineState.covers_iff`).  So if garbage has been
collected, then something refers to every object (`EngineState.covers_of_collected`), and an object stays
for as long as this is so.
-/
namespace ScriptEngine

/-! ## Marks -/

namespace Marks
variable {α : Type} {m : Marks} {o x : Object}

theorem getD_of_set {marks : Array Bool} {id i : Nat}
    (hi : (marks.setIfInBounds id true).getD i true = true) : marks.getD i true = true ∨ i = id := by
  by_cases hid : id = i
  · exact .inr hid.symm
  · simp only [Array.getD_eq_getD_getElem?, Array.getElem?_setIfInBounds_ne hid] at hi ⊢
    exact .inl hi

theorem Covers.of_mark (hc : (m.mark x).Covers o) : m.Covers o ∨ o = x := by
  cases x <;> cases o <;> first
    | exact .inl hc
    | obtain hold | rfl := getD_of_set hc
      · exact .inl hold
      · exact .inr rfl

theorem Covers.of_markAll {xs : List Object} (hc : (m.markAll xs).Covers o) :
    m.Covers o ∨ o ∈ xs := by
  unfold Marks.markAll at hc
  induction xs generalizing m with
  | nil => exact .inl hc
  | cons x rest ih =>
    obtain hbefore | hrest := ih hc
    · obtain hold | rfl := hbefore.of_mark
      · exact .inl hold
      · exact .inr List.mem_cons_self
    · exact .inr (List.mem_cons_of_mem x hrest)

/-- Marking what a store refers to. -/
theorem covers_markStore_iff {store : Store α} {objects : α → List Object} :
    (m.markStore store objects).Covers o ↔
      m.Covers o ∨ ∃ id a, store.get? id = some a ∧ o ∈ objects a := by
  refine ⟨fun hc => ?_, ?_⟩
  · rw [markStore_eq] at hc
    have hslots (slots : List (Option α)) (m : Marks)
        (hc : (slots.foldl (markSlot objects) m).Covers o) :
        m.Covers o ∨ ∃ a, some a ∈ slots ∧ o ∈ objects a := by
      induction slots generalizing m with
      | nil => exact .inl hc
      | cons slot rest ih =>
        obtain hbefore | ⟨a, ha, ho⟩ := ih _ hc
        · cases slot with
          | none => exact .inl hbefore
          | some a => exact hbefore.of_markAll.imp_right fun ho => ⟨a, List.mem_cons_self, ho⟩
        · exact .inr ⟨a, List.mem_cons_of_mem slot ha, ho⟩
    refine (hslots _ m hc).imp_right ?_
    rintro ⟨a, ha, ho⟩
    obtain ⟨id, hid⟩ := Array.mem_iff_getElem?.mp (Array.mem_toList_iff.mp ha)
    refine ⟨id, a, ?_, ho⟩
    rw [Store.get?, hid]
    rfl
  · rintro (hc | ⟨id, a, ha, ho⟩)
    · exact hc.markStore
    · exact covers_markStore ha ho

/-- In the beginning, only what has not been made yet counts as marked. -/
theorem covers_none {h : Heap} : (none h).Covers o ↔ h.Unused o := by
  have hnumber (n id : Nat) : (Array.replicate n false).getD id true = true ↔ n ≤ id := by
    simp only [Array.getD_eq_getD_getElem?, Array.getElem?_replicate]
    split
    · simpa using ‹id < n›
    · simpa using ‹¬ id < n›
  cases o <;> exact hnumber _ _

end Marks

/-- Something that is there refers to the object. -/
def Heap.Mentions (h : Heap) (o : Object) : Prop := ∃ x c, h.cell? x = some c ∧ o ∈ c.objects

theorem Heap.covers_markObjects {h : Heap} {m : Marks} {o : Object} :
    (h.markObjects m).Covers o ↔ m.Covers o ∨ h.Mentions o := by
  constructor
  · intro hc
    simp only [Heap.markObjects, Marks.covers_markStore_iff] at hc
    have hcell {α : Type} {a : α} {found : Option α} {x : Object} {f : α → Cell}
        (hx : h.cell? x = found.map f) (ha : found = some a) (ho : o ∈ (f a).objects) :
        m.Covers o ∨ h.Mentions o :=
      .inr ⟨x, f a, by rw [hx, ha]; rfl, ho⟩
    obtain (((((hc | ⟨id, a, ha, ho⟩) | ⟨id, a, ha, ho⟩) | ⟨id, a, ha, ho⟩) | ⟨id, a, ha, ho⟩) |
      ⟨id, a, ha, ho⟩) | ⟨id, a, ha, ho⟩ := hc
    · exact .inl hc
    · exact hcell (x := .list id) (f := .list) rfl ha ho
    · exact hcell (x := .map id) (f := .map) rfl ha ho
    · exact hcell (x := .func id) (f := .func) rfl ha ho
    · exact hcell (x := .chan id) (f := .chan) rfl ha ho
    · exact hcell (x := .handle id) (f := .handle) rfl ha ho
    · exact hcell (x := .scope id) (f := .scope) rfl ha ho
  · rintro (hc | ⟨x, c, hx, ho⟩)
    · exact hc.markStore.markStore.markStore.markStore.markStore.markStore
    · exact h.covers_of_cell hx ho m

namespace EngineState
variable {s : EngineState} {o : Object}

/-- Something that is no object refers to the object. -/
inductive Anchored (s : EngineState) (o : Object) : Prop where
  /-- The host holds the scope. -/
  | pinned {id : ScopeId} (hid : id ∈ s.pinned) (ho : o = .scope id)
  | held {task : TaskId} {xs : List Holding} (hxs : s.held.get? task = some xs)
      (ho : o ∈ xs.flatMap Holding.objects)
  | deferred {frame : FrameId} {calls : List DeferredCall}
      (hcalls : s.frames.get? frame = some calls) (ho : o ∈ frameObjects calls)
  | reported (ho : o ∈ s.reports.flatMap reportObjects)

/-- **What is marked**: what has not been made yet, and what something refers to. -/
theorem covers_iff : s.marks.Covers o ↔ s.heap.Unused o ∨ s.Anchored o ∨ s.heap.Mentions o := by
  unfold marks
  rw [Heap.covers_markObjects, ← or_assoc]
  refine or_congr_left ⟨fun hc => ?_, ?_⟩
  · obtain hc | hreported := hc.of_markAll
    · simp only [Marks.covers_markStore_iff] at hc
      obtain (hc | ⟨task, xs, hxs, ho⟩) | ⟨frame, calls, hcalls, ho⟩ := hc
      · obtain hc | hpinned := hc.of_markAll
        · exact .inl (Marks.covers_none.mp hc)
        · obtain ⟨id, hid, rfl⟩ := List.mem_map.mp hpinned
          exact .inr (.pinned hid rfl)
      · exact .inr (.held hxs ho)
      · exact .inr (.deferred hcalls ho)
    · exact .inr (.reported hreported)
  · rintro (hunused | hanchored)
    · exact ((Marks.covers_none.mpr hunused).markAll _).markStore.markStore.markAll _
    · cases hanchored with
      | pinned hid ho =>
        subst ho
        exact (Marks.covers_markAll (List.mem_map_of_mem hid)).markStore.markStore.markAll _
      | held hxs ho => exact (Marks.covers_markStore hxs ho).markStore.markAll _
      | deferred hcalls ho => exact (Marks.covers_markStore hcalls ho).markAll _
      | reported ho => exact Marks.covers_markAll ho

/-! ## Where garbage has been collected -/

/-- A sweep that finds nothing has marked everything. -/
theorem covers_of_not_found (hfound : s.sweep.2 = false) {c : Cell} (hc : s.heap.cell? o = some c) :
    s.marks.Covers o := by
  unfold sweep at hfound
  simp only [Bool.not_eq_false', Bool.and_eq_true, List.isEmpty_iff] at hfound
  obtain ⟨⟨⟨⟨⟨hlists, hmaps⟩, hfuncs⟩, hchans⟩, hhandles⟩, hscopes⟩ := hfound
  have hmarked {α : Type} {store : Store α} {marks : Array Bool} {id : Nat}
      {cell : α → Cell} (hnone : store.unmarked marks = []) (hc : (store.get? id).map cell = some c) :
      marks.getD id true = true := by
    obtain ⟨a, ha, -⟩ := Option.map_eq_some_iff.mp hc
    by_contra hid
    have hmem := Store.mem_unmarked.mpr ⟨Option.isSome_of_mem ha, Bool.eq_false_of_not_eq_true hid⟩
    rw [hnone] at hmem
    cases hmem
  cases o with
  | list id => exact hmarked hlists hc
  | map id => exact hmarked hmaps hc
  | func id => exact hmarked hfuncs hc
  | chan id => exact hmarked hchans hc
  | handle id => exact hmarked hhandles hc
  | scope id => exact hmarked hscopes hc

/-- **Something refers to every object that is left**, if there was reason to collect garbage. -/
theorem covers_of_collected (hsettled : s.collect = s) (hlingering : s.lingering ≠ 0) {c : Cell}
    (hc : s.heap.cell? o = some c) : s.marks.Covers o := by
  have hswept : s.collect.sweep = (s.collect, false) := by
    rw [collect, if_neg hlingering]
    exact sweep_collectUpTo (Nat.lt_succ_of_le s.population_le)
  rw [hsettled] at hswept
  exact covers_of_not_found (congrArg Prod.snd hswept) hc

end EngineState
end ScriptEngine
