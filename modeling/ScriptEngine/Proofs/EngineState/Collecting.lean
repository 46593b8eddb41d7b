import Mathlib.Data.Finset.Card
import ScriptEngine.Proofs.EngineState.Telling
import ScriptEngine.Proofs.Heap.Zone

/-! # What collecting garbage takes out

Collecting garbage only takes objects out of the heap and gives back their slots
(`EngineState.Prunes`), and never an object that is marked.  It goes on until there is nothing left to
take out, so doing it twice is doing it once (`EngineState.collect_collect`).
-/
namespace ScriptEngine

/-- **What an object refers to is marked**, whether or not anything refers to the object itself. -/
theorem Heap.covers_of_cell {h : Heap} {o x : Object} {c : Cell} (hc : h.cell? o = some c)
    (hx : x ∈ c.objects) (m : Marks) : (h.markObjects m).Covers x := by
  unfold Heap.markObjects
  cases o <;> obtain ⟨a, ha, rfl⟩ := Option.map_eq_some_iff.mp hc
  · exact (Marks.covers_markStore ha hx).markStore.markStore.markStore.markStore.markStore
  · exact (Marks.covers_markStore ha hx).markStore.markStore.markStore.markStore
  · exact (Marks.covers_markStore ha hx).markStore.markStore.markStore
  · exact (Marks.covers_markStore ha hx).markStore.markStore
  · exact (Marks.covers_markStore ha hx).markStore
  · exact Marks.covers_markStore ha hx

/-- What does not change when a slot is given back. -/
def Governor.terms (x : Governor) : Nat × Nat := (x.limit, x.peak)

namespace EngineState
variable {s s' s'' : EngineState}

/-- The scopes that the host holds are marked. -/
theorem covers_pinned {id : ScopeId} (hid : id ∈ s.pinned) : s.marks.Covers (.scope id) := by
  have hmark : ((Marks.none s.heap).markAll (s.pinned.map .scope)).Covers (.scope id) :=
    Marks.covers_markAll (List.mem_map_of_mem hid)
  exact (hmark.markStore.markStore.markAll _).markStore.markStore.markStore.markStore.markStore
    |>.markStore

/-- **The second state is the first one without some of its objects**, and without the slots of
those that were counted. -/
structure Prunes (s s' : EngineState) : Prop where
  held : s'.held = s.held
  frames : s'.frames = s.frames
  pinned : s'.pinned = s.pinned
  notices : s'.notices = s.notices
  unused : ∀ o, s'.heap.Unused o ↔ s.heap.Unused o
  cell : ∀ o, s'.heap.cell? o = none ∨ s'.heap.cell? o = s.heap.cell? o
  governors : ∀ g, (s'.governors.get? g).map Governor.terms = (s.governors.get? g).map Governor.terms

theorem Prunes.refl (s : EngineState) : Prunes s s :=
  ⟨rfl, rfl, rfl, rfl, fun _ => .rfl, fun _ => .inr rfl, fun _ => rfl⟩

theorem Prunes.trans (hp : Prunes s s') (hp' : Prunes s' s'') : Prunes s s'' where
  held := hp'.held.trans hp.held
  frames := hp'.frames.trans hp.frames
  pinned := hp'.pinned.trans hp.pinned
  notices := hp'.notices.trans hp.notices
  unused o := (hp'.unused o).trans (hp.unused o)
  cell o := by
    obtain hnone | hsame := hp'.cell o
    · exact .inl hnone
    · rw [hsame]
      exact hp.cell o
  governors g := (hp'.governors g).trans (hp.governors g)

theorem Prunes.nextScope (hp : Prunes s s') : s'.heap.scopes.next = s.heap.scopes.next := by
  have hle : s'.heap.scopes.next ≤ s.heap.scopes.next :=
    (hp.unused (.scope _)).mpr (Nat.le_refl s.heap.scopes.next)
  exact Nat.le_antisymm hle ((hp.unused (.scope _)).mp (Nat.le_refl s'.heap.scopes.next))

/-- What is left was there before. -/
theorem Prunes.cell_of (hp : Prunes s s') {o : Object} {c : Cell} (hc : s'.heap.cell? o = some c) :
    s.heap.cell? o = some c := by
  obtain hnone | hsame := hp.cell o
  · rw [hnone] at hc
    cases hc
  · rw [← hsame]
    exact hc

theorem Prunes.scope_of (hp : Prunes s s') {id : ScopeId} {c : Scope}
    (hc : s'.heap.scopes.get? id = some c) : s.heap.scopes.get? id = some c := by
  have hcell := hp.cell_of (o := .scope id) (congrArg (Option.map Cell.scope) hc)
  obtain ⟨d, hd, hsame⟩ := Option.map_eq_some_iff.mp hcell
  cases hsame
  exact hd

/-! ## One scope -/

theorem cell?_eraseScope (s : EngineState) (id : ScopeId) (o : Object) :
    (s.eraseScope id).heap.cell? o = if o = .scope id then none else s.heap.cell? o := by
  have herased (s : EngineState) : Heap.cell? { s.heap with scopes := s.heap.scopes.erase id } o =
      if o = .scope id then none else s.heap.cell? o := by
    split
    · subst o
      rw [Heap.cell?, Store.get?_erase_self]
      rfl
    · cases o with
      | scope other =>
        have hne : other ≠ id := fun he => ‹¬ _› (congrArg _ he)
        rw [Heap.cell?, Store.get?_erase_of_ne hne]
        rfl
      | _ => rfl
  unfold eraseScope
  split
  · rename_i hnone
    split
    · subst o
      rw [Heap.cell?, hnone]
      rfl
    · rfl
  · split
    · exact herased s
    · exact herased s

theorem prunes_eraseScope (s : EngineState) (id : ScopeId) : Prunes s (s.eraseScope id) := by
  have hcell (o : Object) : (s.eraseScope id).heap.cell? o = none ∨
      (s.eraseScope id).heap.cell? o = s.heap.cell? o := by
    rw [cell?_eraseScope]
    split
    · exact .inl rfl
    · exact .inr rfl
  have hunused (o : Object) :
      Heap.Unused { s.heap with scopes := s.heap.scopes.erase id } o ↔ s.heap.Unused o := by
    cases o with
    | scope other => simp only [Heap.Unused, Store.next_erase]
    | _ => exact .rfl
  revert hcell
  unfold eraseScope
  split
  · exact fun _ => .refl s
  · split
    · refine fun hcell => ⟨rfl, rfl, rfl, rfl, hunused, hcell, fun g => ?_⟩
      simp only [modifyHeap, Store.get?_modify_eq]
      split
      · subst g
        rw [Option.map_map]
        rfl
      · rfl
    · exact fun hcell => ⟨rfl, rfl, rfl, rfl, hunused, hcell, fun _ => rfl⟩

/-- One after the other. -/
theorem prunes_eraseScopes (s : EngineState) (ids : List ScopeId) :
    Prunes s (ids.foldl eraseScope s) := by
  induction ids generalizing s with
  | nil => exact .refl s
  | cons id rest ih => exact (prunes_eraseScope s id).trans (ih _)

theorem cell?_eraseScopes {ids : List ScopeId} {o : Object} (ho : ∀ id ∈ ids, o ≠ .scope id) :
    (ids.foldl eraseScope s).heap.cell? o = s.heap.cell? o := by
  induction ids generalizing s with
  | nil => rfl
  | cons id rest ih =>
    obtain ⟨hne, hrest⟩ := List.forall_mem_cons.mp ho
    rw [List.foldl_cons, ih hrest, cell?_eraseScope, if_neg hne]

/-! ## One sweep -/

/-- The state after everything but scopes has been swept. -/
def pruned (s : EngineState) : EngineState := s.modifyHeap fun h => h.pruned s.marks

theorem sweep_eq (s : EngineState) :
    s.sweep.1 = (s.heap.scopes.unmarked s.marks.scopes).foldl eraseScope s.pruned := rfl

theorem prunes_pruned (s : EngineState) : Prunes s s.pruned where
  held := rfl
  frames := rfl
  pinned := rfl
  notices := rfl
  unused o := by cases o <;> simp [pruned, modifyHeap, Heap.pruned, Heap.Unused]
  cell o := by
    cases o with
    | scope id => exact .inr rfl
    | _ =>
      obtain hnone | hsame := Store.get?_eraseAll _ _ _
      · exact .inl (congrArg (Option.map _) hnone)
      · exact .inr (congrArg (Option.map _) hsame)
  governors _ := rfl

theorem prunes_sweep (s : EngineState) : Prunes s s.sweep.1 :=
  (prunes_pruned s).trans (prunes_eraseScopes _ _)

/-- **What is marked stays.** -/
theorem cell?_sweep {o : Object} (ho : s.marks.Covers o) :
    s.sweep.1.heap.cell? o = s.heap.cell? o := by
  rw [sweep_eq, cell?_eraseScopes]
  · cases o with
    | scope id => rfl
    | _ =>
      exact congrArg (Option.map _) (Store.get?_eraseAll_of_notMem (Store.notMem_unmarked ho))
  · rintro id hid rfl
    exact Store.notMem_unmarked ho hid

/-! ## Sweeping to the end -/

/-- What every sweep keeps, collecting keeps. -/
theorem collect_induction {P : EngineState → Prop} (hsweep : ∀ s, P s → P s.sweep.1) (hs : P s) :
    P s.collect := by
  have hupTo (fuel : Nat) (s : EngineState) (hs : P s) : P (collectUpTo fuel s) := by
    induction fuel generalizing s with
    | zero => exact hs
    | succ fuel ih =>
      have hswept := hsweep s hs
      unfold collectUpTo
      split <;> rename_i s' heq <;> rw [heq] at hswept
      · exact ih s' hswept
      · exact hswept
  unfold collect
  split
  · exact hs
  · exact hupTo _ s hs

theorem prunes_collect (s : EngineState) : Prunes s s.collect :=
  collect_induction (fun s' hs' => hs'.trans (prunes_sweep s')) (.refl s)

end EngineState

/-- The numbers of the objects that are there. -/
def Store.present {α : Type} (store : Store α) : Finset Nat :=
  (Finset.range store.next).filter fun id => (store.get? id).isSome

namespace Store
variable {α : Type} {s : Store α}

theorem mem_present {id : Nat} : id ∈ s.present ↔ (s.get? id).isSome := by
  rw [present, Finset.mem_filter, Finset.mem_range, and_iff_right_iff_imp]
  intro hid
  obtain ⟨a, ha⟩ := Option.isSome_iff_exists.mp hid
  exact lt_next ha

theorem card_present_le (s : Store α) : s.present.card ≤ s.next := by
  have hle := Finset.card_filter_le (Finset.range s.next) fun id => (s.get? id).isSome
  rwa [Finset.card_range] at hle

theorem mem_unmarked {marks : Array Bool} {id : Nat} :
    id ∈ s.unmarked marks ↔ (s.get? id).isSome ∧ marks.getD id true = false := by
  rw [unmarked_eq, List.mem_filter, List.mem_range, Bool.and_eq_true, Bool.not_eq_true',
    and_iff_right_iff_imp]
  rintro ⟨hid, -⟩
  obtain ⟨a, ha⟩ := Option.isSome_iff_exists.mp hid
  exact lt_next ha

theorem get?_eraseAll_of_mem {ids : List Nat} {id : Nat} (hid : id ∈ ids) :
    (s.eraseAll ids).get? id = none := by
  unfold eraseAll
  induction ids generalizing s with
  | nil => cases hid
  | cons i rest ih =>
    rw [List.foldl_cons]
    by_cases hrest : id ∈ rest
    · exact ih hrest
    · obtain rfl | hrest' := List.mem_cons.mp hid
      · have hkept := get?_eraseAll_of_notMem (s := s.erase id) hrest
        rw [eraseAll] at hkept
        rw [hkept, get?_erase_self]
      · exact absurd hrest' hrest

/-- Objects that are taken out are there no longer. -/
theorem card_present_lt (s' : Store α) (ids : List Nat) (hids : ∀ id ∈ ids, (s.get? id).isSome)
    (hgone : ∀ id ∈ ids, s'.get? id = none)
    (hkept : ∀ id, s'.get? id = none ∨ s'.get? id = s.get? id) :
    s'.present.card ≤ s.present.card ∧ (ids ≠ [] → s'.present.card < s.present.card) := by
  have hsubset : s'.present ⊆ s.present := by
    intro id hid
    rw [mem_present] at hid ⊢
    obtain hnone | hsame := hkept id
    · rw [hnone] at hid
      cases hid
    · rwa [← hsame]
  refine ⟨Finset.card_le_card hsubset, fun hne => Finset.card_lt_card ?_⟩
  obtain ⟨id, hid⟩ := List.exists_mem_of_ne_nil ids hne
  refine Finset.ssubset_iff_of_subset hsubset |>.mpr ⟨id, mem_present.mpr (hids id hid), ?_⟩
  rw [mem_present, hgone id hid]
  nofun

end Store

namespace EngineState
variable {s : EngineState}

/-- The number of objects that are there. -/
def population (s : EngineState) : Nat :=
  s.heap.lists.present.card + s.heap.maps.present.card + s.heap.funcs.present.card +
    s.heap.chans.present.card + s.heap.handles.present.card + s.heap.scopes.present.card

theorem population_le (s : EngineState) : s.population ≤ s.objectCount := by
  have hlists := s.heap.lists.card_present_le
  have hmaps := s.heap.maps.card_present_le
  have hfuncs := s.heap.funcs.card_present_le
  have hchans := s.heap.chans.card_present_le
  have hhandles := s.heap.handles.card_present_le
  have hscopes := s.heap.scopes.card_present_le
  unfold population objectCount
  omega

/-- A sweep that finds nothing changes nothing. -/
theorem sweep_of_not_found (hfound : s.sweep.2 = false) : s.sweep.1 = s := by
  unfold sweep at hfound ⊢
  simp only [Bool.not_eq_false', Bool.and_eq_true, List.isEmpty_iff] at hfound
  obtain ⟨⟨⟨⟨⟨hlists, hmaps⟩, hfuncs⟩, hchans⟩, hhandles⟩, hscopes⟩ := hfound
  simp only [hlists, hmaps, hfuncs, hchans, hhandles, hscopes]
  rfl

theorem scopes_eraseScopes_of_mem {ids : List ScopeId} {id : ScopeId} (hid : id ∈ ids) :
    (ids.foldl eraseScope s).heap.scopes.get? id = none := by
  induction ids generalizing s with
  | nil => cases hid
  | cons i rest ih =>
    by_cases hrest : id ∈ rest
    · exact ih hrest
    · obtain rfl | hrest' := List.mem_cons.mp hid
      · have hlater : ∀ other ∈ rest, Object.scope id ≠ .scope other :=
          fun other hother he => hrest (Object.scope.inj he ▸ hother)
        have hgone : (rest.foldl eraseScope (s.eraseScope id)).heap.cell? (.scope id) = none := by
          rw [cell?_eraseScopes hlater, cell?_eraseScope, if_pos rfl]
        exact Option.map_eq_none_iff.mp hgone
      · exact absurd hrest' hrest

/-- Taking out scopes leaves the other stores alone. -/
theorem heap_eraseScopes (s : EngineState) (ids : List ScopeId) :
    ∃ scopes, (ids.foldl eraseScope s).heap = { s.heap with scopes } := by
  induction ids generalizing s with
  | nil => exact ⟨s.heap.scopes, rfl⟩
  | cons id rest ih =>
    obtain ⟨scopes, hrest⟩ := ih (s.eraseScope id)
    refine ⟨scopes, hrest.trans ?_⟩
    unfold eraseScope
    split
    · rfl
    · split <;> rfl

/-- **A sweep that finds something leaves fewer objects.** -/
theorem population_sweep_lt (hfound : s.sweep.2 = true) : s.sweep.1.population < s.population := by
  obtain ⟨scopes, hheap⟩ := heap_eraseScopes s.pruned (s.heap.scopes.unmarked s.marks.scopes)
  rw [← sweep_eq] at hheap
  have hswept {α : Type} (store : Store α) (marks : Array Bool) :=
    Store.card_present_lt (store.eraseAll (store.unmarked marks)) (store.unmarked marks)
      (fun id hid => (Store.mem_unmarked.mp hid).1) (fun id hid => Store.get?_eraseAll_of_mem hid)
      (Store.get?_eraseAll store _)
  have hlists := hswept s.heap.lists s.marks.lists
  have hmaps := hswept s.heap.maps s.marks.maps
  have hfuncs := hswept s.heap.funcs s.marks.funcs
  have hchans := hswept s.heap.chans s.marks.chans
  have hhandles := hswept s.heap.handles s.marks.handles
  have hkept (id : ScopeId) : s.sweep.1.heap.scopes.get? id = none ∨
      s.sweep.1.heap.scopes.get? id = s.heap.scopes.get? id := by
    cases hc : s.sweep.1.heap.scopes.get? id with
    | none => exact .inl rfl
    | some c => exact .inr ((prunes_sweep s).scope_of hc).symm
  have hscopes := Store.card_present_lt s.sweep.1.heap.scopes
    (s.heap.scopes.unmarked s.marks.scopes) (fun id hid => (Store.mem_unmarked.mp hid).1)
    (fun id hid => scopes_eraseScopes_of_mem hid) hkept
  -- If no store had lost an object, the sweep would not have found one.
  by_contra hge
  unfold population at hge
  have hempty : s.heap.lists.unmarked s.marks.lists = [] ∧
      s.heap.maps.unmarked s.marks.maps = [] ∧ s.heap.funcs.unmarked s.marks.funcs = [] ∧
      s.heap.chans.unmarked s.marks.chans = [] ∧ s.heap.handles.unmarked s.marks.handles = [] ∧
      s.heap.scopes.unmarked s.marks.scopes = [] := by
    rw [hheap] at hge hscopes
    simp only [pruned, modifyHeap, Heap.pruned] at hge hscopes
    refine ⟨?_, ?_, ?_, ?_, ?_, ?_⟩ <;> by_contra hne
    · have := hlists.2 hne
      omega
    · have := hmaps.2 hne
      omega
    · have := hfuncs.2 hne
      omega
    · have := hchans.2 hne
      omega
    · have := hhandles.2 hne
      omega
    · have := hscopes.2 hne
      omega
  obtain ⟨h1, h2, h3, h4, h5, h6⟩ := hempty
  unfold sweep at hfound
  simp [h1, h2, h3, h4, h5, h6] at hfound

/-- With fuel for every object, sweeping goes on until there is nothing to take out. -/
theorem sweep_collectUpTo {fuel : Nat} (hfuel : s.population < fuel) :
    (collectUpTo fuel s).sweep = (collectUpTo fuel s, false) := by
  induction fuel generalizing s with
  | zero => cases hfuel
  | succ fuel ih =>
    unfold collectUpTo
    split
    · rename_i s' heq
      have hless := population_sweep_lt (s := s) (by rw [heq])
      rw [heq] at hless
      exact ih (Nat.lt_of_lt_of_le hless (Nat.le_of_lt_succ hfuel))
    · rename_i s' heq
      have hsame := sweep_of_not_found (s := s) (by rw [heq])
      rw [heq] at hsame
      subst hsame
      exact heq

/-- **Collecting twice is collecting once.** -/
theorem collect_collect (s : EngineState) : s.collect.collect = s.collect := by
  by_cases hlingering : s.lingering = 0
  · have hsame : s.collect = s := if_pos hlingering
    rw [hsame, hsame]
  · have hsettled : s.collect.sweep = (s.collect, false) := by
      rw [collect, if_neg hlingering]
      exact sweep_collectUpTo (Nat.lt_succ_of_le s.population_le)
    generalize s.collect = t at hsettled
    unfold collect
    split
    · rfl
    · unfold collectUpTo
      rw [hsettled]

end EngineState
end ScriptEngine
