import ScriptEngine.EngineState.Collect
import ScriptEngine.Proofs.Heap.Preservation

/-! # Collecting garbage keeps the heap well typed

A sweep takes out what nothing refers to.  Whatever a container holds is referred to by that
container, whether or not the container itself stays, so a value in a container that stays never
loses its object, and still conforms.
-/
namespace ScriptEngine

/-! ## Marks -/

namespace Marks

/-- The object is marked. A number beyond the marks counts as marked. -/
def Covers (m : Marks) : Object → Prop
  | .list id => m.lists.getD id true = true
  | .map id => m.maps.getD id true = true
  | .func id => m.funcs.getD id true = true
  | .chan id => m.chans.getD id true = true
  | .handle id => m.handles.getD id true = true
  | .scope id => m.scopes.getD id true = true

theorem getD_set_self (marks : Array Bool) (id : Nat) :
    (marks.setIfInBounds id true).getD id true = true := by
  by_cases hid : id < marks.size <;> simp [Array.getD, hid]

theorem getD_set_of_getD {marks : Array Bool} {i : Nat} (hi : marks.getD i true = true) (id : Nat) :
    (marks.setIfInBounds id true).getD i true = true := by
  by_cases hid : id = i
  · subst hid
    exact getD_set_self marks id
  · simpa [Array.getD_eq_getD_getElem?, Array.getElem?_setIfInBounds_ne hid] using hi

variable {m : Marks} {o : Object}

theorem covers_mark_self (m : Marks) (o : Object) : (m.mark o).Covers o := by
  cases o <;> exact getD_set_self _ _

theorem Covers.mark (hc : m.Covers o) (x : Object) : (m.mark x).Covers o := by
  cases x <;> cases o <;> first | exact hc | exact getD_set_of_getD hc _

theorem Covers.markAll (hc : m.Covers o) (xs : List Object) : (m.markAll xs).Covers o := by
  unfold Marks.markAll
  induction xs generalizing m with
  | nil => exact hc
  | cons x rest ih => exact ih (hc.mark x)

theorem covers_markAll {xs : List Object} (hx : o ∈ xs) : (m.markAll xs).Covers o := by
  induction xs generalizing m with
  | nil => cases hx
  | cons x rest ih =>
    obtain rfl | hx := List.mem_cons.mp hx
    · exact (covers_mark_self m o).markAll rest
    · exact ih hx

variable {α : Type} {store : Store α} {objects : α → List Object}

/-- Marks what the object in a slot refers to. -/
def markSlot (objects : α → List Object) (m : Marks) : Option α → Marks
  | some a => m.markAll (objects a)
  | .none => m

theorem markStore_eq (m : Marks) (store : Store α) (objects : α → List Object) :
    m.markStore store objects = store.slots.toList.foldl (markSlot objects) m := by
  rw [markStore, ← Array.foldl_toList]
  rfl

theorem Covers.markSlots (hc : m.Covers o) (slots : List (Option α)) :
    (slots.foldl (markSlot objects) m).Covers o := by
  induction slots generalizing m with
  | nil => exact hc
  | cons slot rest ih =>
    refine ih ?_
    cases slot with
    | none => exact hc
    | some a => exact hc.markAll _

theorem Covers.markStore (hc : m.Covers o) : (m.markStore store objects).Covers o := by
  rw [markStore_eq]
  exact hc.markSlots _

theorem covers_markStore {id : Nat} {a : α} (ha : store.get? id = some a) (ho : o ∈ objects a) :
    (m.markStore store objects).Covers o := by
  have hmem : some a ∈ store.slots.toList := by
    rw [Store.get?, Option.join_eq_some_iff] at ha
    exact Array.mem_toList_iff.mpr (Array.mem_of_getElem? ha)
  rw [markStore_eq]
  generalize store.slots.toList = slots at hmem
  induction slots generalizing m with
  | nil => cases hmem
  | cons slot rest ih =>
    obtain rfl | hmem := List.mem_cons.mp hmem
    · exact (covers_markAll ho).markSlots rest
    · exact ih hmem

end Marks

theorem mem_objects {vs : List Value} {v : Value} {o : Object} (hv : v ∈ vs)
    (ho : v.object? = some o) : o ∈ Value.objects vs :=
  List.mem_filterMap.mpr ⟨v, hv, ho⟩

/-- The value is in some container of the heap. -/
inductive Heap.Contains (h : Heap) (v : Value) : Prop where
  | list {id : ListId} {c : ListCell} (hc : h.lists.get? id = some c) (hv : v ∈ c.items.toList)
  | map {id : MapId} {c : MapCell} {key : MapKey} (hc : h.maps.get? id = some c)
      (hv : (key, v) ∈ c.entries)
  | chan {id : ChanId} {c : Channel} (hc : h.chans.get? id = some c) (hv : v ∈ c.buffer)
  | struct {id : HandleId} {c : StructCell} (hc : h.handles.get? id = some (.struct c))
      (hv : v ∈ c.values)

/-- **What a container holds is marked.** -/
theorem Heap.Contains.covers {h : Heap} {v : Value} {o : Object} (hc : h.Contains v)
    (ho : v.object? = some o) (m : Marks) : (h.markObjects m).Covers o := by
  unfold Heap.markObjects
  cases hc with
  | list hc hv =>
    exact (Marks.covers_markStore hc (mem_objects hv ho)).markStore.markStore.markStore.markStore
      |>.markStore
  | map hc hv =>
    refine (Marks.covers_markStore hc (mem_objects ?_ ho)).markStore.markStore.markStore.markStore
    exact List.mem_map_of_mem (f := (·.2)) hv
  | chan hc hv => exact (Marks.covers_markStore hc (mem_objects hv ho)).markStore.markStore
  | struct hc hv => exact (Marks.covers_markStore hc (mem_objects hv ho)).markStore

/-! ## Erasing -/

namespace Store
variable {α β : Type} {s : Store α}

theorem get?_erase_of_ne {id other : Nat} (hne : other ≠ id) :
    (s.erase id).get? other = s.get? other := by
  simp [get?, erase, Ne.symm hne]

theorem get?_erase_self (s : Store α) (id : Nat) : (s.erase id).get? id = none := by
  simp only [get?, erase, Array.getElem?_setIfInBounds_self]
  split <;> rfl

@[simp] theorem next_erase (s : Store α) (id : Nat) : (s.erase id).next = s.next := by
  simp [next, erase]

@[simp] theorem next_eraseAll (s : Store α) (ids : List Nat) : (s.eraseAll ids).next = s.next := by
  unfold eraseAll
  induction ids generalizing s with
  | nil => rfl
  | cons id rest ih => rw [List.foldl_cons, ih, next_erase]

/-- What is left was there before. -/
theorem get?_eraseAll (s : Store α) (ids : List Nat) (id : Nat) :
    (s.eraseAll ids).get? id = none ∨ (s.eraseAll ids).get? id = s.get? id := by
  unfold eraseAll
  induction ids generalizing s with
  | nil => exact .inr rfl
  | cons i rest ih =>
    rw [List.foldl_cons]
    obtain hnone | hsame := ih (s.erase i)
    · exact .inl hnone
    · by_cases hid : id = i
      · subst hid
        rw [get?_erase_self] at hsame
        exact .inl hsame
      · rw [get?_erase_of_ne hid] at hsame
        exact .inr hsame

theorem get?_of_eraseAll {ids : List Nat} {id : Nat} {a : α}
    (ha : (s.eraseAll ids).get? id = some a) : s.get? id = some a := by
  obtain hnone | hsame := get?_eraseAll s ids id
  · rw [hnone] at ha
    cases ha
  · exact hsame.symm.trans ha

/-- What is not taken out stays. -/
theorem get?_eraseAll_of_notMem {ids : List Nat} {id : Nat} (hid : id ∉ ids) :
    (s.eraseAll ids).get? id = s.get? id := by
  unfold eraseAll
  induction ids generalizing s with
  | nil => rfl
  | cons i rest ih =>
    rw [List.mem_cons, not_or] at hid
    rw [List.foldl_cons, ih hid.2, get?_erase_of_ne hid.1]

theorem advances_eraseAll (shape : α → β) (s : Store α) (ids : List Nat) :
    s.Advances shape (s.eraseAll ids) where
  next_le := Nat.le_of_eq (next_eraseAll s ids).symm
  kept id _ := by
    obtain hnone | hsame := get?_eraseAll s ids id
    · exact .inl hnone
    · exact .inr (by rw [hsame])

theorem notMem_unmarked {marks : Array Bool} {id : Nat} (hid : marks.getD id true = true) :
    id ∉ s.unmarked marks := by
  rw [unmarked_eq]
  intro hmem
  have hkeep := (List.mem_filter.mp hmem).2
  simp [hid] at hkeep

end Store

/-- A value that loses none of its object conforms to what it conformed to. -/
theorem Conforms.of_kept {σ τ : Shapes} {v : Value} {type : HostType} (hc : Conforms σ v type)
    (hl : ∀ id, v = .list id → τ.lists id = σ.lists id)
    (hm : ∀ id, v = .map id → τ.maps id = σ.maps id)
    (hh : ∀ id, v = .handle id → τ.handles id = σ.handles id) : Conforms τ v type := by
  cases hc with
  | any => exact .any
  | bool => exact .bool
  | int hn => exact .int hn
  | float => exact .float
  | string => exact .string
  | slice hs => exact .slice ((hl _ rfl).trans hs)
  | plainSlice hs => exact .plainSlice ((hl _ rfl).trans hs)
  | array hs => exact .array ((hl _ rfl).trans hs)
  | map hs => exact .map ((hm _ rfl).trans hs)
  | plainMap hs => exact .plainMap ((hm _ rfl).trans hs)
  | chan => exact .chan
  | noChan => exact .noChan
  | func => exact .func
  | noFunc => exact .noFunc
  | struct hs => exact .struct ((hh _ rfl).trans hs)
  | handle hs => exact .handle ((hh _ rfl).trans hs)
  | structHandle hs => exact .structHandle ((hh _ rfl).trans hs)
  | noHandle => exact .noHandle

namespace Heap
variable {h : Heap}

/-- The heap without the objects that are not marked. -/
def pruned (h : Heap) (m : Marks) : Heap :=
  { h with
    lists := h.lists.eraseAll (h.lists.unmarked m.lists)
    maps := h.maps.eraseAll (h.maps.unmarked m.maps)
    funcs := h.funcs.eraseAll (h.funcs.unmarked m.funcs)
    chans := h.chans.eraseAll (h.chans.unmarked m.chans)
    handles := h.handles.eraseAll (h.handles.unmarked m.handles) }

theorem conforms_pruned {m : Marks} {v : Value} {type : HostType}
    (hm : ∀ o, v.object? = some o → m.Covers o) (hc : Conforms h.shapes v type) :
    Conforms (h.pruned m).shapes v type := by
  refine hc.of_kept (fun id hv => ?_) (fun id hv => ?_) fun id hv => ?_
  · subst hv
    show (Store.get? _ id).map _ = _
    rw [pruned, Store.get?_eraseAll_of_notMem (Store.notMem_unmarked (hm _ rfl))]
    rfl
  · subst hv
    show (Store.get? _ id).map _ = _
    rw [pruned, Store.get?_eraseAll_of_notMem (Store.notMem_unmarked (hm _ rfl))]
    rfl
  · subst hv
    show (Store.get? _ id).map _ = _
    rw [pruned, Store.get?_eraseAll_of_notMem (Store.notMem_unmarked (hm _ rfl))]
    rfl

/-- Taking out what is not marked, where at least all that containers hold is. -/
theorem Sound.pruned (hs : h.Sound) {m : Marks}
    (hm : ∀ v o, h.Contains v → v.object? = some o → m.Covers o) : h.Follows (h.pruned m) where
  advances :=
    ⟨Store.advances_eraseAll _ _ _, Store.advances_eraseAll _ _ _, Store.advances_eraseAll _ _ _,
      Store.advances_eraseAll _ _ _⟩
  sound := by
    have hkeep {v : Value} {type : Option HostType} (hv : h.Contains v)
        (hc : ConformsTo h.shapes v type) : ConformsTo (h.pruned m).shapes v type :=
      fun t ht => conforms_pruned (fun o => hm v o hv) (hc t ht)
    refine ⟨⟨fun id c hc v hv => ?_, fun id c hc e he => ?_, fun id o ho => ?_,
      fun id c hc v hv => ?_⟩, fun id f hf => ?_⟩
    · have hold := Store.get?_of_eraseAll hc
      exact hkeep (.list hold hv) (hs.wellTyped.lists id c hold v hv)
    · have hold := Store.get?_of_eraseAll hc
      obtain ⟨hkey, hvalue⟩ := hs.wellTyped.maps id c hold e he
      exact ⟨fun t ht => conforms_key (hkey t ht), hkeep (.map hold he) hvalue⟩
    · have hold := Store.get?_of_eraseAll ho
      cases o with
      | token typeName => trivial
      | struct c =>
        have hfields := hs.wellTyped.handles id _ hold
        refine List.forall₂_iff_zip.mpr ⟨hfields.length_eq, fun {v field} hmem => ?_⟩
        refine conforms_pruned (fun o => hm v o (.struct hold (List.of_mem_zip hmem).1)) ?_
        exact List.forall₂_zip hfields hmem
    · have hold := Store.get?_of_eraseAll hc
      exact hkeep (.chan hold hv) (hs.wellTyped.chans id c hold v hv)
    · exact hs.honest id f (Store.get?_of_eraseAll hf)

end Heap

/-! ## Collecting -/

namespace EngineState
variable {s : EngineState}

theorem follows_eraseScope (hs : s.heap.Sound) (id : ScopeId) :
    s.heap.Follows (s.eraseScope id).heap := by
  unfold eraseScope
  split
  · exact hs.follows
  · split
    · exact hs.scopes _
    · exact hs.scopes _

/-- One step after the other. -/
theorem follows_foldl {β : Type} {f : EngineState → β → EngineState}
    (hf : ∀ (s : EngineState) b, s.heap.Sound → s.heap.Follows (f s b).heap) (hs : s.heap.Sound) (bs : List β) :
    s.heap.Follows (bs.foldl f s).heap := by
  induction bs generalizing s with
  | nil => exact hs.follows
  | cons b rest ih => exact (hf s b hs).trans (ih (hf s b hs).sound)

theorem follows_sweep (hs : s.heap.Sound) : s.heap.Follows s.sweep.1.heap := by
  have hf : s.heap.Follows (s.heap.pruned s.marks) :=
    hs.pruned fun v o hv ho => hv.covers ho _
  exact hf.trans (follows_foldl (s := s.modifyHeap fun h => h.pruned s.marks)
    (fun s id hs => follows_eraseScope hs id) hf.sound _)

theorem follows_collectUpTo (fuel : Nat) (hs : s.heap.Sound) :
    s.heap.Follows (collectUpTo fuel s).heap := by
  induction fuel generalizing s with
  | zero => exact hs.follows
  | succ fuel ih =>
    have hf := follows_sweep hs
    unfold collectUpTo
    split
    · rename_i s' heq
      rw [heq] at hf
      exact hf.trans (ih hf.sound)
    · rename_i s' heq
      rw [heq] at hf
      exact hf

theorem follows_collect (hs : s.heap.Sound) : s.heap.Follows s.collect.heap := by
  unfold collect
  split
  · exact hs.follows
  · exact follows_collectUpTo _ hs

theorem acquire_heap (s : EngineState) (id : GovernorId) : (s.acquire id).2.heap = s.heap := by
  unfold acquire
  simp only
  split <;> rfl

theorem follows_addChild (hs : s.heap.Sound) (parent : ScopeId) :
    s.heap.Follows (s.addChild parent).2.heap := by
  unfold addChild
  simp only
  generalize hs' : (if isTight (s.governor (s.heap.scope parent).governor) = true then s.collect
    else s) = s'
  have hf : s.heap.Follows s'.heap := by
    rw [← hs']
    split
    · exact follows_collect hs
    · exact hs.follows
  have hacquire := acquire_heap s' (s.heap.scope parent).governor
  split
  · rename_i heq
    rw [heq] at hacquire
    rw [hacquire]
    exact hf
  · rename_i heq
    rw [heq] at hacquire
    refine hf.trans ?_
    rw [← hacquire]
    exact (hacquire ▸ hf.sound).scopes _

theorem follows_capture (hs : s.heap.Sound) (scope : ScopeId) :
    s.heap.Follows (s.capture scope).heap := by
  unfold capture
  refine follows_foldl (fun s id hs => ?_) hs _
  exact hs.scopes _

/-! ## Holdings -/

theorem follows_giveBack (hs : s.heap.Sound) (x : Holding) :
    s.heap.Follows (s.giveBack x).heap := by
  cases x with
  | block id =>
    simp only [giveBack]
    split
    · exact hs.follows
    · exact follows_eraseScope hs id
  | receiver chan => exact hs.modifyChan (fun _ _ => rfl) fun _ _ ht => ht
  | _ => exact hs.follows

theorem follows_letGoOf (hs : s.heap.Sound) (task : TaskId) :
    s.heap.Follows (s.letGoOf task).heap := by
  unfold letGoOf
  split
  · rename_i x rest _
    exact follows_giveBack (s := { s with held := s.held.set task rest }) hs x
  · exact hs.follows

end EngineState
end ScriptEngine
