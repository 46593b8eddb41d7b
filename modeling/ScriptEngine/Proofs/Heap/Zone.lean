import ScriptEngine.EngineState.Collect
import ScriptEngine.Proofs.Heap.Preservation

/-! # Zones of the heap

A **zone** is a set of objects.  A heap **encloses** a zone (`Heap.Encloses`) if what the objects of
the zone refer to is in the zone as well, and if all objects that are still to be made will be.  Who
starts with values of the zone then never comes across anything outside: a change of the heap **stays**
in the zone (`Heap.Stays`) if every object outside is as it was, if the zone is still enclosed, and if
no scope comes, goes or changes its governor.

An object outside the zone is one that is protected from whoever works inside it.
-/
namespace ScriptEngine

/-- What the heap keeps for an object. -/
inductive Cell where
  | list (c : ListCell)
  | map (c : MapCell)
  | func (f : Function)
  | chan (c : Channel)
  | handle (o : Handle)
  | scope (c : Scope)

/-- What the object with this content refers to. -/
def Cell.objects : Cell → List Object
  | .list c => Value.objects c.items.toList
  | .map c => Value.objects (c.entries.map (·.2))
  | .func f => f.objects
  | .chan c => Value.objects c.buffer
  | .handle o => o.objects
  | .scope c => c.objects

/-- Who counts the scope, and whether. -/
def Scope.account (c : Scope) : GovernorId × Bool := (c.governor, c.counted)

/-- A set of objects. -/
abbrev Zone := Object → Prop

/-- The value refers to nothing outside the zone. -/
def Value.In (Z : Zone) (v : Value) : Prop := ∀ o, v.object? = some o → Z o

namespace Store
variable {α : Type}

theorem get?_push_eq (s : Store α) (a : α) (id : Nat) :
    (s.push a).get? id = if id = s.next then some a else s.get? id := by
  split
  · subst id
    exact get?_push_next s a
  · exact get?_push_of_ne ‹_›

theorem get?_modify_eq (s : Store α) (i : Nat) (f : α → α) (id : Nat) :
    (s.modify i f).get? id = if id = i then (s.get? i).map f else s.get? id := by
  split
  · subst id
    exact get?_modify_self s i f
  · exact get?_modify_of_ne ‹_›

theorem le_of_push {s : Store α} {a : α} {id : Nat} (hid : (s.push a).next ≤ id) :
    s.next ≤ id :=
  Nat.le_of_succ_le (Nat.le_trans (Nat.le_of_eq (next_push s a).symm) hid)

end Store

namespace Value
variable {Z : Zone}

/-- A value that is no object is of every zone. -/
theorem in_scalar {v : Value} (hv : v.object? = none) : v.In Z := by
  intro o ho
  rw [hv] at ho
  cases ho

@[simp] theorem in_nil : Value.nil.In Z := in_scalar rfl
@[simp] theorem in_bool {b : Bool} : (Value.bool b).In Z := in_scalar rfl
@[simp] theorem in_int {n : Int64} : (Value.int n).In Z := in_scalar rfl
@[simp] theorem in_float {x : Binary64} : (Value.float x).In Z := in_scalar rfl
@[simp] theorem in_str {s : String} : (Value.str s).In Z := in_scalar rfl

@[simp] theorem in_list {id : ListId} : (Value.list id).In Z ↔ Z (.list id) := by
  simp [Value.In, Value.object?]

@[simp] theorem in_map {id : MapId} : (Value.map id).In Z ↔ Z (.map id) := by
  simp [Value.In, Value.object?]

@[simp] theorem in_func {id : FuncId} : (Value.func id).In Z ↔ Z (.func id) := by
  simp [Value.In, Value.object?]

@[simp] theorem in_chan {id : ChanId} : (Value.chan id).In Z ↔ Z (.chan id) := by
  simp [Value.In, Value.object?]

@[simp] theorem in_handle {id : HandleId} : (Value.handle id).In Z ↔ Z (.handle id) := by
  simp [Value.In, Value.object?]

@[simp] theorem in_key {key : MapKey} : key.toValue.In Z := by
  cases key <;> simp [MapKey.toValue]

/-- The values refer to nothing outside the zone. -/
theorem forall_objects {vs : List Value} :
    (∀ o ∈ Value.objects vs, Z o) ↔ ∀ v ∈ vs, v.In Z := by
  constructor
  · exact fun h v hv o ho => h o (List.mem_filterMap.mpr ⟨v, hv, ho⟩)
  · intro h o ho
    obtain ⟨v, hv, ho⟩ := List.mem_filterMap.mp ho
    exact h v hv o ho

end Value

namespace Heap
variable {Z : Zone} {h h' h'' : Heap}

/-- What the heap keeps for this object, if it is there. -/
def cell? (h : Heap) : Object → Option Cell
  | .list id => (h.lists.get? id).map .list
  | .map id => (h.maps.get? id).map .map
  | .func id => (h.funcs.get? id).map .func
  | .chan id => (h.chans.get? id).map .chan
  | .handle id => (h.handles.get? id).map .handle
  | .scope id => (h.scopes.get? id).map .scope

/-- The number of the object has not been given out yet. -/
def Unused (h : Heap) : Object → Prop
  | .list id => h.lists.next ≤ id
  | .map id => h.maps.next ≤ id
  | .func id => h.funcs.next ≤ id
  | .chan id => h.chans.next ≤ id
  | .handle id => h.handles.next ≤ id
  | .scope id => h.scopes.next ≤ id

theorem Unused.cell?_eq_none {o : Object} (ho : h.Unused o) : h.cell? o = none := by
  cases o <;> simp [cell?, Store.get?_eq_none ho]

/-- **The heap encloses the zone**: nothing in it refers to anything outside, and all that is still to
be made will be in it. -/
structure Encloses (h : Heap) (Z : Zone) : Prop where
  unused : ∀ o, h.Unused o → Z o
  closed : ∀ o c, Z o → h.cell? o = some c → ∀ o' ∈ c.objects, Z o'

theorem encloses_all (h : Heap) : h.Encloses fun _ => True :=
  ⟨fun _ _ => trivial, fun _ _ _ _ _ _ => trivial⟩

/-- **The change stays in the zone**, and scopes stay with their governors. -/
structure Stays (Z : Zone) (h h' : Heap) : Prop where
  encloses : h'.Encloses Z
  apart : ∀ o, ¬ Z o → h'.cell? o = h.cell? o
  nextScope : h'.scopes.next = h.scopes.next
  accounts : ∀ id, (h'.scopes.get? id).map Scope.account = (h.scopes.get? id).map Scope.account

theorem Encloses.stays (hz : h.Encloses Z) : h.Stays Z h := ⟨hz, fun _ _ => rfl, rfl, fun _ => rfl⟩

theorem Stays.trans (hs : h.Stays Z h') (hs' : h'.Stays Z h'') : h.Stays Z h'' where
  encloses := hs'.encloses
  apart o ho := (hs'.apart o ho).trans (hs.apart o ho)
  nextScope := hs'.nextScope.trans hs.nextScope
  accounts id := (hs'.accounts id).trans (hs.accounts id)

/-- A change of a single object of the zone. -/
theorem Encloses.put (hz : h.Encloses Z) {x : Object} {d : Option Cell}
    (hcell : ∀ o, h'.cell? o = if o = x then d else h.cell? o)
    (hd : ∀ c, d = some c → ∀ o ∈ c.objects, Z o)
    (hunused : ∀ o, h'.Unused o → h.Unused o) : h'.Encloses Z where
  unused o ho := hz.unused o (hunused o ho)
  closed o c ho hc := by
    rw [hcell] at hc
    split at hc
    · exact hd c hc
    · exact hz.closed o c ho hc

theorem Encloses.stays_put (hz : h.Encloses Z) {x : Object} {d : Option Cell} (hx : Z x)
    (hcell : ∀ o, h'.cell? o = if o = x then d else h.cell? o)
    (hd : ∀ c, d = some c → ∀ o ∈ c.objects, Z o)
    (hunused : ∀ o, h'.Unused o → h.Unused o) (hscopes : h'.scopes = h.scopes) :
    h.Stays Z h' where
  encloses := hz.put hcell hd hunused
  apart o ho := by
    have hne : o ≠ x := fun he => ho (he ▸ hx)
    rw [hcell, if_neg hne]
  nextScope := by rw [hscopes]
  accounts id := by rw [hscopes]

/-! ## New objects -/

theorem cell?_addList (c : ListCell) (o : Object) : (h.addList c).2.cell? o =
    if o = .list h.lists.next then some (.list c) else h.cell? o := by
  cases o <;> simp [cell?, addList, Store.get?_push_eq, apply_ite (Option.map Cell.list)]

theorem cell?_addMap (c : MapCell) (o : Object) : (h.addMap c).2.cell? o =
    if o = .map h.maps.next then some (.map c) else h.cell? o := by
  cases o <;> simp [cell?, addMap, Store.get?_push_eq, apply_ite (Option.map Cell.map)]

theorem cell?_addFunc (f : Function) (o : Object) : (h.addFunc f).2.cell? o =
    if o = .func h.funcs.next then some (.func f) else h.cell? o := by
  cases o <;> simp [cell?, addFunc, Store.get?_push_eq, apply_ite (Option.map Cell.func)]

theorem cell?_addChan (c : Channel) (o : Object) : (h.addChan c).2.cell? o =
    if o = .chan h.chans.next then some (.chan c) else h.cell? o := by
  cases o <;> simp [cell?, addChan, Store.get?_push_eq, apply_ite (Option.map Cell.chan)]

theorem cell?_addHandle (x : Handle) (o : Object) : (h.addHandle x).2.cell? o =
    if o = .handle h.handles.next then some (.handle x) else h.cell? o := by
  cases o <;> simp [cell?, addHandle, Store.get?_push_eq, apply_ite (Option.map Cell.handle)]

/-! ## Changed objects -/

theorem cell?_modifyList (id : ListId) (f : ListCell → ListCell) (o : Object) :
    (h.modifyList id f).cell? o =
      if o = .list id then (h.lists.get? id).map fun a => .list (f a) else h.cell? o := by
  cases o <;> simp [cell?, modifyList, Store.get?_modify_eq, apply_ite (Option.map Cell.list),
    Function.comp_def]

theorem cell?_modifyMap (id : MapId) (f : MapCell → MapCell) (o : Object) :
    (h.modifyMap id f).cell? o =
      if o = .map id then (h.maps.get? id).map fun a => .map (f a) else h.cell? o := by
  cases o <;> simp [cell?, modifyMap, Store.get?_modify_eq, apply_ite (Option.map Cell.map),
    Function.comp_def]

theorem cell?_modifyChan (id : ChanId) (f : Channel → Channel) (o : Object) :
    (h.modifyChan id f).cell? o =
      if o = .chan id then (h.chans.get? id).map fun a => .chan (f a) else h.cell? o := by
  cases o <;> simp [cell?, modifyChan, Store.get?_modify_eq, apply_ite (Option.map Cell.chan),
    Function.comp_def]

theorem cell?_modifyHandle (id : HandleId) (f : Handle → Handle) (o : Object) :
    (h.modifyHandle id f).cell? o =
      if o = .handle id then (h.handles.get? id).map fun a => .handle (f a) else h.cell? o := by
  cases o <;> simp [cell?, modifyHandle, Store.get?_modify_eq, apply_ite (Option.map Cell.handle),
    Function.comp_def]

theorem cell?_modifyScope (id : ScopeId) (f : Scope → Scope) (o : Object) :
    (h.modifyScope id f).cell? o =
      if o = .scope id then (h.scopes.get? id).map fun a => .scope (f a) else h.cell? o := by
  cases o <;> simp [cell?, modifyScope, Store.get?_modify_eq, apply_ite (Option.map Cell.scope),
    Function.comp_def]

/-! ## Changes inside the zone -/

/-- A new object that is no scope. -/
theorem Encloses.made (hz : h.Encloses Z) {x : Object} {c : Cell} (hx : h.Unused x)
    (hcell : ∀ o, h'.cell? o = if o = x then some c else h.cell? o) (hc : ∀ o ∈ c.objects, Z o)
    (hunused : ∀ o, h'.Unused o → h.Unused o) (hscopes : h'.scopes = h.scopes) :
    h.Stays Z h' :=
  hz.stays_put (hz.unused x hx) hcell (fun d hd => by cases hd; exact hc) hunused hscopes

section
variable (hz : h.Encloses Z)
include hz

theorem Encloses.addList {c : ListCell} (hc : ∀ v ∈ c.items.toList, v.In Z) :
    h.Stays Z (h.addList c).2 ∧ (h.addList c).1.In Z := by
  have hnew : h.Unused (.list h.lists.next) := Nat.le_refl _
  refine ⟨hz.made hnew (cell?_addList c) (Value.forall_objects.mpr hc) (fun o ho => ?_) rfl,
    Value.in_list.mpr (hz.unused _ hnew)⟩
  cases o <;> first | exact ho | exact Store.le_of_push ho

theorem Encloses.addMap {c : MapCell} (hc : ∀ e ∈ c.entries, e.2.In Z) :
    h.Stays Z (h.addMap c).2 ∧ (h.addMap c).1.In Z := by
  have hnew : h.Unused (.map h.maps.next) := Nat.le_refl _
  have hvalues : ∀ v ∈ c.entries.map (·.2), v.In Z := List.forall_mem_map.mpr hc
  refine ⟨hz.made hnew (cell?_addMap c) (Value.forall_objects.mpr hvalues) (fun o ho => ?_) rfl,
    Value.in_map.mpr (hz.unused _ hnew)⟩
  cases o <;> first | exact ho | exact Store.le_of_push ho

theorem Encloses.addFunc {f : Function} (hf : ∀ o ∈ f.objects, Z o) :
    h.Stays Z (h.addFunc f).2 ∧ (h.addFunc f).1.In Z := by
  have hnew : h.Unused (.func h.funcs.next) := Nat.le_refl _
  refine ⟨hz.made hnew (cell?_addFunc f) hf (fun o ho => ?_) rfl,
    Value.in_func.mpr (hz.unused _ hnew)⟩
  cases o <;> first | exact ho | exact Store.le_of_push ho

theorem Encloses.addChan {c : Channel} (hc : ∀ v ∈ c.buffer, v.In Z) :
    h.Stays Z (h.addChan c).2 ∧ (h.addChan c).1.In Z := by
  have hnew : h.Unused (.chan h.chans.next) := Nat.le_refl _
  refine ⟨hz.made hnew (cell?_addChan c) (Value.forall_objects.mpr hc) (fun o ho => ?_) rfl,
    Value.in_chan.mpr (hz.unused _ hnew)⟩
  cases o <;> first | exact ho | exact Store.le_of_push ho

theorem Encloses.addHandle {x : Handle} (hx : ∀ o ∈ x.objects, Z o) :
    h.Stays Z (h.addHandle x).2 ∧ (h.addHandle x).1.In Z := by
  have hnew : h.Unused (.handle h.handles.next) := Nat.le_refl _
  refine ⟨hz.made hnew (cell?_addHandle x) hx (fun o ho => ?_) rfl,
    Value.in_handle.mpr (hz.unused _ hnew)⟩
  cases o <;> first | exact ho | exact Store.le_of_push ho

theorem Encloses.modifyList {id : ListId} {f : ListCell → ListCell} (hid : Z (.list id))
    (hf : ∀ c, h.lists.get? id = some c → (∀ v ∈ c.items.toList, v.In Z) →
      ∀ v ∈ (f c).items.toList, v.In Z) : h.Stays Z (h.modifyList id f) := by
  refine hz.stays_put hid (cell?_modifyList id f) (fun d hd => ?_) (fun o ho => ?_) rfl
  · obtain ⟨c, hc, rfl⟩ := Option.map_eq_some_iff.mp hd
    have hold := hz.closed (.list id) (.list c) hid (congrArg (Option.map Cell.list) hc)
    exact Value.forall_objects.mpr (hf c hc (Value.forall_objects.mp hold))
  · cases o <;> simpa [Unused, Heap.modifyList] using ho

theorem Encloses.modifyMap {id : MapId} {f : MapCell → MapCell} (hid : Z (.map id))
    (hf : ∀ c, h.maps.get? id = some c → (∀ e ∈ c.entries, e.2.In Z) →
      ∀ e ∈ (f c).entries, e.2.In Z) : h.Stays Z (h.modifyMap id f) := by
  refine hz.stays_put hid (cell?_modifyMap id f) (fun d hd => ?_) (fun o ho => ?_) rfl
  · obtain ⟨c, hc, rfl⟩ := Option.map_eq_some_iff.mp hd
    have hold := hz.closed (.map id) (.map c) hid (congrArg (Option.map Cell.map) hc)
    refine Value.forall_objects.mpr (List.forall_mem_map.mpr (hf c hc ?_))
    exact List.forall_mem_map.mp (Value.forall_objects.mp hold)
  · cases o <;> simpa [Unused, Heap.modifyMap] using ho

theorem Encloses.modifyChan {id : ChanId} {f : Channel → Channel} (hid : Z (.chan id))
    (hf : ∀ c, h.chans.get? id = some c → (∀ v ∈ c.buffer, v.In Z) → ∀ v ∈ (f c).buffer, v.In Z) :
    h.Stays Z (h.modifyChan id f) := by
  refine hz.stays_put hid (cell?_modifyChan id f) (fun d hd => ?_) (fun o ho => ?_) rfl
  · obtain ⟨c, hc, rfl⟩ := Option.map_eq_some_iff.mp hd
    have hold := hz.closed (.chan id) (.chan c) hid (congrArg (Option.map Cell.chan) hc)
    exact Value.forall_objects.mpr (hf c hc (Value.forall_objects.mp hold))
  · cases o <;> simpa [Unused, Heap.modifyChan] using ho

theorem Encloses.modifyHandle {id : HandleId} {f : Handle → Handle} (hid : Z (.handle id))
    (hf : ∀ x, h.handles.get? id = some x → (∀ o ∈ x.objects, Z o) → ∀ o ∈ (f x).objects, Z o) :
    h.Stays Z (h.modifyHandle id f) := by
  refine hz.stays_put hid (cell?_modifyHandle id f) (fun d hd => ?_) (fun o ho => ?_) rfl
  · obtain ⟨x, hx, rfl⟩ := Option.map_eq_some_iff.mp hd
    exact hf x hx (hz.closed (.handle id) (.handle x) hid (congrArg (Option.map Cell.handle) hx))
  · cases o <;> simpa [Unused, Heap.modifyHandle] using ho

/-- A scope that stays with its governor. -/
theorem Encloses.modifyScope {id : ScopeId} {f : Scope → Scope} (hid : Z (.scope id))
    (haccount : ∀ c, (f c).account = c.account)
    (hf : ∀ c, h.scopes.get? id = some c → (∀ o ∈ c.objects, Z o) → ∀ o ∈ (f c).objects, Z o) :
    h.Stays Z (h.modifyScope id f) where
  encloses := by
    refine hz.put (cell?_modifyScope id f) (fun d hd => ?_) (fun o ho => ?_)
    · obtain ⟨c, hc, rfl⟩ := Option.map_eq_some_iff.mp hd
      exact hf c hc (hz.closed (.scope id) (.scope c) hid (congrArg (Option.map Cell.scope) hc))
    · cases o <;> simpa [Unused, Heap.modifyScope] using ho
  apart o ho := by
    have hne : o ≠ .scope id := fun he => ho (he ▸ hid)
    rw [cell?_modifyScope, if_neg hne]
  nextScope := Store.next_modify _ _ _
  accounts other := by
    simp only [Heap.modifyScope, Store.get?_modify_eq]
    split
    · subst other
      rw [Option.map_map]
      exact congrFun (congrArg _ (funext haccount)) _
    · rfl

end

/-! ## Looking at objects of the zone -/

section
variable (hz : h.Encloses Z)
include hz

theorem Encloses.items {id : ListId} (hid : Z (.list id)) :
    ∀ v ∈ (h.list id).items.toList, v.In Z := by
  rw [list]
  cases hc : h.lists.get? id with
  | none => exact List.forall_mem_nil _
  | some c =>
    exact Value.forall_objects.mp
      (hz.closed (.list id) (.list c) hid (congrArg (Option.map Cell.list) hc))

theorem Encloses.entries {id : MapId} (hid : Z (.map id)) :
    ∀ e ∈ (h.map id).entries, e.2.In Z := by
  rw [map]
  cases hc : h.maps.get? id with
  | none => exact List.forall_mem_nil _
  | some c =>
    have hall := Value.forall_objects.mp
      (hz.closed (.map id) (.map c) hid (congrArg (Option.map Cell.map) hc))
    exact List.forall_mem_map.mp hall

theorem Encloses.buffer {id : ChanId} (hid : Z (.chan id)) : ∀ v ∈ (h.chan id).buffer, v.In Z := by
  rw [chan]
  cases hc : h.chans.get? id with
  | none => exact List.forall_mem_nil _
  | some c =>
    exact Value.forall_objects.mp
      (hz.closed (.chan id) (.chan c) hid (congrArg (Option.map Cell.chan) hc))

theorem Encloses.func {id : FuncId} (hid : Z (.func id)) : ∀ o ∈ (h.func id).objects, Z o := by
  rw [Heap.func]
  cases hf : h.funcs.get? id with
  | none => exact List.forall_mem_nil _
  | some f => exact hz.closed (.func id) (.func f) hid (congrArg (Option.map Cell.func) hf)

theorem Encloses.handle {id : HandleId} (hid : Z (.handle id)) :
    ∀ o ∈ (h.handle id).objects, Z o := by
  rw [Heap.handle]
  cases hx : h.handles.get? id with
  | none => exact List.forall_mem_nil _
  | some x => exact hz.closed (.handle id) (.handle x) hid (congrArg (Option.map Cell.handle) hx)

theorem Encloses.scope {id : ScopeId} (hid : Z (.scope id)) : ∀ o ∈ (h.scope id).objects, Z o := by
  rw [Heap.scope]
  cases hc : h.scopes.get? id with
  | none => exact List.forall_mem_nil _
  | some c => exact hz.closed (.scope id) (.scope c) hid (congrArg (Option.map Cell.scope) hc)

theorem Encloses.vars {id : ScopeId} (hid : Z (.scope id)) :
    ∀ v ∈ (h.scope id).vars.values, v.In Z :=
  Value.forall_objects.mp fun o ho =>
    hz.scope hid o (List.mem_append_left _ (List.mem_append_left _ ho))

theorem Encloses.packages {id p : ScopeId} (hid : Z (.scope id))
    (hp : p ∈ (h.scope id).packages.values) : Z (.scope p) :=
  hz.scope hid _ (List.mem_append_left _ (List.mem_append_right _ (List.mem_map_of_mem hp)))

theorem Encloses.parent {id p : ScopeId} (hid : Z (.scope id)) (hp : (h.scope id).parent = some p) :
    Z (.scope p) := by
  refine hz.scope hid _ (List.mem_append_right _ (List.mem_map_of_mem ?_))
  rw [hp]
  exact List.mem_singleton_self p

/-- The scopes around a scope of the zone are in the zone. -/
theorem Encloses.chain {id : ScopeId} (hid : Z (.scope id)) : ∀ i ∈ h.chain id, Z (.scope i) := by
  unfold Heap.chain
  generalize id + 1 = fuel
  induction fuel generalizing id with
  | zero => exact List.forall_mem_nil _
  | succ fuel ih =>
    intro i hi
    obtain rfl | hi := List.mem_cons.mp hi
    · exact hid
    · cases hp : (h.scope id).parent with
      | none =>
        rw [hp] at hi
        cases hi
      | some p =>
        rw [hp] at hi
        exact ih (hz.parent hid hp) i hi

end

end Heap
end ScriptEngine
