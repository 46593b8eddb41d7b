import ScriptEngine.Access
import ScriptEngine.CoreLibrary
import ScriptEngine.Heap.Build
import ScriptEngine.Proofs.Channel.Conservation
import ScriptEngine.Proofs.Heap.Conversion

/-! # Operations keep the heap well typed

Objects come and go while scripts run, but no object ever changes its shape, and no number is given
out twice: the heap **advances** (`Heap.Advances`).  A heap is **sound** if it is well typed and its
host functions are **honest**, which means that what they build themselves is well typed.  Every
operation that reads or writes containers leads from a sound heap to a sound heap that advances it
(`Heap.Follows`).

An operation may be asked to work on a number that stands for no object.  It then works on an empty
container without declarations, and what it writes goes nowhere, so nothing has to be assumed about
the values that scripts work with.
-/
namespace ScriptEngine

/-! ## Advancing stores -/

namespace Store
variable {α β : Type}

/-- Whatever was known by a number either has the same shape as before or is gone. -/
structure Advances (shape : α → β) (s s' : Store α) : Prop where
  next_le : s.next ≤ s'.next
  kept : ∀ id, id < s.next → s'.get? id = none ∨ (s'.get? id).map shape = (s.get? id).map shape

variable {shape : α → β} {s s' s'' : Store α}

theorem Advances.refl (s : Store α) : s.Advances shape s := ⟨Nat.le_refl _, fun _ _ => .inr rfl⟩

theorem Advances.trans (ha : s.Advances shape s') (ha' : s'.Advances shape s'') :
    s.Advances shape s'' where
  next_le := Nat.le_trans ha.next_le ha'.next_le
  kept id hid := by
    obtain hnone | hsame := ha'.kept id (Nat.lt_of_lt_of_le hid ha.next_le)
    · exact .inl hnone
    · obtain hnone | hsame' := ha.kept id hid
      · rw [hnone, Option.map_none, Option.map_eq_none_iff] at hsame
        exact .inl hsame
      · exact .inr (hsame.trans hsame')

theorem Extends.advances (hx : s.Extends s') : s.Advances shape s' :=
  ⟨hx.next_le, fun id hid => .inr (by rw [hx.get?_eq id hid])⟩

@[simp] theorem next_modify (s : Store α) (id : Nat) (f : α → α) : (s.modify id f).next = s.next := by
  simp [next, modify]

/-- A change that keeps the shape cannot be seen in the shapes. -/
theorem map_get?_modify {i : Nat} {f : α → α} (hf : ∀ a, s.get? i = some a → shape (f a) = shape a)
    (id : Nat) : ((s.modify i f).get? id).map shape = (s.get? id).map shape := by
  by_cases hid : id = i
  · subst hid
    rw [get?_modify_self]
    cases ha : s.get? id with
    | none => rfl
    | some a => exact congrArg some (hf a ha)
  · rw [get?_modify_of_ne hid]

theorem advances_modify {i : Nat} {f : α → α}
    (hf : ∀ a, s.get? i = some a → shape (f a) = shape a) : s.Advances shape (s.modify i f) :=
  ⟨Nat.le_of_eq (next_modify s i f).symm, fun id _ => .inr (map_get?_modify hf id)⟩

end Store

/-! ## Sound heaps -/

mutual

/-- The host functions that a description mentions. -/
def Blueprint.functions : Blueprint → List HostFunction
  | .func f => [f]
  | .list items _ _ => functionsOfAll items
  | .map entries _ _ => functionsOfEntries entries
  | .struct _ fields => functionsOfFields fields
  | .nil | .bool _ | .int _ | .float _ | .str _ | .chan _ _ | .token _ => []

def Blueprint.functionsOfAll : List Blueprint → List HostFunction
  | [] => []
  | b :: rest => b.functions ++ functionsOfAll rest

def Blueprint.functionsOfEntries : List (Blueprint × Blueprint) → List HostFunction
  | [] => []
  | (key, value) :: rest => key.functions ++ value.functions ++ functionsOfEntries rest

def Blueprint.functionsOfFields : List (String × Blueprint) → List HostFunction
  | [] => []
  | (_, value) :: rest => value.functions ++ functionsOfFields rest

end

/-- What a host function builds by itself: the values it gives or throws. -/
def HostAction.built : HostAction → List Blueprint
  | .give results => results
  | .throw value => [value]
  | _ => []

/-- **The host function is honest**: what it builds keeps a well-typed heap well typed, and the
functions that it hands out are honest. -/
inductive HostFunction.Honest : HostFunction → Prop where
  | intro {f : HostFunction}
      (builds : ∀ h vs h', Heap.WellTyped h → h.buildAll f.action.built = .ok (vs, h') →
        h'.WellTyped)
      (handsOut : ∀ g ∈ Blueprint.functionsOfAll f.action.built, g.Honest) : f.Honest

/-- The function is a closure, or honest. -/
def Function.Honest : Function → Prop
  | .script _ _ _ => True
  | .host f => f.Honest

namespace Heap

/-- Every object that is left has the shape it had. -/
structure Advances (h h' : Heap) : Prop where
  lists : h.lists.Advances ListCell.shape h'.lists
  maps : h.maps.Advances MapCell.shape h'.maps
  handles : h.handles.Advances Handle.shape h'.handles
  chans : h.chans.Advances Channel.shape h'.chans

/-- **The heap is sound**: well typed, with honest host functions. -/
structure Sound (h : Heap) : Prop where
  wellTyped : h.WellTyped
  honest : ∀ id f, h.funcs.get? id = some f → f.Honest

/-- What a sound heap turns into. -/
structure Follows (h h' : Heap) : Prop where
  advances : h.Advances h'
  sound : h'.Sound

variable {h h' h'' : Heap}

theorem Advances.refl (h : Heap) : h.Advances h := ⟨.refl _, .refl _, .refl _, .refl _⟩

theorem Advances.trans (ha : h.Advances h') (ha' : h'.Advances h'') : h.Advances h'' where
  lists := ha.lists.trans ha'.lists
  maps := ha.maps.trans ha'.maps
  handles := ha.handles.trans ha'.handles
  chans := ha.chans.trans ha'.chans

theorem Sound.follows (hs : h.Sound) : h.Follows h := ⟨.refl h, hs⟩

theorem Follows.trans (hf : h.Follows h') (hf' : h'.Follows h'') : h.Follows h'' :=
  ⟨hf.advances.trans hf'.advances, hf'.sound⟩

theorem Grows.advances (hg : h.Grows h') : h.Advances h' where
  lists := hg.lists.advances
  maps := hg.maps.advances
  handles := hg.handles.advances
  chans := by rw [hg.chans]; exact .refl _

theorem Sound.grows (hs : h.Sound) (hg : h.Grows h') (ht : h.WellTyped → h'.WellTyped) :
    h.Follows h' where
  advances := hg.advances
  sound := ⟨ht hs.wellTyped, by rw [hg.funcs]; exact hs.honest⟩

/-! ## Changes of one object -/

/-- A number that stands for no list stands for an empty one, so its items conform anyway. -/
theorem WellTyped.list (ht : h.WellTyped) (id : ListId) : (h.list id).Typed h.shapes := by
  unfold Heap.list
  cases hc : h.lists.get? id with
  | none => exact fun v hv => by cases hv
  | some c => exact ht.lists id c hc

theorem shapes_modifyList {id : ListId} {f : ListCell → ListCell}
    (hf : ∀ c, h.lists.get? id = some c → (f c).shape = c.shape) :
    (h.modifyList id f).shapes = h.shapes := by
  simp only [shapes, modifyList]
  congr 1
  funext i
  exact Store.map_get?_modify hf i

theorem Sound.modifyList (hs : h.Sound) {id : ListId} {f : ListCell → ListCell}
    (hf : ∀ c, h.lists.get? id = some c → (f c).shape = c.shape)
    (ht : ∀ c, h.lists.get? id = some c → c.Typed h.shapes → (f c).Typed h.shapes) :
    h.Follows (h.modifyList id f) where
  advances := { Advances.refl h with lists := Store.advances_modify hf }
  sound := by
    refine ⟨?_, hs.honest⟩
    unfold WellTyped
    rw [shapes_modifyList hf]
    refine { lists := fun i c hc => ?_, maps := hs.wellTyped.maps,
             handles := hs.wellTyped.handles, chans := hs.wellTyped.chans }
    obtain hc | ⟨rfl, a, ha, rfl⟩ := Store.get?_modify hc
    · exact hs.wellTyped.lists i c hc
    · exact ht a ha (hs.wellTyped.lists _ a ha)

theorem shapes_modifyMap {id : MapId} {f : MapCell → MapCell}
    (hf : ∀ c, h.maps.get? id = some c → (f c).shape = c.shape) :
    (h.modifyMap id f).shapes = h.shapes := by
  simp only [shapes, modifyMap]
  congr 1
  funext i
  exact Store.map_get?_modify hf i

theorem Sound.modifyMap (hs : h.Sound) {id : MapId} {f : MapCell → MapCell}
    (hf : ∀ c, h.maps.get? id = some c → (f c).shape = c.shape)
    (ht : ∀ c, h.maps.get? id = some c → c.Typed h.shapes → (f c).Typed h.shapes) :
    h.Follows (h.modifyMap id f) where
  advances := { Advances.refl h with maps := Store.advances_modify hf }
  sound := by
    refine ⟨?_, hs.honest⟩
    unfold WellTyped
    rw [shapes_modifyMap hf]
    refine { lists := hs.wellTyped.lists, maps := fun i c hc => ?_,
             handles := hs.wellTyped.handles, chans := hs.wellTyped.chans }
    obtain hc | ⟨rfl, a, ha, rfl⟩ := Store.get?_modify hc
    · exact hs.wellTyped.maps i c hc
    · exact ht a ha (hs.wellTyped.maps _ a ha)

theorem shapes_modifyHandle {id : HandleId} {f : Handle → Handle}
    (hf : ∀ o, h.handles.get? id = some o → (f o).shape = o.shape) :
    (h.modifyHandle id f).shapes = h.shapes := by
  simp only [shapes, modifyHandle]
  congr 1
  funext i
  exact Store.map_get?_modify hf i

theorem Sound.modifyHandle (hs : h.Sound) {id : HandleId} {f : Handle → Handle}
    (hf : ∀ o, h.handles.get? id = some o → (f o).shape = o.shape)
    (ht : ∀ o, h.handles.get? id = some o → o.Typed h.shapes → (f o).Typed h.shapes) :
    h.Follows (h.modifyHandle id f) where
  advances := { Advances.refl h with handles := Store.advances_modify hf }
  sound := by
    refine ⟨?_, hs.honest⟩
    unfold WellTyped
    rw [shapes_modifyHandle hf]
    refine { lists := hs.wellTyped.lists, maps := hs.wellTyped.maps,
             handles := fun i o ho => ?_, chans := hs.wellTyped.chans }
    obtain ho | ⟨rfl, a, ha, rfl⟩ := Store.get?_modify ho
    · exact hs.wellTyped.handles i o ho
    · exact ht a ha (hs.wellTyped.handles _ a ha)

theorem Sound.modifyChan (hs : h.Sound) {id : ChanId} {f : Channel → Channel}
    (hf : ∀ c, h.chans.get? id = some c → (f c).shape = c.shape)
    (ht : ∀ c, h.chans.get? id = some c → c.Typed h.shapes → (f c).Typed h.shapes) :
    h.Follows (h.modifyChan id f) where
  advances := { Advances.refl h with chans := Store.advances_modify hf }
  sound := by
    refine ⟨?_, hs.honest⟩
    show TypedBy h.shapes (h.modifyChan id f)
    refine { lists := hs.wellTyped.lists, maps := hs.wellTyped.maps,
             handles := hs.wellTyped.handles, chans := fun i c hc => ?_ }
    obtain hc | ⟨rfl, a, ha, rfl⟩ := Store.get?_modify hc
    · exact hs.wellTyped.chans i c hc
    · exact ht a ha (hs.wellTyped.chans _ a ha)

/-- Scopes do not matter. -/
theorem Sound.scopes (hs : h.Sound) (scopes : Store Scope) : h.Follows { h with scopes } :=
  ⟨⟨.refl _, .refl _, .refl _, .refl _⟩, ⟨hs.wellTyped.lists, hs.wellTyped.maps,
    hs.wellTyped.handles, hs.wellTyped.chans⟩, hs.honest⟩

theorem scopes_define {id : ScopeId} {name : String} {v : Value}
    (hp : h.define id name v = .ok h') : ∃ scopes, h' = { h with scopes } := by
  obtain ⟨-, -, hp⟩ := Outcome.bind_eq_ok.mp hp
  cases hp
  exact ⟨_, rfl⟩

theorem scopes_assign {id : ScopeId} {name : String} {v : Value}
    (hp : h.assign id name v = .ok h') : ∃ scopes, h' = { h with scopes } := by
  unfold assign at hp
  split at hp
  · cases hp
    exact ⟨_, rfl⟩
  · exact scopes_define hp

theorem scopes_definePackage {id package : ScopeId} {name : String}
    (hp : h.definePackage id name package = .ok h') : ∃ scopes, h' = { h with scopes } := by
  obtain ⟨-, -, hp⟩ := Outcome.bind_eq_ok.mp hp
  cases hp
  exact ⟨_, rfl⟩

/-- Whatever binds names follows. -/
theorem Sound.naming (hs : h.Sound) (hp : ∃ scopes, h' = { h with scopes }) : h.Follows h' := by
  obtain ⟨scopes, rfl⟩ := hp
  exact hs.scopes scopes

theorem Sound.addFunc (hs : h.Sound) {f : Function} (hf : f.Honest) :
    h.Follows (h.addFunc f).2 where
  advances := ⟨.refl _, .refl _, .refl _, .refl _⟩
  sound := by
    refine ⟨⟨hs.wellTyped.lists, hs.wellTyped.maps, hs.wellTyped.handles, hs.wellTyped.chans⟩,
      fun id g hg => ?_⟩
    obtain rfl | hg := Store.get?_push hg
    · exact hf
    · exact hs.honest id g hg

theorem Sound.addChan (hs : h.Sound) {c : Channel} (hc : c.Typed h.shapes) :
    h.Follows (h.addChan c).2 where
  advances := { Advances.refl h with chans := (Store.extends_push _ _).advances }
  sound := by
    refine ⟨⟨hs.wellTyped.lists, hs.wellTyped.maps, hs.wellTyped.handles, fun id d hd => ?_⟩,
      hs.honest⟩
    obtain rfl | hd := Store.get?_push hd
    · exact hc
    · exact hs.wellTyped.chans id d hd

theorem Sound.addList (hs : h.Sound) {c : ListCell} (hc : c.Typed h.shapes) :
    h.Follows (h.addList c).2 :=
  hs.grows (grows_addList h c) fun ht => ht.addList hc

theorem Sound.addMap (hs : h.Sound) {c : MapCell} (hc : c.Typed h.shapes) :
    h.Follows (h.addMap c).2 :=
  hs.grows (grows_addMap h c) fun ht => ht.addMap hc

theorem Sound.addHandle (hs : h.Sound) {o : Handle} (ho : o.Typed h.shapes) :
    h.Follows (h.addHandle o).2 :=
  hs.grows (grows_addHandle h o) fun ht => ht.addHandle ho

/-- A plain list may hold anything. -/
theorem Sound.addPlainList (hs : h.Sound) (items : Array Value) :
    h.Follows (h.addPlainList items).2 :=
  hs.addList fun v _ => conformsTo_none _ v

/-! ## Writes -/

/-- A write that is prepared puts a value of the declared type in its place. -/
def Fitting (h : Heap) : Write → Prop
  | .item id index v => ∀ c, h.lists.get? id = some c →
    ConformsTo h.shapes v c.elemType ∧ (c.fixed = true → index < c.items.size)
  | .entry id key v => ∀ c, h.maps.get? id = some c →
    ConformsTo h.shapes key.toValue c.keyType ∧ ConformsTo h.shapes v c.valueType
  | .field id index v => ∀ c, h.handles.get? id = some (.struct c) →
    ∀ field, c.fields[index]? = some field → Conforms h.shapes v field.2

theorem Sound.perform (hs : h.Sound) {w : Write} (hw : h.Fitting w) : h.Follows (h.perform w) := by
  cases w with
  | item id index v =>
    refine hs.modifyList (fun c hc => ?_) fun c hc ht => ?_
    · split
      · rw [ListCell.shape, Array.size_setIfInBounds]
        rfl
      · rename_i hindex
        have hfixed : c.fixed = false := by
          by_contra hf
          exact hindex ((hw c hc).2 (Bool.of_not_eq_false hf))
        simp only [ListCell.shape, hfixed, Bool.false_eq_true, if_false]
    · intro x hx
      split at hx <;> rename_i hindex
      · rw [if_pos hindex]
        rw [Array.toList_setIfInBounds] at hx
        obtain hx | rfl := List.mem_or_eq_of_mem_set hx
        · exact ht x hx
        · exact (hw c hc).1
      · rw [if_neg hindex]
        rw [Array.toList_push, List.mem_append, List.mem_singleton] at hx
        obtain hx | rfl := hx
        · exact ht x hx
        · exact (hw c hc).1
  | entry id key v =>
    refine hs.modifyMap (fun _ _ => rfl) fun c hc ht e he => ?_
    obtain ⟨hkey, hvalue⟩ := hw c hc
    obtain he | ⟨hev, hek⟩ := MapCell.mem_insertIn he
    · exact ht e he
    · refine ⟨?_, hev ▸ hvalue⟩
      obtain hek | ⟨e', he', hek⟩ := hek
      · exact hek ▸ hkey
      · exact hek ▸ (ht e' he').1
  | field id index v =>
    refine hs.modifyHandle (fun o _ => by cases o <;> rfl) fun o ho ht => ?_
    cases o with
    | token typeName => exact ht
    | struct c =>
      cases hfield : c.fields[index]? with
      | some field => exact forall₂_set ht hfield (hw c ho field hfield)
      | none =>
        -- there is no such field, so there is no value to replace
        have hlen : c.values.length ≤ index := by
          rw [List.Forall₂.length_eq ht]
          exact List.getElem?_eq_none_iff.mp hfield
        show List.Forall₂ _ (c.values.set index v) c.fields
        rw [List.set_eq_of_length_le hlen]
        exact ht

/-- Keys are scalars, so what they conform to does not depend on the heap. -/
theorem conforms_key {σ τ : Shapes} {key : MapKey} {type : HostType}
    (hc : Conforms σ key.toValue type) : Conforms τ key.toValue type := by
  cases key <;> cases hc <;> constructor
  assumption

/-- A write with what has to be known about it: it fits into the heap that it was prepared in. -/
structure Prepared (h : Heap) (r : Write × Heap) : Prop where
  follows : h.Follows r.2
  fitting : r.2.Fitting r.1

theorem Prepared.perform {r : Write × Heap} (hr : Prepared h r) : h.Follows (r.2.perform r.1) :=
  hr.follows.trans (hr.follows.sound.perform hr.fitting)

/-- An element that is converted for a container. -/
theorem Sound.convertTo (hs : h.Sound) {v w : Value} {type : Option HostType}
    (hc : h.convertTo v type = .ok (w, h')) : h.Follows h' ∧ ConformsTo h'.shapes w type :=
  ⟨hs.grows (grows_convertTo hc) (conformsTo_convertTo hc).2, (conformsTo_convertTo hc).1⟩

theorem Sound.convert (hs : h.Sound) {v w : Value} {type : HostType}
    (hc : h.convert v type = .ok (w, h')) : h.Follows h' :=
  hs.grows (grows_convert type hc) (made_convert type hc).wellTyped

/-- A conversion for a list that is not there does nothing, so the list is the one it was. -/
theorem get?_list_convertTo {id : ListId} {v w : Value} {c : ListCell}
    (hv : h.convertTo v (h.list id).elemType = .ok (w, h')) (hc : h'.lists.get? id = some c) :
    h.list id = c := by
  cases hold : h.lists.get? id with
  | none =>
    have hnone : (h.list id).elemType = none := by rw [list, hold]; rfl
    rw [hnone] at hv
    cases hv
    rw [hold] at hc
    cases hc
  | some d =>
    rw [(grows_convertTo hv).lists.get?_some hold] at hc
    cases hc
    exact list_eq hold

theorem prepared_prepareItem (hs : h.Sound) {id : ListId} {index : Int} {v : Value}
    {r : Write × Heap} (hp : h.prepareItem id index v = .ok r) : Prepared h r := by
  obtain ⟨⟨w, h₁⟩, hv, hp⟩ := Outcome.bind_eq_ok.mp hp
  obtain ⟨hf, hw⟩ := hs.convertTo hv
  simp only at hp
  split at hp
  · rename_i hindex
    cases hp
    refine ⟨hf, fun c hc => ?_⟩
    have hlist := get?_list_convertTo hv hc
    have hlist₁ := list_eq hc
    rw [hlist] at hw
    rw [hlist₁] at hindex
    refine ⟨hw, fun hfixed => ?_⟩
    obtain ⟨h0, hlt | ⟨-, hgrow⟩⟩ := hindex
    · omega
    · simp [ListCell.isGrowable, hfixed] at hgrow
  · cases hp

theorem conformsTo_mapKey {id : MapId} {v : Value} {key : MapKey} (hk : h.mapKey id v = .ok key)
    (σ : Shapes) : ConformsTo σ key.toValue (h.map id).keyType := by
  obtain ⟨⟨w, h₁⟩, hv, hk⟩ := Outcome.bind_eq_ok.mp hk
  intro type htype
  have hw := (conformsTo_convertTo hv).1 type htype
  rw [← keyOf_eq_ok hk] at hw
  exact conforms_key hw

theorem prepared_prepareEntry (hs : h.Sound) {id : MapId} {key v : Value} {r : Write × Heap}
    (hp : h.prepareEntry id key v = .ok r) : Prepared h r := by
  obtain ⟨key', hkey, hp⟩ := Outcome.bind_eq_ok.mp hp
  obtain ⟨⟨w, h₁⟩, hv, hp⟩ := Outcome.bind_eq_ok.mp hp
  cases hp
  obtain ⟨hf, hw⟩ := hs.convertTo hv
  refine ⟨hf, fun c hc => ?_⟩
  have hmap : h.map id = c := by
    cases hold : h.maps.get? id with
    | none =>
      have hnone : (h.map id).valueType = none := by rw [map, hold]; rfl
      rw [hnone] at hv
      cases hv
      rw [hold] at hc
      cases hc
    | some d =>
      rw [(grows_convertTo hv).maps.get?_some hold] at hc
      cases hc
      rw [map, hold]
      rfl
  rw [← hmap]
  exact ⟨conformsTo_mapKey hkey _, hw⟩

theorem prepared_prepareField (hs : h.Sound) {id : HandleId} {name : String} {v : Value}
    {r : Write × Heap} (hp : h.prepareField id name v = .ok r) : Prepared h r := by
  unfold prepareField at hp
  cases ho : h.handle id with
  | token typeName =>
    rw [ho] at hp
    cases hp
  | struct c =>
    rw [ho] at hp
    cases hi : c.position? name with
    | none =>
      simp only [hi] at hp
      cases hp
    | some i =>
      simp only [hi] at hp
      obtain ⟨⟨w, h₁⟩, hv, hp⟩ := Outcome.bind_eq_ok.mp hp
      cases hp
      refine ⟨hs.convert hv, fun d hd field hfield => ?_⟩
      have hold : h.handles.get? id = some (.struct c) := by
        cases hold : h.handles.get? id with
        | none =>
          rw [handle, hold] at ho
          cases ho
          cases hi
        | some o =>
          rw [handle, hold] at ho
          exact congrArg some ho
      rw [(grows_convert _ hv).handles.get?_some hold] at hd
      cases hd
      have hmade := (made_convert _ hv).conforms
      rw [List.getD_eq_getElem?_getD, hfield] at hmade
      exact hmade

theorem prepared_prepareIndex (hs : h.Sound) {target index v : Value} {r : Write × Heap}
    (hp : h.prepareIndex target index v = .ok r) : Prepared h r := by
  unfold prepareIndex at hp
  cases target with
  | list id =>
    obtain ⟨i, -, hp⟩ := Outcome.bind_eq_ok.mp hp
    exact prepared_prepareItem hs hp
  | map id => exact prepared_prepareEntry hs hp
  | handle id =>
    cases index with
    | str name => exact prepared_prepareField hs hp
    | _ => cases hp
  | _ => cases hp

theorem prepared_prepareMember (hs : h.Sound) {target v : Value} {name : String}
    {r : Write × Heap} (hp : h.prepareMember target name v = .ok r) : Prepared h r := by
  unfold prepareMember at hp
  cases target with
  | map id => exact prepared_prepareEntry hs hp
  | handle id => exact prepared_prepareField hs hp
  | _ => cases hp

/-! ## Operations on containers -/

theorem follows_storeItem (hs : h.Sound) {id : ListId} {index : Int} {v : Value}
    (hp : h.storeItem id index v = .ok h') : h.Follows h' := by
  obtain ⟨r, hr, hp⟩ := Outcome.bind_eq_ok.mp hp
  cases hp
  exact (prepared_prepareItem hs hr).perform

theorem follows_storeEntry (hs : h.Sound) {id : MapId} {key v : Value}
    (hp : h.storeEntry id key v = .ok h') : h.Follows h' := by
  obtain ⟨r, hr, hp⟩ := Outcome.bind_eq_ok.mp hp
  cases hp
  exact (prepared_prepareEntry hs hr).perform

theorem follows_storeField (hs : h.Sound) {id : HandleId} {name : String} {v : Value}
    (hp : h.storeField id name v = .ok h') : h.Follows h' := by
  obtain ⟨r, hr, hp⟩ := Outcome.bind_eq_ok.mp hp
  cases hp
  exact (prepared_prepareField hs hr).perform

theorem follows_pushItem (hs : h.Sound) {id : ListId} {v : Value}
    (hp : h.pushItem id v = .ok h') : h.Follows h' := by
  unfold pushItem at hp
  split at hp
  · cases hp
  · rename_i hfixed
    obtain ⟨⟨w, h₁⟩, hv, hp⟩ := Outcome.bind_eq_ok.mp hp
    cases hp
    obtain ⟨hf, hw⟩ := hs.convertTo hv
    refine hf.trans (hf.sound.modifyList (fun c hc => ?_) fun c hc ht x hx => ?_)
    · rw [get?_list_convertTo hv hc, Bool.not_eq_true] at hfixed
      simp only [ListCell.shape, hfixed, Bool.false_eq_true, if_false]
    · rw [Array.toList_push, List.mem_append, List.mem_singleton] at hx
      obtain hx | rfl := hx
      · exact ht x hx
      · rw [get?_list_convertTo hv hc] at hw
        exact hw

theorem follows_pushAll {id : ListId} {vs : List Value} (hs : h.Sound)
    (hp : h.pushAll id vs = .ok h') : h.Follows h' := by
  induction vs generalizing h with
  | nil => cases hp; exact hs.follows
  | cons v rest ih =>
    obtain ⟨h₁, h1, hp⟩ := Outcome.bind_eq_ok.mp hp
    have hf := follows_pushItem hs h1
    exact hf.trans (ih hf.sound hp)

theorem follows_append (hs : h.Sound) {target v : Value} {items : List Value}
    (hp : h.append target items = .ok (v, h')) : h.Follows h' := by
  have hnew {source : ListCell} (ht : source.Typed h.shapes)
      (hp : (do return (.list h.lists.next, ← (h.addList source).2.pushAll h.lists.next items)) =
        Except.ok (v, h')) : h.Follows h' := by
    obtain ⟨h₁, h1, hp⟩ := Outcome.bind_eq_ok.mp hp
    cases hp
    have hf := hs.addList ht
    exact hf.trans (follows_pushAll hf.sound h1)
  cases target with
  | nil => exact hnew (fun x hx => by cases hx) hp
  | list id =>
    have ht : { h.list id with fixed := false }.Typed h.shapes := hs.wellTyped.list id
    exact hnew ht hp
  | _ => cases hp

theorem follows_removeEntry (hs : h.Sound) {id : MapId} {key : Value} {old : Option Value}
    (hp : h.removeEntry id key = .ok (old, h')) : h.Follows h' := by
  obtain ⟨key', -, hp⟩ := Outcome.bind_eq_ok.mp hp
  cases hp
  refine hs.modifyMap (fun _ _ => rfl) fun c _ ht e he => ht e ?_
  exact (List.mem_filter.mp he).1

theorem follows_delete (hs : h.Sound) {target key : Value}
    (hp : h.delete target key = .ok h') : h.Follows h' := by
  cases target with
  | map id =>
    obtain ⟨r, hr, hp⟩ := Outcome.bind_eq_ok.mp hp
    cases hp
    exact follows_removeEntry hs hr
  | nil => cases hp; exact hs.follows
  | _ => cases hp

theorem follows_slice (hs : h.Sound) {target v : Value} {start stop : Option Value}
    (hp : h.slice target start stop = .ok (v, h')) : h.Follows h' := by
  cases target with
  | list id =>
    obtain ⟨⟨i, j⟩, -, hp⟩ := Outcome.bind_eq_ok.mp hp
    cases hp
    refine hs.addList fun x hx => hs.wellTyped.list id x ?_
    rw [Array.toList_extract] at hx
    exact List.mem_of_mem_drop (List.mem_of_mem_take hx)
  | str s =>
    obtain ⟨_, -, hp⟩ := Outcome.bind_eq_ok.mp hp
    cases hp
    exact hs.follows
  | _ => cases hp

theorem follows_add (hs : h.Sound) {left right v : Value}
    (hp : h.add left right = .ok (v, h')) : h.Follows h' := by
  unfold add at hp
  split at hp
  · cases hp; exact hs.follows
  · cases hp; exact hs.follows
  · rename_i a b
    cases hp
    refine hs.addList fun x hx => ?_
    split
    · rename_i hsame
      rw [Array.toList_append, List.mem_append] at hx
      obtain hx | hx := hx
      · exact hs.wellTyped.list a x hx
      · rw [hsame]
        exact hs.wellTyped.list b x hx
    · exact conformsTo_none _ x
  · obtain ⟨_, -, hp⟩ := Outcome.bind_eq_ok.mp hp
    cases hp
    exact hs.follows

theorem follows_binary (hs : h.Sound) {op : BinaryOp} {left right v : Value}
    (hp : h.binary op left right = .ok (v, h')) : h.Follows h' := by
  unfold binary at hp
  split at hp
  · exact follows_add hs hp
  · obtain ⟨_, -, hp⟩ := Outcome.bind_eq_ok.mp hp
    cases hp
    exact hs.follows

/-! ## New values -/

theorem follows_zeroValue (hs : h.Sound) (type : HostType) : h.Follows (h.zeroValue type).2 :=
  hs.grows (grows_zeroValue type h) (made_zeroValue type h).wellTyped

theorem follows_zero (hs : h.Sound) {type : HostType} {v : Value}
    (hz : h.zero type = .ok (v, h')) : h.Follows h' :=
  hs.grows (grows_zero hz) (made_zero hz).wellTyped

theorem typed_chanFor (σ : Shapes) (elem : HostType) (capacity : Nat) :
    (chanFor elem capacity).Typed σ :=
  fun v hv => by cases hv

theorem follows_make (hs : h.Sound) {type : HostType} {args : List Value} {v : Value}
    (hp : h.make type args = .ok (v, h')) : h.Follows h' := by
  unfold make at hp
  split at hp
  · rename_i elem
    obtain ⟨len, -, hp⟩ := Outcome.bind_eq_ok.mp hp
    obtain ⟨⟨z, h₁⟩, hz, hp⟩ := Outcome.bind_eq_ok.mp hp
    obtain ⟨items, hitems, hp⟩ := Outcome.bind_eq_ok.mp hp
    cases hp
    have hf := follows_zero hs hz
    refine hf.trans (hf.sound.addList fun x hx => ?_)
    rw [padded_eq_ok hitems, Array.toList_append, List.mem_append, Array.toList_replicate] at hx
    obtain hx | hx := hx
    · cases hx
    · rw [List.eq_of_mem_replicate hx]
      exact (made_zero hz).conforms.to
  · obtain ⟨capacity, -, hp⟩ := Outcome.bind_eq_ok.mp hp
    cases hp
    exact hs.addChan (typed_chanFor _ _ _)
  · exact follows_zero hs hp

/-- A list whose items are converted as it is made. -/
theorem follows_typedItems (hs : h.Sound) {type : HostType} {items ws : List Value}
    (hc : convertItems (fun h v => h.convert v type) h items = .ok (ws, h')) :
    h.Follows (h'.addList ⟨ws.toArray, some type, false⟩).2 := by
  obtain ⟨hws, ht⟩ := made_convertItems (grows_convert type) (made_convert type) hc
  have hf := hs.grows (grows_convertItems (grows_convert type) hc) ht
  exact hf.trans (hf.sound.addList fun x hx => (hws x hx).to)

/-- Arguments are converted one after the other. -/
theorem follows_convertArgs {vs ws : List Value} {types : List HostType} (hs : h.Sound)
    (hc : h.convertArgs vs types = .ok (ws, h')) : h.Follows h' := by
  induction vs generalizing h types ws with
  | nil => cases hc; exact hs.follows
  | cons v rest ih =>
    cases types with
    | nil => cases hc; exact hs.follows
    | cons type types =>
      obtain ⟨⟨w, h₁⟩, h1, hc⟩ := Outcome.bind_eq_ok.mp hc
      obtain ⟨⟨ws', h₂⟩, h2, hc⟩ := Outcome.bind_eq_ok.mp hc
      cases hc
      have hf := hs.convert h1
      exact hf.trans (ih hf.sound h2)

theorem follows_hostArguments (hs : h.Sound) {f : HostFunction} {fixed args : List Value}
    {rest : Option (List Value)} (hc : h.hostArguments f fixed rest = .ok (args, h')) :
    h.Follows h' := by
  obtain ⟨⟨fixed', h₁⟩, h1, hc⟩ := Outcome.bind_eq_ok.mp hc
  have hf := follows_convertArgs hs h1
  cases rest with
  | none => cases hc; exact hf
  | some rest =>
    obtain ⟨⟨packed, h₂⟩, h2, hc⟩ := Outcome.bind_eq_ok.mp hc
    cases hc
    have hp := hf.sound.addPlainList rest.toArray
    exact hf.trans (hp.trans (hp.sound.convert h2))

/-- The value of a call of the host: its results, as they are or converted, are given as nil, as the
only one of them, or as a list. -/
theorem hostResult_cases {f : HostFunction} {results : List Value} {v : Value}
    (hc : h.hostResult f results = .ok (v, h')) :
    ∃ vs h₁, (vs = results ∧ h₁ = h ∨ h.convertArgs results f.returns = .ok (vs, h₁)) ∧
      (v = .nil ∧ h' = h₁ ∨ vs = [v] ∧ h' = h₁ ∨ h₁.addPlainList vs.toArray = (v, h')) := by
  unfold hostResult at hc
  simp only at hc
  split at hc
  · obtain ⟨_, hvs, hc⟩ := Outcome.bind_eq_ok.mp hc
    cases hvs
    refine ⟨results, h, .inl ⟨rfl, rfl⟩, ?_⟩
    simp only at hc
    split at hc <;> cases hc
    · exact .inl ⟨rfl, rfl⟩
    · exact .inr (.inl ⟨rfl, rfl⟩)
    · exact .inr (.inr rfl)
  · split at hc
    · obtain ⟨⟨vs, h₁⟩, hvs, hc⟩ := Outcome.bind_eq_ok.mp hc
      refine ⟨vs, h₁, .inr hvs, ?_⟩
      simp only at hc
      split at hc <;> cases hc
      · exact .inl ⟨rfl, rfl⟩
      · exact .inr (.inl ⟨rfl, rfl⟩)
      · exact .inr (.inr rfl)
    · cases hc

theorem follows_hostResult (hs : h.Sound) {f : HostFunction} {results : List Value} {v : Value}
    (hc : h.hostResult f results = .ok (v, h')) : h.Follows h' := by
  obtain ⟨vs, h₁, hvs, hv⟩ := hostResult_cases hc
  have hf : h.Follows h₁ := by
    obtain ⟨-, rfl⟩ | hvs := hvs
    · exact hs.follows
    · exact follows_convertArgs hs hvs
  obtain ⟨-, rfl⟩ | ⟨-, rfl⟩ | hv := hv
  · exact hf
  · exact hf
  · cases hv
    exact hf.trans (hf.sound.addPlainList _)

/-! ## Channels -/

theorem get?_chan_convertTo {id : ChanId} {v w : Value} {c : Channel}
    (hv : h.chanValue id v = .ok (w, h')) (hc : h'.chans.get? id = some c) : h.chan id = c := by
  rw [chanValue_chans hv] at hc
  rw [chan, hc]
  rfl

/-- Accepting a value that conforms. -/
theorem Sound.accept (hs : h.Sound) {id : ChanId} {v : Value}
    (hv : ∀ c, h.chans.get? id = some c → ConformsTo h.shapes v c.elemType) :
    h.Follows (h.modifyChan id (·.accept v)) := by
  refine hs.modifyChan (fun _ _ => rfl) fun c hc ht x hx => ?_
  rw [Channel.accept, List.mem_append, List.mem_singleton] at hx
  obtain hx | rfl := hx
  · exact ht x hx
  · exact hv c hc

theorem follows_trySend (hs : h.Sound) {id : ChanId} {v : Value} {sent : Bool}
    (hp : h.trySend id v = .ok (sent, h')) : h.Follows h' := by
  obtain ⟨⟨w, h₁⟩, hv, hp⟩ := Outcome.bind_eq_ok.mp hp
  obtain ⟨hf, hw⟩ := hs.convertTo hv
  simp only at hp
  split at hp
  · cases hp
  · split at hp
    · cases hp
      refine hf.trans (hf.sound.accept fun c hc => ?_)
      rw [get?_chan_convertTo hv hc] at hw
      exact hw
    · cases hp; exact hf

theorem follows_tryRecv (hs : h.Sound) {id : ChanId} {r : Option (Value × Bool)}
    (hp : h.tryRecv id = .ok (r, h')) : h.Follows h' := by
  unfold tryRecv at hp
  simp only at hp
  split at hp
  · cases hp
    exact hs.modifyChan (fun _ _ => rfl) fun c _ ht x hx => ht x (List.mem_of_mem_tail hx)
  · split at hp
    · obtain ⟨⟨z, h₁⟩, hz, hp⟩ := Outcome.bind_eq_ok.mp hp
      cases hp
      exact (hs.convertTo hz).1
    · cases hp; exact hs.follows

theorem follows_closeChan (hs : h.Sound) {id : ChanId} (hp : h.closeChan id = .ok h') :
    h.Follows h' := by
  unfold closeChan at hp
  split at hp
  · cases hp
  · cases hp
    exact hs.modifyChan (fun _ _ => rfl) fun _ _ ht => ht

end Heap
end ScriptEngine
