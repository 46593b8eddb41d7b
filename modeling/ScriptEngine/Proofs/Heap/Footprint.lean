import ScriptEngine.Evaluator.Call
import ScriptEngine.Proofs.Heap.Zone

/-! # What operations on the heap touch

Every operation that evaluation performs on the heap touches only what it gets to see: if its operands
are of a zone that the heap encloses, then the change stays in the zone, and so do the values that come
out.  Reading a part of a value of the zone gives a value of the zone; converting, building and slicing
make new objects out of such values; writing changes an object of the zone.  The proofs follow the
recursion of the operations.
-/
namespace ScriptEngine

variable {Z : Zone}

/-- What is written is of the zone, and so is the place. -/
def Write.In (Z : Zone) : Write → Prop
  | .item id _ v => Z (.list id) ∧ v.In Z
  | .entry id _ v => Z (.map id) ∧ v.In Z
  | .field id _ v => Z (.handle id) ∧ v.In Z

theorem MapCell.insertIn_in {key : MapKey} {v : Value} {es : List (MapKey × Value)} (hv : v.In Z)
    (hes : ∀ e ∈ es, e.2.In Z) : ∀ e ∈ MapCell.insertIn key v es, e.2.In Z := by
  intro e he
  obtain he | ⟨rfl, -⟩ := MapCell.mem_insertIn he
  · exact hes e he
  · exact hv

theorem MapCell.findIn_in {key : MapKey} {v : Value} {es : List (MapKey × Value)}
    (hes : ∀ e ∈ es, e.2.In Z) (hv : MapCell.findIn key es = some v) : v.In Z := by
  induction es with
  | nil => cases hv
  | cons e rest ih =>
    unfold MapCell.findIn at hv
    split at hv
    · cases hv
      exact hes e List.mem_cons_self
    · exact ih (fun x hx => hes x (List.mem_cons_of_mem e hx)) hv

theorem Bindings.findEntry_mem {α : Type} {name : String} {a : α} {es : List (String × α)}
    (ha : Bindings.findEntry name es = some a) : a ∈ es.map (·.2) := by
  induction es with
  | nil => cases ha
  | cons e rest ih =>
    unfold Bindings.findEntry at ha
    split at ha
    · cases ha
      exact List.mem_cons_self
    · exact List.mem_cons_of_mem _ (ih ha)

theorem Bindings.mem_values_insert {α : Type} {b : Bindings α} {name : String} {a x : α}
    (hx : x ∈ (b.insert name a).values) : x = a ∨ x ∈ b.values := by
  unfold Bindings.values Bindings.insert at *
  generalize b.entries = es at *
  induction es with
  | nil => exact .inl (List.mem_singleton.mp hx)
  | cons e rest ih =>
    unfold Bindings.insertEntry at hx
    split at hx
    · obtain rfl | hx := List.mem_cons.mp hx
      · exact .inl rfl
      · exact .inr (List.mem_cons_of_mem _ hx)
    · obtain rfl | hx := List.mem_cons.mp hx
      · exact .inr List.mem_cons_self
      · exact (ih hx).imp_right (List.mem_cons_of_mem _)

namespace Heap
variable {h h' : Heap}

/-! ## Zero values -/

mutual

theorem stays_zeroValue : ∀ (type : HostType) {h : Heap}, h.Encloses Z →
    h.Stays Z (h.zeroValue type).2 ∧ (h.zeroValue type).1.In Z
  | .any, h, hz | .func, h, hz | .chan _, h, hz | .handle _, h, hz
  | .bool, h, hz | .int _, h, hz | .float _, h, hz | .string, h, hz => ⟨hz.stays, Value.in_scalar rfl⟩
  | .slice elem, h, hz => hz.addList (List.forall_mem_nil _)
  | .array elem len, h, hz => by
    obtain ⟨hs, hv⟩ := stays_zeroValue elem hz
    obtain ⟨hs', hw⟩ := hs.encloses.addList (c := ⟨Array.replicate len _, some elem, true⟩)
      fun v hv' => by
        rw [Array.toList_replicate] at hv'
        exact List.eq_of_mem_replicate hv' ▸ hv
    exact ⟨hs.trans hs', hw⟩
  | .map key value, h, hz => hz.addMap (List.forall_mem_nil _)
  | .struct name fields, h, hz => by
    obtain ⟨hs, hvs⟩ := stays_zeroValues fields hz
    obtain ⟨hs', hw⟩ := hs.encloses.addHandle (x := .struct ⟨name, fields, _⟩)
      (Value.forall_objects.mpr hvs)
    exact ⟨hs.trans hs', hw⟩

theorem stays_zeroValues : ∀ (fields : List (String × HostType)) {h : Heap}, h.Encloses Z →
    h.Stays Z (h.zeroValues fields).2 ∧ ∀ v ∈ (h.zeroValues fields).1, v.In Z
  | [], h, hz => ⟨hz.stays, List.forall_mem_nil _⟩
  | (_, type) :: rest, h, hz => by
    obtain ⟨hs, hv⟩ := stays_zeroValue type hz
    obtain ⟨hs', hvs⟩ := stays_zeroValues rest hs.encloses
    exact ⟨hs.trans hs', List.forall_mem_cons.mpr ⟨hv, hvs⟩⟩

end

theorem stays_zero (hz : h.Encloses Z) {type : HostType} {v : Value}
    (hp : h.zero type = .ok (v, h')) : h.Stays Z h' ∧ v.In Z := by
  have hzero := stays_zeroValue type hz
  rw [← zero_eq_ok hp] at hzero
  exact hzero

/-! ## Conversion -/

/-- The function turns values of the zone into values of the zone. -/
def Sends (Z : Zone) (f : Heap → Value → Outcome (Value × Heap)) : Prop :=
  ∀ {h v w h'}, h.Encloses Z → v.In Z → f h v = .ok (w, h') → h.Stays Z h' ∧ w.In Z

theorem stays_convertItems {f : Heap → Value → Outcome (Value × Heap)} (hf : Sends Z f) :
    ∀ {vs ws : List Value} {h h' : Heap}, h.Encloses Z → (∀ v ∈ vs, v.In Z) →
      convertItems f h vs = .ok (ws, h') → h.Stays Z h' ∧ ∀ w ∈ ws, w.In Z
  | [], ws, h, h', hz, hvs, hc => by
    cases hc
    exact ⟨hz.stays, List.forall_mem_nil _⟩
  | v :: rest, ws, h, h', hz, hvs, hc => by
    obtain ⟨⟨w, h₁⟩, h1, hc⟩ := Outcome.bind_eq_ok.mp hc
    obtain ⟨⟨ws', h₂⟩, h2, hc⟩ := Outcome.bind_eq_ok.mp hc
    cases hc
    obtain ⟨hv, hrest⟩ := List.forall_mem_cons.mp hvs
    obtain ⟨hs, hw⟩ := hf hz hv h1
    obtain ⟨hs', hws⟩ := stays_convertItems hf hs.encloses hrest h2
    exact ⟨hs.trans hs', List.forall_mem_cons.mpr ⟨hw, hws⟩⟩

theorem stays_convertEntries {f g : Heap → Value → Outcome (Value × Heap)} (hf : Sends Z f)
    (hg : Sends Z g) : ∀ {es stored entries : List (MapKey × Value)} {h h' : Heap},
      h.Encloses Z → (∀ e ∈ es, e.2.In Z) → (∀ e ∈ stored, e.2.In Z) →
      convertEntries f g h stored es = .ok (entries, h') →
      h.Stays Z h' ∧ ∀ e ∈ entries, e.2.In Z
  | [], stored, entries, h, h', hz, hes, hstored, hc => by
    cases hc
    exact ⟨hz.stays, hstored⟩
  | (key, value) :: rest, stored, entries, h, h', hz, hes, hstored, hc => by
    obtain ⟨⟨k, h₁⟩, h1, hc⟩ := Outcome.bind_eq_ok.mp hc
    obtain ⟨key', -, hc⟩ := Outcome.bind_eq_ok.mp hc
    obtain ⟨⟨v, h₂⟩, h2, hc⟩ := Outcome.bind_eq_ok.mp hc
    obtain ⟨hvalue, hrest⟩ := List.forall_mem_cons.mp hes
    obtain ⟨hs, -⟩ := hf hz Value.in_key h1
    obtain ⟨hs', hv⟩ := hg hs.encloses hvalue h2
    obtain ⟨hs'', hall⟩ := stays_convertEntries hf hg hs'.encloses hrest
      (MapCell.insertIn_in hv hstored) hc
    exact ⟨hs.trans (hs'.trans hs''), hall⟩

theorem stays_fillFields {f : Heap → List Value → String → Value → Outcome (List Value × Heap)}
    (hf : ∀ {h vs n v ws h'}, h.Encloses Z → (∀ x ∈ vs, x.In Z) → v.In Z →
      f h vs n v = .ok (ws, h') → h.Stays Z h' ∧ ∀ x ∈ ws, x.In Z)
    {failure : Outcome (List Value × Heap)} (hfail : ∀ r, failure ≠ .ok r) :
    ∀ {es : List (MapKey × Value)} {h h' : Heap} {vs ws : List Value}, h.Encloses Z →
      (∀ e ∈ es, e.2.In Z) → (∀ x ∈ vs, x.In Z) → fillFields f failure h vs es = .ok (ws, h') →
      h.Stays Z h' ∧ ∀ x ∈ ws, x.In Z
  | [], h, h', vs, ws, hz, hes, hvs, hc => by
    cases hc
    exact ⟨hz.stays, hvs⟩
  | (key, v) :: rest, h, h', vs, ws, hz, hes, hvs, hc => by
    cases key with
    | str field =>
      obtain ⟨⟨vs', h₁⟩, h1, hc⟩ := Outcome.bind_eq_ok.mp hc
      obtain ⟨hv, hrest⟩ := List.forall_mem_cons.mp hes
      obtain ⟨hs, hvs'⟩ := hf hz hvs hv h1
      obtain ⟨hs', hws⟩ := stays_fillFields hf hfail hs.encloses hrest hvs' hc
      exact ⟨hs.trans hs', hws⟩
    | _ => exact absurd hc (hfail _)

/-- Padding an array with a value. -/
theorem padded_in {items : List Value} {len : Nat} {v : Value} {padding : Array Value}
    (hitems : ∀ x ∈ items, x.In Z) (hv : v.In Z) (hp : padded items len v = .ok padding) :
    ∀ x ∈ padding.toList, x.In Z := by
  intro x hx
  rw [padded_eq_ok hp, Array.toList_append, List.mem_append, Array.toList_replicate] at hx
  obtain hx | hx := hx
  · exact hitems x hx
  · exact List.eq_of_mem_replicate hx ▸ hv

/-- A value that passes for one of a type is that value, or refers to nothing. -/
theorem Adapts.in {type : HostType} {v w : Value} (ha : h.Adapts v type w) (hv : v.In Z) :
    w.In Z := by
  cases ha with
  | bool | int | cut | double | float | single | rounded | string => exact Value.in_scalar rfl
  | _ => exact hv

/-- **Conversion stays in the zone of the value.** -/
theorem stays_convert (type : HostType) : Sends Z fun h v => h.convert v type := by
  induction type using HostType.induct with
  | parts type ih =>
    intro h v w h' hz hv hc
    have hconversion := conversion h v type
    rw [show h.convert v type = _ from hc] at hconversion
    generalize ho : Except.ok (w, h') = o at hconversion
    cases hconversion with
    | adapts _ ha =>
      cases ho
      exact ⟨hz.stays, ha.in hv⟩
    | mismatch => cases ho
    | zero => exact stays_zero hz ho.symm
    | slice id elem =>
      obtain ⟨⟨items, h₁⟩, h1, ho⟩ := Outcome.bind_eq_ok.mp ho.symm
      cases ho
      obtain ⟨hs, hitems⟩ := stays_convertItems (ih elem (by simp [HostType.parts])) hz
        (hz.items (Value.in_list.mp hv)) (Outcome.orMismatch_eq_ok h1)
      obtain ⟨hs', hw⟩ := hs.encloses.addList (c := ⟨items.toArray, some elem, false⟩) hitems
      exact ⟨hs.trans hs', hw⟩
    | @array id elem len _ =>
      obtain ⟨⟨items, h₁⟩, h1, ho⟩ := Outcome.bind_eq_ok.mp ho.symm
      obtain ⟨⟨z, h₂⟩, h2, ho⟩ := Outcome.bind_eq_ok.mp ho
      obtain ⟨padding, hpad, ho⟩ := Outcome.bind_eq_ok.mp ho
      cases ho
      obtain ⟨hs, hitems⟩ := stays_convertItems (ih elem (by simp [HostType.parts])) hz
        (hz.items (Value.in_list.mp hv)) (Outcome.orMismatch_eq_ok h1)
      obtain ⟨hs', hzero⟩ := stays_zero hs.encloses h2
      obtain ⟨hs'', hw⟩ := hs'.encloses.addList (c := ⟨padding, some elem, true⟩)
        (padded_in hitems hzero hpad)
      exact ⟨hs.trans (hs'.trans hs''), hw⟩
    | map id key value =>
      obtain ⟨⟨entries, h₁⟩, h1, ho⟩ := Outcome.bind_eq_ok.mp ho.symm
      cases ho
      obtain ⟨hs, hentries⟩ := stays_convertEntries (ih key (by simp [HostType.parts]))
        (ih value (by simp [HostType.parts])) hz (hz.entries (Value.in_map.mp hv))
        (by exact List.forall_mem_nil _) (Outcome.orMismatch_eq_ok h1)
      obtain ⟨hs', hw⟩ := hs.encloses.addMap (c := ⟨entries, some key, some value⟩) hentries
      exact ⟨hs.trans hs', hw⟩
    | struct id name fields =>
      obtain ⟨⟨values, h₁⟩, h1, ho⟩ := Outcome.bind_eq_ok.mp ho.symm
      obtain ⟨⟨values', h₂⟩, h2, ho⟩ := Outcome.bind_eq_ok.mp ho
      cases ho
      have hzero := stays_zeroValues fields hz
      rw [← zeroFields_eq_ok h1] at hzero
      obtain ⟨hs, hvalues⟩ := hzero
      have hset {h h' : Heap} {vs ws : List Value} {n : String} {v : Value} (hz : h.Encloses Z)
          (hvs : ∀ x ∈ vs, x.In Z) (hv : v.In Z)
          (hset : h.setField name fields 0 n v vs = .ok (ws, h')) :
          h.Stays Z h' ∧ ∀ x ∈ ws, x.In Z := by
        obtain ⟨k, n, type, w, hk, hw, rfl⟩ := setField_eq_ok hset
        obtain ⟨hs, hin⟩ := ih type (HostType.mem_parts (List.mem_of_getElem? hk)) hz hv hw
        refine ⟨hs, fun x hx => ?_⟩
        obtain hx | rfl := List.mem_or_eq_of_mem_set hx
        · exact hvs x hx
        · exact hin
      obtain ⟨hs', hvalues'⟩ := stays_fillFields hset (mismatch_ne_ok _ _ _)
        hs.encloses (hz.entries (Value.in_map.mp hv)) hvalues h2
      obtain ⟨hs'', hw⟩ := hs'.encloses.addHandle (x := .struct ⟨name, fields, values'⟩)
        (Value.forall_objects.mpr hvalues')
      exact ⟨hs.trans (hs'.trans hs''), hw⟩

theorem stays_convertTo {type : Option HostType} : Sends Z fun h v => h.convertTo v type := by
  intro h v w h' hz hv hc
  cases type with
  | none => cases hc; exact ⟨hz.stays, hv⟩
  | some type => exact stays_convert type hz hv hc

/-! ## Reading -/

section
variable (hz : h.Encloses Z)
include hz

theorem find?_in {id : MapId} {key : MapKey} {v : Value} (hid : Z (.map id))
    (hv : (h.map id).find? key = some v) : v.In Z :=
  MapCell.findIn_in (hz.entries hid) hv

/-- What is stored behind a key, or nil. -/
theorem findD_in {id : MapId} (key : MapKey) (hid : Z (.map id)) :
    (((h.map id).find? key).getD .nil).In Z := by
  cases hv : (h.map id).find? key with
  | none => exact Value.in_scalar rfl
  | some v => exact find?_in hz hid hv

theorem stored?_in {id : MapId} {key v : Value} (hid : Z (.map id))
    (hp : h.stored? id key = .ok (some v)) : v.In Z := by
  obtain ⟨k, -, hp⟩ := Outcome.bind_eq_ok.mp hp
  cases hfind : (h.map id).find? k with
  | none => rw [hfind] at hp; cases hp
  | some w =>
    rw [hfind] at hp
    cases hp
    exact find?_in hz hid hfind

theorem field_in {id : HandleId} {name : String} {v : Value} (hid : Z (.handle id))
    (hp : h.field id name = .ok v) : v.In Z := by
  have hobjects := hz.handle hid
  unfold field at hp
  split at hp
  · rename_i c hc
    rw [hc] at hobjects
    split at hp
    · rename_i w hw
      cases hp
      obtain ⟨i, -, rfl⟩ := Option.map_eq_some_iff.mp hw
      rw [List.getD_eq_getElem?_getD]
      cases hi : c.values[i]? with
      | none => exact Value.in_scalar rfl
      | some w => exact Value.forall_objects.mp hobjects w (List.mem_of_getElem? hi)
    · cases hp
  · cases hp

theorem index_in {target index v : Value} (ht : target.In Z) (hp : h.index target index = .ok v) :
    v.In Z := by
  cases target with
  | list id =>
    obtain ⟨n, -, hp⟩ := Outcome.bind_eq_ok.mp hp
    obtain ⟨i, -, hp⟩ := Outcome.bind_eq_ok.mp hp
    cases hp
    have hitems := hz.items (Value.in_list.mp ht)
    rw [Array.getD_eq_getD_getElem?]
    cases hi : (h.list id).items[i]? with
    | none => exact Value.in_scalar rfl
    | some w => exact hitems w (Array.mem_toList_iff.mpr (Array.mem_of_getElem? hi))
  | str s =>
    obtain ⟨n, -, hp⟩ := Outcome.bind_eq_ok.mp hp
    obtain ⟨i, -, hp⟩ := Outcome.bind_eq_ok.mp hp
    cases hp
    exact Value.in_scalar rfl
  | map id =>
    obtain ⟨w, hw, hp⟩ := Outcome.bind_eq_ok.mp hp
    cases hp
    cases w with
    | none => exact Value.in_scalar rfl
    | some w => exact stored?_in hz (Value.in_map.mp ht) hw
  | handle id =>
    cases index with
    | str name => exact field_in hz (Value.in_handle.mp ht) hp
    | _ => cases hp
  | _ => cases hp

theorem member_in {target v : Value} {name : String} (ht : target.In Z)
    (hp : h.member target name = .ok v) : v.In Z := by
  cases target with
  | map id =>
    cases hp
    exact findD_in hz _ (Value.in_map.mp ht)
  | handle id => exact field_in hz (Value.in_handle.mp ht) hp
  | _ => cases hp

/-- What a name stands for in a scope of the zone. -/
theorem lookup?_in {id : ScopeId} {name : String} {v : Value} (hid : Z (.scope id))
    (hv : h.lookup? id name = some v) : v.In Z := by
  obtain ⟨i, hi, hv⟩ := List.exists_of_findSome?_eq_some hv
  exact hz.vars (hz.chain hid i hi) v (Bindings.findEntry_mem hv)

theorem get_in {id : ScopeId} {name : String} {v : Value} (hid : Z (.scope id))
    (hp : h.get id name = .ok v) : v.In Z := by
  unfold get at hp
  split at hp
  · rename_i w hw
    cases hp
    exact lookup?_in hz hid hw
  · cases hp

theorem packageNamed?_in {id p : ScopeId} {name : String} (hid : Z (.scope id))
    (hp : h.packageNamed? id name = some p) : Z (.scope p) := by
  obtain ⟨i, hi, hp⟩ := List.exists_of_findSome?_eq_some hp
  exact hz.packages (hz.chain hid i hi) (Bindings.findEntry_mem hp)

/-! ## Arguments -/

theorem spreadItems_in {v : Value} {vs : List Value} (hv : v.In Z)
    (hp : h.spreadItems v = .ok vs) : ∀ x ∈ vs, x.In Z := by
  cases v with
  | list id =>
    cases hp
    exact hz.items (Value.in_list.mp hv)
  | nil =>
    cases hp
    exact List.forall_mem_nil _
  | _ => cases hp

/-- The arguments of a call, all of them. -/
def BoundIn (Z : Zone) (bound : List Value × Option (List Value)) : Prop :=
  (∀ v ∈ bound.1, v.In Z) ∧ ∀ rest, bound.2 = some rest → ∀ v ∈ rest, v.In Z

omit hz in
theorem bindDiscrete_in {name : String} {fixed : Nat} {variadic : Bool} {args : List Value}
    {bound : List Value × Option (List Value)} (hargs : ∀ v ∈ args, v.In Z)
    (hp : bindDiscrete name fixed variadic args = .ok bound) : BoundIn Z bound := by
  unfold bindDiscrete at hp
  split at hp
  · split at hp
    · cases hp
    · cases hp
      refine ⟨fun v hv => hargs v (List.mem_of_mem_take hv), fun rest hrest v hv => ?_⟩
      cases hrest
      exact hargs v (List.mem_of_mem_drop hv)
  · split at hp
    · cases hp
      exact ⟨hargs, nofun⟩
    · cases hp

theorem bindArguments_in {name : String} {fixed : Nat} {variadic spread : Bool} {args : List Value}
    {bound : List Value × Option (List Value)} (hargs : ∀ v ∈ args, v.In Z)
    (hp : h.bindArguments name fixed variadic args spread = .ok bound) : BoundIn Z bound := by
  unfold bindArguments at hp
  split at hp
  · split at hp
    · cases hp
    · rename_i last hlast
      obtain ⟨items, hitems, hp⟩ := Outcome.bind_eq_ok.mp hp
      have hspread := spreadItems_in hz (hargs last (List.mem_of_getLast? hlast)) hitems
      have hfirst : ∀ v ∈ args.dropLast, v.In Z :=
        fun v hv => hargs v ((List.dropLast_sublist args).subset hv)
      simp only at hp
      split at hp
      · split at hp
        · cases hp
          refine ⟨hfirst, fun rest hrest => ?_⟩
          cases hrest
          exact hspread
        · cases hp
      · exact bindDiscrete_in (List.forall_mem_append.mpr ⟨hfirst, hspread⟩) hp
  · exact bindDiscrete_in hargs hp

theorem summands_in {v : Value} (hv : v.In Z) : ∀ x ∈ h.summands v, x.In Z := by
  unfold summands
  split
  · exact hz.items (Value.in_list.mp hv)
  · exact List.forall_mem_singleton.mpr hv

theorem packed_in {args : List Value} (hargs : ∀ v ∈ args, v.In Z) :
    ∀ v ∈ h.packed args, v.In Z := by
  unfold packed
  split
  · rename_i id hlast
    exact hz.items (Value.in_list.mp (hargs _ (List.mem_of_getLast? hlast)))
  · exact List.forall_mem_nil _

omit hz in
theorem keys_in {v : Value} {keys : List Value} (hp : h.keys v = .ok keys) :
    ∀ k ∈ keys, k.In Z := by
  cases v with
  | map id =>
    cases hp
    exact List.forall_mem_map.mpr fun e _ => Value.in_key
  | nil =>
    cases hp
    exact List.forall_mem_nil _
  | _ => cases hp

/-! ## Names -/

theorem stays_bindVar {id : ScopeId} {name : String} {v : Value} (hid : Z (.scope id))
    (hv : v.In Z) : h.Stays Z (h.bindVar id name v) := by
  refine hz.modifyScope hid (fun _ => rfl) fun c _ hc o ho => ?_
  obtain ho | ho := List.mem_append.mp ho
  · obtain ho | ho := List.mem_append.mp ho
    · obtain ⟨w, hw, hobject⟩ := List.mem_filterMap.mp ho
      obtain rfl | hw := Bindings.mem_values_insert hw
      · exact hv o hobject
      · exact hc o (List.mem_append_left _
          (List.mem_append_left _ (List.mem_filterMap.mpr ⟨w, hw, hobject⟩)))
    · exact hc o (List.mem_append_left _ (List.mem_append_right _ ho))
  · exact hc o (List.mem_append_right _ ho)

theorem stays_define {id : ScopeId} {name : String} {v : Value} (hid : Z (.scope id))
    (hv : v.In Z) (hp : h.define id name v = .ok h') : h.Stays Z h' := by
  obtain ⟨-, -, hp⟩ := Outcome.bind_eq_ok.mp hp
  cases hp
  exact stays_bindVar hz hid hv

theorem stays_assign {id : ScopeId} {name : String} {v : Value} (hid : Z (.scope id))
    (hv : v.In Z) (hp : h.assign id name v = .ok h') : h.Stays Z h' := by
  unfold assign at hp
  split at hp
  · rename_i binder hbinder
    cases hp
    exact stays_bindVar hz (hz.chain hid binder (List.mem_of_find?_eq_some hbinder)) hv
  · exact stays_define hz hid hv hp

theorem stays_definePackage {id package : ScopeId} {name : String} (hid : Z (.scope id))
    (hpackage : Z (.scope package)) (hp : h.definePackage id name package = .ok h') :
    h.Stays Z h' := by
  obtain ⟨-, -, hp⟩ := Outcome.bind_eq_ok.mp hp
  cases hp
  refine hz.modifyScope hid (fun _ => rfl) fun c _ hc o ho => ?_
  obtain ho | ho := List.mem_append.mp ho
  · obtain ho | ho := List.mem_append.mp ho
    · exact hc o (List.mem_append_left _ (List.mem_append_left _ ho))
    · obtain ⟨p, hp, rfl⟩ := List.mem_map.mp ho
      obtain rfl | hp := Bindings.mem_values_insert hp
      · exact hpackage
      · exact hc _ (List.mem_append_left _
          (List.mem_append_right _ (List.mem_map_of_mem hp)))
  · exact hc o (List.mem_append_right _ ho)

/-! ## Writing -/

theorem stays_perform {w : Write} (hw : w.In Z) : h.Stays Z (h.perform w) := by
  cases w with
  | item id index v =>
    refine hz.modifyList hw.1 fun c _ hc x hx => ?_
    split at hx
    · rw [Array.toList_setIfInBounds] at hx
      obtain hx | rfl := List.mem_or_eq_of_mem_set hx
      · exact hc x hx
      · exact hw.2
    · rw [Array.toList_push, List.mem_append, List.mem_singleton] at hx
      obtain hx | rfl := hx
      · exact hc x hx
      · exact hw.2
  | entry id key v => exact hz.modifyMap hw.1 fun c _ hc => MapCell.insertIn_in hw.2 hc
  | field id index v =>
    refine hz.modifyHandle hw.1 fun x _ hx => ?_
    cases x with
    | token typeName => exact hx
    | struct c =>
      refine Value.forall_objects.mpr fun y hy => ?_
      obtain hy | rfl := List.mem_or_eq_of_mem_set hy
      · exact Value.forall_objects.mp hx y hy
      · exact hw.2

theorem stays_prepareItem {id : ListId} {index : Int} {v : Value} {w : Write} (hid : Z (.list id))
    (hv : v.In Z) (hp : h.prepareItem id index v = .ok (w, h')) : h.Stays Z h' ∧ w.In Z := by
  obtain ⟨⟨x, h₁⟩, hconv, hp⟩ := Outcome.bind_eq_ok.mp hp
  obtain ⟨hs, hx⟩ := stays_convertTo hz hv hconv
  simp only at hp
  split at hp
  · cases hp
    exact ⟨hs, hid, hx⟩
  · cases hp

theorem stays_prepareEntry {id : MapId} {key v : Value} {w : Write} (hid : Z (.map id))
    (hv : v.In Z) (hp : h.prepareEntry id key v = .ok (w, h')) : h.Stays Z h' ∧ w.In Z := by
  obtain ⟨key', -, hp⟩ := Outcome.bind_eq_ok.mp hp
  obtain ⟨⟨x, h₁⟩, hconv, hp⟩ := Outcome.bind_eq_ok.mp hp
  cases hp
  obtain ⟨hs, hx⟩ := stays_convertTo hz hv hconv
  exact ⟨hs, hid, hx⟩

theorem stays_prepareField {id : HandleId} {name : String} {v : Value} {w : Write}
    (hid : Z (.handle id)) (hv : v.In Z) (hp : h.prepareField id name v = .ok (w, h')) :
    h.Stays Z h' ∧ w.In Z := by
  unfold prepareField at hp
  split at hp
  · split at hp
    · cases hp
    · obtain ⟨⟨x, h₁⟩, hconv, hp⟩ := Outcome.bind_eq_ok.mp hp
      cases hp
      obtain ⟨hs, hx⟩ := stays_convert _ hz hv hconv
      exact ⟨hs, hid, hx⟩
  · cases hp

theorem stays_prepareIndex {target index v : Value} {w : Write} (ht : target.In Z) (hv : v.In Z)
    (hp : h.prepareIndex target index v = .ok (w, h')) : h.Stays Z h' ∧ w.In Z := by
  unfold prepareIndex at hp
  cases target with
  | list id =>
    obtain ⟨i, -, hp⟩ := Outcome.bind_eq_ok.mp hp
    exact stays_prepareItem hz (Value.in_list.mp ht) hv hp
  | map id => exact stays_prepareEntry hz (Value.in_map.mp ht) hv hp
  | handle id =>
    cases index with
    | str name => exact stays_prepareField hz (Value.in_handle.mp ht) hv hp
    | _ => cases hp
  | _ => cases hp

theorem stays_prepareMember {target v : Value} {name : String} {w : Write} (ht : target.In Z)
    (hv : v.In Z) (hp : h.prepareMember target name v = .ok (w, h')) : h.Stays Z h' ∧ w.In Z := by
  unfold prepareMember at hp
  cases target with
  | map id => exact stays_prepareEntry hz (Value.in_map.mp ht) hv hp
  | handle id => exact stays_prepareField hz (Value.in_handle.mp ht) hv hp
  | _ => cases hp

theorem stays_storeEntry {id : MapId} {key v : Value} (hid : Z (.map id)) (hv : v.In Z)
    (hp : h.storeEntry id key v = .ok h') : h.Stays Z h' := by
  obtain ⟨⟨w, h₁⟩, hw, hp⟩ := Outcome.bind_eq_ok.mp hp
  cases hp
  obtain ⟨hs, hw⟩ := stays_prepareEntry hz hid hv hw
  exact hs.trans (stays_perform hs.encloses hw)

theorem stays_storeField {id : HandleId} {name : String} {v : Value} (hid : Z (.handle id))
    (hv : v.In Z) (hp : h.storeField id name v = .ok h') : h.Stays Z h' := by
  obtain ⟨⟨w, h₁⟩, hw, hp⟩ := Outcome.bind_eq_ok.mp hp
  cases hp
  obtain ⟨hs, hw⟩ := stays_prepareField hz hid hv hw
  exact hs.trans (stays_perform hs.encloses hw)

theorem stays_pushItem {id : ListId} {v : Value} (hid : Z (.list id)) (hv : v.In Z)
    (hp : h.pushItem id v = .ok h') : h.Stays Z h' := by
  unfold pushItem at hp
  split at hp
  · cases hp
  · obtain ⟨⟨w, h₁⟩, hw, hp⟩ := Outcome.bind_eq_ok.mp hp
    cases hp
    obtain ⟨hs, hw⟩ := stays_convertTo hz hv hw
    refine hs.trans (hs.encloses.modifyList hid fun c _ hc x hx => ?_)
    rw [Array.toList_push, List.mem_append, List.mem_singleton] at hx
    obtain hx | rfl := hx
    · exact hc x hx
    · exact hw

theorem stays_pushAll {id : ListId} {vs : List Value} (hid : Z (.list id))
    (hvs : ∀ v ∈ vs, v.In Z) (hp : h.pushAll id vs = .ok h') : h.Stays Z h' := by
  induction vs generalizing h with
  | nil => cases hp; exact hz.stays
  | cons v rest ih =>
    obtain ⟨h₁, h1, hp⟩ := Outcome.bind_eq_ok.mp hp
    obtain ⟨hv, hrest⟩ := List.forall_mem_cons.mp hvs
    have hs := stays_pushItem hz hid hv h1
    exact hs.trans (ih hs.encloses hrest hp)

theorem stays_append {target v : Value} {items : List Value} (ht : target.In Z)
    (hitems : ∀ x ∈ items, x.In Z) (hp : h.append target items = .ok (v, h')) :
    h.Stays Z h' ∧ v.In Z := by
  have hnew (source : ListCell) (hsource : ∀ x ∈ source.items.toList, x.In Z)
      (hp : (do return (.list h.lists.next, ← (h.addList source).2.pushAll h.lists.next items)) =
        Except.ok (v, h')) : h.Stays Z h' ∧ v.In Z := by
    obtain ⟨h₁, h1, hp⟩ := Outcome.bind_eq_ok.mp hp
    cases hp
    obtain ⟨hs, hv⟩ := hz.addList hsource
    exact ⟨hs.trans (stays_pushAll hs.encloses (Value.in_list.mp hv) hitems h1), hv⟩
  cases target with
  | nil => exact hnew ⟨#[], none, false⟩ (List.forall_mem_nil _) hp
  | list id => exact hnew { h.list id with fixed := false } (hz.items (Value.in_list.mp ht)) hp
  | _ => cases hp

theorem stays_delete {target key : Value} (ht : target.In Z) (hp : h.delete target key = .ok h') :
    h.Stays Z h' := by
  cases target with
  | map id =>
    obtain ⟨r, hr, hp⟩ := Outcome.bind_eq_ok.mp hp
    obtain ⟨key', -, hr⟩ := Outcome.bind_eq_ok.mp hr
    cases hr
    cases hp
    exact hz.modifyMap (Value.in_map.mp ht) fun c _ hc e he => hc e (List.mem_filter.mp he).1
  | nil => cases hp; exact hz.stays
  | _ => cases hp

end

end Heap
end ScriptEngine
