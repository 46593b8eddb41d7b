import ScriptEngine.Evaluator.Place
import ScriptEngine.Proofs.Heap.Chains
import ScriptEngine.Proofs.Heap.Conversion
import ScriptEngine.Proofs.Heap.Spots
import ScriptEngine.Proofs.Task.Equations

/-! # What is written is what is read

A place that is assigned to is found anew whenever it is read or written: a name by looking for the scope
that binds it, an index by cutting it to a whole number, a key by converting it.  What is found is a spot
of the heap (`Place.spot?`), and a place reads as what is in its spot (`Place.value_eq_ok_iff`).

`written_place_reads_back` says that a write leaves the converted value in the spot of the place and all
other spots as they were.  So every place that has this spot then reads as the converted value, and every
place that has another one, or none, reads as it did before.
-/
namespace ScriptEngine

namespace Heap
variable {h h' : Heap} {v w u : Value} {type : HostType}

/-! ## Keys and indexes -/

/-- **A conversion that ends in a scalar** does not depend on the heap. -/
theorem convert_scalar (hc : h.convert v type = .ok (w, h')) (hw : w.isReference = false)
    (g : Heap) : g.convert v type = .ok (w, g) := by
  have hconforms := (made_convert type hc).conforms
  unfold convert at hc
  split at hc
  · cases hc
  cases hconforms with
  | slice | plainSlice | array | map | plainMap | chan | func | struct | handle | structHandle =>
    cases hw
  | any =>
    cases hc
    cases v with
    | list | map | func | chan | handle => cases hw
    | _ => rfl
  | noHandle =>
    cases v with
    | nil =>
      cases hc
      rfl
    | handle id =>
      simp only at hc
      split at hc <;> cases hc
    | _ => cases hc
  | @float x k => cases k <;> cases v <;> cases hc <;> rfl
  | _ => cases v <;> cases hc <;> rfl

theorem isReference_toValue (k : MapKey) : k.toValue.isReference = false := by
  cases k <;> rfl

/-- What a key is for a map depends on the key type alone. -/
theorem mapKey_congr {id : MapId} {key : Value} {k : MapKey} (hkey : h.mapKey id key = .ok k)
    (htype : (h'.map id).keyType = (h.map id).keyType) : h'.mapKey id key = .ok k := by
  obtain ⟨⟨x, h₁⟩, hx, hk⟩ := Outcome.bind_eq_ok.mp hkey
  have hscalar : x.isReference = false := keyOf_eq_ok hk ▸ isReference_toValue k
  refine Outcome.bind_eq_ok.mpr ⟨(x, h'), ?_, ?_⟩
  · rw [htype]
    cases hkeyType : (h.map id).keyType with
    | none =>
      rw [hkeyType] at hx
      cases hx
      rfl
    | some type =>
      rw [hkeyType] at hx
      exact convert_scalar hx hscalar h'
  · simp only [keyOf] at hk ⊢
    split at hk
    · exact hk
    · cases hk

/-- A text is no other key than itself. -/
theorem mapKey_text_eq {id : MapId} {text : String} {k : MapKey}
    (hkey : h.mapKey id (.str text) = .ok k) : k = .str text := by
  obtain ⟨⟨x, h₁⟩, hx, hk⟩ := Outcome.bind_eq_ok.mp hkey
  have hkeyValue : k.toValue = x := keyOf_eq_ok hk
  suffices hx : x = .str text by
    rw [hx] at hkeyValue
    cases k <;> cases hkeyValue
    rfl
  cases hkeyType : (h.map id).keyType with
  | none =>
    rw [hkeyType] at hx
    cases hx
    rfl
  | some type =>
    rw [hkeyType] at hx
    cases type with
    | any | string =>
      cases hx
      rfl
    | float kind => cases kind <;> cases hx
    | _ => cases hx

theorem indexNumber_congr {index : Value} {i : Int} (hi : h.indexNumber index = .ok i) :
    h'.indexNumber index = .ok i := by
  cases index with
  | int n => exact hi
  | float x => exact hi
  | _ => cases hi

/-! ## Reading -/

/-- The spot of a name: where it is bound, or would be. -/
def bindingSpot (h : Heap) (scope : ScopeId) (name : String) : Spot :=
  .binding ((h.binder? scope name).getD scope) name

/-- The struct, and the position of one of its fields. -/
def fieldAt? (h : Heap) (id : HandleId) (name : String) : Option (StructCell × Nat) :=
  match h.handle id with
  | .struct c => (c.position? name).map fun i => (c, i)
  | .token _ => none

/-- The spot of a field. -/
def fieldSpot? (h : Heap) (id : HandleId) (name : String) : Option Spot :=
  (h.fieldAt? id name).map fun (_, i) => .field id i

/-- What is read in a spot. A key that a map does not have reads as nil. -/
def read? (h : Heap) : Spot → Option Value
  | .entry id key => some ((h.valueAt? (.entry id key)).getD .nil)
  | spot => h.valueAt? spot

/-- The object of the value is in the heap, and a struct has values for all its fields. -/
def Whole (h : Heap) (v : Value) : Prop :=
  h.has v = true ∧ ∀ id c, v = .handle id → h.handles.get? id = some (.struct c) →
    c.values.length = c.fields.length

/-- **In a well-typed heap everything is whole** that is there. -/
theorem WellTyped.whole (ht : h.WellTyped) (hv : h.has v = true) : h.Whole v := by
  refine ⟨hv, fun id c _ hc => ?_⟩
  have hfields : List.Forall₂ _ c.values c.fields := ht.handles id _ hc
  exact hfields.length_eq

theorem get_eq_ok_iff {scope : ScopeId} {name : String} :
    h.get scope name = .ok u ↔ h.valueAt? (h.bindingSpot scope name) = some u := by
  have hget : h.get scope name = .ok u ↔ h.lookup? scope name = some u := by
    unfold get
    cases h.lookup? scope name with
    | none => constructor <;> intro hu <;> cases hu
    | some w => simp
  rw [hget, lookup?_eq]
  show _ ↔ (h.scope ((h.binder? scope name).getD scope)).vars.find? name = some u
  cases hbinder : h.binder? scope name with
  | some b => rfl
  | none =>
    have hfree := List.find?_eq_none.mp hbinder scope (head_mem_chain h scope)
    rw [Bindings.contains, Bool.not_eq_true, Option.isSome_eq_false_iff, Option.isNone_iff_eq_none]
      at hfree
    rw [Option.getD_none, hfree]
    rfl

theorem index_list_eq_ok_iff {id : ListId} {index : Value} :
    h.index (.list id) index = .ok u ↔
      ∃ i, h.indexNumber index = .ok i ∧ 0 ≤ i ∧ h.valueAt? (.item id i.toNat) = some u := by
  show (h.indexNumber index >>= fun i => position i (h.list id).items.size >>= fun j =>
    pure ((h.list id).items.getD j .nil)) = _ ↔ _
  simp only [Outcome.bind_eq_ok]
  refine exists_congr fun i => and_congr_right fun _ => ?_
  show _ ↔ 0 ≤ i ∧ (h.list id).items[i.toNat]? = some u
  unfold position
  constructor
  · rintro ⟨j, hj, hu⟩
    split at hj
    · rename_i hrange
      cases hj
      refine ⟨hrange.1, ?_⟩
      have hlt : i.toNat < (h.list id).items.size := by omega
      rw [Array.getElem?_eq_getElem hlt]
      have := Except.ok.inj hu
      rw [← this]
      simp [Array.getD, hlt]
    · cases hj
  · rintro ⟨hi, hu⟩
    obtain ⟨hlt, hu⟩ := Array.getElem?_eq_some_iff.mp hu
    refine ⟨i.toNat, if_pos ⟨hi, by omega⟩, ?_⟩
    show Except.ok _ = _
    simp [Array.getD, hlt, hu]

theorem index_map_eq_ok_iff {id : MapId} {key : Value} :
    h.index (.map id) key = .ok u ↔
      ∃ k, h.mapKey id key = .ok k ∧ (h.valueAt? (.entry id k)).getD .nil = u := by
  show (h.stored? id key >>= fun o => pure (o.getD .nil)) = _ ↔ _
  unfold stored?
  simp only [Outcome.bind_eq_ok]
  constructor
  · rintro ⟨o, ⟨k, hk, ho⟩, hu⟩
    cases ho
    exact ⟨k, hk, Except.ok.inj hu⟩
  · rintro ⟨k, hk, rfl⟩
    exact ⟨_, ⟨k, hk, rfl⟩, rfl⟩

theorem fieldAt?_eq_some {id : HandleId} {name : String} {c : StructCell} {i : Nat}
    (hi : h.fieldAt? id name = some (c, i)) :
    h.handle id = .struct c ∧ c.position? name = some i ∧ i < c.fields.length := by
  unfold fieldAt? at hi
  split at hi
  · rename_i cell hcell
    obtain ⟨j, hj, hpair⟩ := Option.map_eq_some_iff.mp hi
    cases hpair
    obtain ⟨hlt, -⟩ := List.findIdx?_eq_some_iff_findIdx_eq.mp hj
    exact ⟨hcell, hj, hlt⟩
  · cases hi

/-- A handle that is there is a struct or a token. -/
theorem get?_of_handle {id : HandleId} {c : StructCell} (hhas : h.has (.handle id) = true)
    (hc : h.handle id = .struct c) : h.handles.get? id = some (.struct c) := by
  obtain ⟨o, ho⟩ := Option.isSome_iff_exists.mp hhas
  unfold handle at hc
  rw [ho] at hc ⊢
  exact congrArg some hc

theorem field_eq_ok_iff {id : HandleId} {name : String} (hwhole : h.Whole (.handle id)) :
    h.field id name = .ok u ↔
      ∃ spot, h.fieldSpot? id name = some spot ∧ h.read? spot = some u := by
  unfold field fieldSpot? fieldAt?
  cases hc : h.handle id with
  | token name => exact iff_of_false nofun nofun
  | struct c =>
    have hlength := hwhole.2 id c rfl (get?_of_handle hwhole.1 hc)
    cases hi : c.position? name with
    | none => simp [StructCell.get?, hi, invalid]
    | some i =>
      obtain ⟨hlt, -⟩ := List.findIdx?_eq_some_iff_findIdx_eq.mp hi
      simp [StructCell.get?, hi, read?, valueAt?, hc, Handle.values, hlength, hlt]

end Heap

namespace Place
variable {h h' : Heap} {p : Place} {scope : ScopeId} {u : Value}

/-- The value in a place. -/
def value (h : Heap) (scope : ScopeId) : Place → Outcome Value
  | .var name => h.get scope name
  | .element container index => h.index container index
  | .field container name => h.member container name
  | .member package name => h.get package name

/-- Reading a place gives the value in it, if there is one. -/
theorem readPlace_eq_done {s : EngineState} :
    Eval.readPlace p scope s = .done s (.ok u) ↔ p.value s.heap scope = .ok u := by
  have hread : Eval.readPlace p scope s = Eval.ofOutcome (p.value s.heap scope) s := by
    cases p <;> rfl
  rw [hread]
  constructor
  · intro hu
    cases ho : p.value s.heap scope with
    | ok w =>
      rw [ho] at hu
      cases hu
      rfl
    | error e =>
      rw [ho] at hu
      cases e <;> cases hu
  · intro hu
    rw [hu]
    rfl

/-- **The spot of a place**, if it has one now. -/
def spot? (h : Heap) (scope : ScopeId) : Place → Option Spot
  | .var name => some (h.bindingSpot scope name)
  | .member package name => some (h.bindingSpot package name)
  | .element (.list id) index =>
    match h.indexNumber index with
    | .ok i => if 0 ≤ i then some (.item id i.toNat) else none
    | .error _ => none
  | .element (.map id) key =>
    match h.mapKey id key with
    | .ok k => some (.entry id k)
    | .error _ => none
  | .element (.handle id) (.str name) => h.fieldSpot? id name
  | .field (.map id) name => some (.entry id (.str name))
  | .field (.handle id) name => h.fieldSpot? id name
  | .element _ _ | .field _ _ => none

/-- The type that is declared for what is written in the place. -/
def declared? (h : Heap) : Place → Option HostType
  | .element (.list id) _ => (h.list id).elemType
  | .element (.map id) _ | .field (.map id) _ => (h.map id).valueType
  | .element (.handle id) (.str name) | .field (.handle id) name =>
    (h.fieldAt? id name).map fun (c, i) => (c.fields.getD i ("", .any)).2
  | _ => none

/-- The scope or the container that the place is in is in the heap. -/
def Present (h : Heap) (scope : ScopeId) : Place → Prop
  | .var _ => (h.scopes.get? scope).isSome = true
  | .member package _ => (h.scopes.get? package).isSome = true
  | .element container _ | .field container _ => h.Whole container

theorem spot?_list {id : ListId} {index : Value} {spot : Spot} :
    (Place.element (.list id) index).spot? h scope = some spot ↔
      ∃ i, h.indexNumber index = .ok i ∧ 0 ≤ i ∧ spot = .item id i.toNat := by
  simp only [spot?]
  cases h.indexNumber index with
  | error e => simp
  | ok i =>
    by_cases hpos : 0 ≤ i
    · simp [hpos, eq_comm]
    · simp [hpos]

theorem spot?_map {id : MapId} {key : Value} {spot : Spot} :
    (Place.element (.map id) key).spot? h scope = some spot ↔
      ∃ k, h.mapKey id key = .ok k ∧ spot = .entry id k := by
  simp only [spot?]
  cases h.mapKey id key with
  | error e => simp
  | ok k => simp [eq_comm]

/-- **A place reads as what is read in its spot**, unless it is a character of a text. -/
theorem value_eq_ok_iff (hp : p.Present h scope) (htext : ∀ text index, p ≠ .element (.str text) index) :
    p.value h scope = .ok u ↔ ∃ spot, p.spot? h scope = some spot ∧ h.read? spot = some u := by
  cases p with
  | var name =>
    refine Heap.get_eq_ok_iff.trans ⟨fun hu => ⟨_, rfl, hu⟩, ?_⟩
    rintro ⟨_, ⟨⟩, hu⟩
    exact hu
  | member package name =>
    refine Heap.get_eq_ok_iff.trans ⟨fun hu => ⟨_, rfl, hu⟩, ?_⟩
    rintro ⟨_, ⟨⟩, hu⟩
    exact hu
  | field container name =>
    cases container with
    | map id =>
      refine ⟨fun hu => ⟨_, rfl, congrArg some (Except.ok.inj hu)⟩, ?_⟩
      rintro ⟨_, ⟨⟩, hu⟩
      exact congrArg Except.ok (Option.some.inj hu)
    | handle id => exact Heap.field_eq_ok_iff hp
    | _ => exact iff_of_false nofun nofun
  | element container index =>
    cases container with
    | str text => exact absurd rfl (htext text index)
    | list id =>
      refine Heap.index_list_eq_ok_iff.trans ?_
      simp only [spot?_list]
      constructor
      · rintro ⟨i, hi, hpos, hu⟩
        exact ⟨_, ⟨i, hi, hpos, rfl⟩, hu⟩
      · rintro ⟨_, ⟨i, hi, hpos, rfl⟩, hu⟩
        exact ⟨i, hi, hpos, hu⟩
    | map id =>
      refine Heap.index_map_eq_ok_iff.trans ?_
      simp only [spot?_map]
      constructor
      · rintro ⟨k, hk, hu⟩
        exact ⟨_, ⟨k, hk, rfl⟩, congrArg some hu⟩
      · rintro ⟨_, ⟨k, hk, rfl⟩, hu⟩
        exact ⟨k, hk, Option.some.inj hu⟩
    | handle id =>
      cases index with
      | str name => exact Heap.field_eq_ok_iff hp
      | _ => exact iff_of_false nofun nofun
    | _ => exact iff_of_false nofun nofun

end Place

/-! ## After a write -/

namespace Heap.WrittenAt
variable {h h' : Heap} {spot other : Spot} {w u : Value} {t : ScopeId}
  (hw : WrittenAt spot w h h')
include hw

theorem read?_self : h'.read? spot = some w := by
  cases spot with
  | entry id key =>
    show some ((h'.valueAt? (.entry id key)).getD .nil) = _
    rw [hw.written]
    rfl
  | _ => exact hw.written

theorem read? (hother : other ≠ spot) (ho : h.Comprehends other) :
    h'.read? other = h.read? other := by
  have hsame := hw.others other hother ho
  cases other with
  | entry id key => exact congrArg (fun o => some (o.getD Value.nil)) hsame
  | _ => exact hsame

theorem keyType {id : MapId} (hid : h.has (.map id) = true) :
    (h'.map id).keyType = (h.map id).keyType := by
  obtain ⟨c, hc⟩ := Option.isSome_iff_exists.mp hid
  obtain ⟨entries, hc'⟩ := hw.maps id c hc
  unfold Heap.map
  rw [hc, hc']
  rfl

theorem fieldSpot? {id : HandleId} (hid : h.has (.handle id) = true) (name : String) :
    h'.fieldSpot? id name = h.fieldSpot? id name := by
  obtain ⟨o, ho⟩ := Option.isSome_iff_exists.mp hid
  unfold Heap.fieldSpot? fieldAt? handle
  cases o with
  | struct c =>
    obtain ⟨values, hc', -⟩ := hw.structs id c ho
    rw [ho, hc']
    show ((c.position? name).map _).map _ = ((c.position? name).map _).map _
    rw [Option.map_map, Option.map_map]
    rfl
  | token typeName => rw [ho, hw.tokens id typeName ho]

theorem whole {v : Value} (hv : h.Whole v) : h'.Whole v := by
  obtain ⟨hhas, hfields⟩ := hv
  refine ⟨?_, ?_⟩
  · cases v with
    | list id =>
      obtain ⟨c, hc⟩ := Option.isSome_iff_exists.mp hhas
      obtain ⟨items, hc', -⟩ := hw.lists id c hc
      exact Option.isSome_iff_exists.mpr ⟨_, hc'⟩
    | map id =>
      obtain ⟨c, hc⟩ := Option.isSome_iff_exists.mp hhas
      obtain ⟨entries, hc'⟩ := hw.maps id c hc
      exact Option.isSome_iff_exists.mpr ⟨_, hc'⟩
    | handle id =>
      obtain ⟨o, ho⟩ := Option.isSome_iff_exists.mp hhas
      cases o with
      | struct c =>
        obtain ⟨values, hc', -⟩ := hw.structs id c ho
        exact Option.isSome_iff_exists.mpr ⟨_, hc'⟩
      | token name => exact Option.isSome_iff_exists.mpr ⟨_, hw.tokens id name ho⟩
    | func id =>
      show (h'.funcs.get? id).isSome = true
      rw [hw.funcs]
      exact hhas
    | chan id =>
      show (h'.chans.get? id).isSome = true
      rw [hw.chans]
      exact hhas
    | _ => rfl
  · rintro id c rfl hc
    obtain ⟨o, ho⟩ := Option.isSome_iff_exists.mp hhas
    cases o with
    | struct d =>
      obtain ⟨values, hd, hlength⟩ := hw.structs id d ho
      cases hc.symm.trans hd
      exact hlength.trans (hfields id d rfl ho)
    | token name => cases hc.symm.trans (hw.tokens id name ho)

theorem present {p : Place} (hp : p.Present h t) : p.Present h' t := by
  have hscope {i : ScopeId} (hi : (h.scopes.get? i).isSome = true) :
      (h'.scopes.get? i).isSome = true := by
    have hframe := congrArg Option.isSome (hw.frames i)
    rwa [Option.isSome_map, Option.isSome_map, hi] at hframe
  cases p with
  | var | member => exact hscope hp
  | element | field => exact hw.whole hp

/-- Names that are not resolved by the written binding mean what they did. -/
theorem get {name : String} (hspot : h'.bindingSpot t name ≠ spot) : h'.get t name = h.get t name := by
  suffices hlookup : h'.lookup? t name = h.lookup? t name by
    unfold Heap.get
    rw [hlookup]
  by_cases hname : ∃ b, spot = .binding b name
  · obtain ⟨b, rfl⟩ := hname
    rw [lookup?_of_find? hw.frames (b := b) (v := w), if_neg]
    · intro hbinder
      refine hspot ?_
      unfold bindingSpot
      rw [hbinder]
      rfl
    · intro c
      by_cases hc : c = b
      · subst c
        rw [if_pos rfl]
        exact hw.written
      · rw [if_neg hc]
        exact hw.others (.binding c name) (fun heq => hc (Spot.binding.inj heq).1) trivial
  · refine lookup?_congr hw.frames fun c => ?_
    exact hw.others (.binding c name) (fun heq => hname ⟨c, heq.symm⟩) trivial

end Heap.WrittenAt

namespace Place
variable {h h' : Heap} {spot : Spot} {w u : Value} {p : Place} {scope t : ScopeId}

/-- Indexes, keys and fields have the spots that they had. -/
theorem spot?_of_writtenAt (hw : Heap.WrittenAt spot w h h') {container : Value}
    (hc : h.Whole container) :
    (∀ index, (element container index).spot? h' t = (element container index).spot? h t) ∧
      ∀ name, (field container name).spot? h' t = (field container name).spot? h t := by
  refine ⟨fun index => ?_, fun name => ?_⟩
  · cases container with
    | list id =>
      refine Option.ext fun other => ?_
      rw [spot?_list, spot?_list]
      exact exists_congr fun i =>
        and_congr_left fun _ => ⟨Heap.indexNumber_congr, Heap.indexNumber_congr⟩
    | map id =>
      refine Option.ext fun other => ?_
      rw [spot?_map, spot?_map]
      have htype := hw.keyType hc.1
      exact exists_congr fun k => and_congr_left fun _ =>
        ⟨fun hk => Heap.mapKey_congr hk htype.symm, fun hk => Heap.mapKey_congr hk htype⟩
    | handle id =>
      cases index with
      | str name => exact hw.fieldSpot? hc.1 name
      | _ => rfl
    | _ => rfl
  · cases container with
    | handle id => exact hw.fieldSpot? hc.1 name
    | _ => rfl

/-- The spot of a place belongs to the object that the place is in. -/
theorem comprehends_spot (hp : p.Present h scope) (hspot : p.spot? h scope = some spot) :
    h.Comprehends spot := by
  have hfield {id : HandleId} {name : String} (hid : h.Whole (.handle id))
      (hspot : h.fieldSpot? id name = some spot) : h.Comprehends spot := by
    obtain ⟨⟨c, i⟩, -, rfl⟩ := Option.map_eq_some_iff.mp hspot
    exact hid.1
  cases p with
  | var | member =>
    cases hspot
    trivial
  | field container name =>
    cases container with
    | map id =>
      cases hspot
      exact hp.1
    | handle id => exact hfield hp hspot
    | _ => cases hspot
  | element container index =>
    cases container with
    | list id =>
      obtain ⟨i, -, -, rfl⟩ := spot?_list.mp hspot
      exact hp.1
    | map id =>
      obtain ⟨k, -, rfl⟩ := spot?_map.mp hspot
      exact hp.1
    | handle id =>
      cases index with
      | str name => exact hfield hp hspot
      | _ => cases hspot
    | _ => cases hspot

/-- **A place that has the written spot reads as what was written.** -/
theorem value_of_spot (hw : Heap.WrittenAt spot w h h') (hp : p.Present h t)
    (hspot : p.spot? h' t = some spot) : p.value h' t = .ok w := by
  refine (value_eq_ok_iff (hw.present hp) ?_).mpr ⟨spot, hspot, hw.read?_self⟩
  rintro text index rfl
  cases hspot

/-- **Any other place reads as it did.** -/
theorem value_of_other (hw : Heap.WrittenAt spot w h h') (hp : p.Present h t)
    (hspot : p.spot? h' t ≠ some spot) : p.value h' t = .ok u ↔ p.value h t = .ok u := by
  have hcontainer (hsame : p.spot? h' t = p.spot? h t)
      (htext : ∀ text index, p ≠ .element (.str text) index) :
      p.value h' t = .ok u ↔ p.value h t = .ok u := by
    rw [value_eq_ok_iff (hw.present hp) htext, value_eq_ok_iff hp htext, hsame]
    refine exists_congr fun other => and_congr_right fun hother => ?_
    rw [hw.read? ?_ (comprehends_spot hp hother)]
    rintro rfl
    exact hspot (hsame.trans hother)
  cases p with
  | var name =>
    have hget := hw.get fun heq => hspot (congrArg some heq)
    exact iff_of_eq (congrArg (· = Except.ok u) hget)
  | member package name =>
    have hget := hw.get fun heq => hspot (congrArg some heq)
    exact iff_of_eq (congrArg (· = Except.ok u) hget)
  | field container name => exact hcontainer ((spot?_of_writtenAt hw hp).2 name) nofun
  | element container index =>
    by_cases htext : ∃ text, container = .str text
    · obtain ⟨text, rfl⟩ := htext
      have hchar (g g' : Heap) (hu : g.index (.str text) index = .ok u) :
          g'.index (.str text) index = .ok u := by
        obtain ⟨i, hi, hrest⟩ := Outcome.bind_eq_ok.mp hu
        exact Outcome.bind_eq_ok.mpr ⟨i, Heap.indexNumber_congr hi, hrest⟩
      exact ⟨hchar h' h, hchar h h'⟩
    · refine hcontainer ((spot?_of_writtenAt hw hp).1 index) ?_
      rintro text i ⟨⟩
      exact htext ⟨text, rfl⟩

end Place

/-! ## Writing -/

namespace Heap
variable {h h₁ : Heap} {container index v : Value} {name : String} {x : Write} {scope : ScopeId}

theorem prepareEntry_writes {id : MapId} {key : Value} (hid : h.has (.map id) = true)
    (hx : h.prepareEntry id key v = .ok (x, h₁)) : ∃ k w, h.mapKey id key = .ok k ∧
      h.convertTo v (h.map id).valueType = .ok (w, h₁) ∧
      WrittenAt (.entry id k) w h (h₁.perform x) := by
  obtain ⟨k, w, h₂, hk, hconv, hx⟩ := prepareEntry_eq_ok.mp hx
  cases hx
  obtain ⟨c, hc⟩ := Option.isSome_iff_exists.mp hid
  have hg := grows_convertTo hconv
  exact ⟨k, w, hk, hconv, (writtenAt_entry (hg.maps.get?_some hc) k w).after hg⟩

theorem prepareItem_writes {id : ListId} {i : Int} (hid : h.has (.list id) = true)
    (hx : h.prepareItem id i v = .ok (x, h₁)) : 0 ≤ i ∧ ∃ w,
      h.convertTo v (h.list id).elemType = .ok (w, h₁) ∧
      WrittenAt (.item id i.toNat) w h (h₁.perform x) := by
  obtain ⟨⟨w, h₂⟩, hconv, hx⟩ := Outcome.bind_eq_ok.mp hx
  obtain ⟨c, hc⟩ := Option.isSome_iff_exists.mp hid
  have hg := grows_convertTo hconv
  have hc₂ := hg.lists.get?_some hc
  have hlist := list_eq hc₂
  simp only [hlist] at hx
  split at hx
  · rename_i hrange
    cases hx
    obtain ⟨hpos, hrange⟩ := hrange
    refine ⟨hpos, w, hconv, (writtenAt_item hc₂ ?_ w).after hg⟩
    rcases hrange with hlt | ⟨heq, hgrowable⟩
    · exact .inl (by omega)
    · exact .inr ⟨by omega, hgrowable⟩
  · cases hx

theorem prepareField_writes {id : HandleId} (hid : h.Whole (.handle id))
    (hx : h.prepareField id name v = .ok (x, h₁)) : ∃ c i w, h.fieldAt? id name = some (c, i) ∧
      h.convert v (c.fields.getD i ("", .any)).2 = .ok (w, h₁) ∧
      WrittenAt (.field id i) w h (h₁.perform x) := by
  unfold prepareField at hx
  split at hx
  · rename_i c hc
    split at hx
    · cases hx
    · rename_i i hi
      obtain ⟨⟨w, h₂⟩, hconv, hx⟩ := Outcome.bind_eq_ok.mp hx
      cases hx
      have hget := get?_of_handle hid.1 hc
      have hfield : h.fieldAt? id name = some (c, i) := by
        unfold fieldAt?
        rw [hc]
        exact congrArg (Option.map _) hi
      have hlt : i < c.values.length :=
        Nat.lt_of_lt_of_eq (fieldAt?_eq_some hfield).2.2 (hid.2 id c rfl hget).symm
      have hg := grows_convert _ hconv
      exact ⟨c, i, w, hfield, hconv,
        (writtenAt_field (hg.handles.get?_some hget) hlt w).after hg⟩
  · cases hx

/-- **What is prepared for an element** is the converted value, for the spot of the element. -/
theorem prepareIndex_writes (scope : ScopeId) (hc : h.Whole container)
    (hx : h.prepareIndex container index v = .ok (x, h₁)) :
    ∃ spot w, h.convertTo v ((Place.element container index).declared? h) = .ok (w, h₁) ∧
      (Place.element container index).spot? h scope = some spot ∧
      WrittenAt spot w h (h₁.perform x) := by
  cases container with
  | list id =>
    obtain ⟨i, hi, hx⟩ := Outcome.bind_eq_ok.mp hx
    obtain ⟨hpos, w, hconv, hw⟩ := prepareItem_writes hc.1 hx
    exact ⟨_, w, hconv, Place.spot?_list.mpr ⟨i, hi, hpos, rfl⟩, hw⟩
  | map id =>
    obtain ⟨k, w, hk, hconv, hw⟩ := prepareEntry_writes hc.1 hx
    exact ⟨_, w, hconv, Place.spot?_map.mpr ⟨k, hk, rfl⟩, hw⟩
  | handle id =>
    cases index with
    | str name =>
      obtain ⟨c, i, w, hfield, hconv, hw⟩ := prepareField_writes hc hx
      refine ⟨.field id i, w, ?_, congrArg (Option.map _) hfield, hw⟩
      simp only [Place.declared?, hfield, Option.map_some]
      exact hconv
    | _ => cases hx
  | _ => cases hx

/-- **What is prepared for a member** is the converted value, for the spot of the member. -/
theorem prepareMember_writes (scope : ScopeId) (hc : h.Whole container)
    (hx : h.prepareMember container name v = .ok (x, h₁)) :
    ∃ spot w, h.convertTo v ((Place.field container name).declared? h) = .ok (w, h₁) ∧
      (Place.field container name).spot? h scope = some spot ∧
      WrittenAt spot w h (h₁.perform x) := by
  cases container with
  | map id =>
    obtain ⟨k, w, hk, hconv, hw⟩ := prepareEntry_writes hc.1 hx
    obtain rfl := mapKey_text_eq hk
    exact ⟨_, w, hconv, rfl, hw⟩
  | handle id =>
    obtain ⟨c, i, w, hfield, hconv, hw⟩ := prepareField_writes hc hx
    refine ⟨.field id i, w, ?_, congrArg (Option.map _) hfield, hw⟩
    simp only [Place.declared?, hfield, Option.map_some]
    exact hconv
  | _ => cases hx

/-- **What is assigned to a name** goes to the spot of the name, or the name cannot be bound. -/
theorem assign_writes (hscope : (h.scopes.get? scope).isSome = true) (name : String) (v : Value) :
    (∃ h', h.assign scope name v = .ok h' ∧
      WrittenAt (h.bindingSpot scope name) v h h' ∧
      h'.bindingSpot scope name = h.bindingSpot scope name) ∨
    ∃ e, h.assign scope name v = .error e := by
  have hwrites {b : ScopeId} (hb : (h.scopes.get? b).isSome = true)
      (hfound : h.binder? scope name = some b ∨ h.binder? scope name = none ∧ scope = b) :
      WrittenAt (h.bindingSpot scope name) v h (h.bindVar b name v) ∧
        (h.bindVar b name v).bindingSpot scope name = h.bindingSpot scope name := by
    have hbound := rebound_bindVar hb name v
    have hspot : h.bindingSpot scope name = .binding b name := by
      unfold bindingSpot
      rcases hfound with hbinder | ⟨hbinder, rfl⟩ <;> rw [hbinder] <;> rfl
    rw [hspot]
    refine ⟨hbound.writtenAt, ?_⟩
    unfold bindingSpot
    rw [hbound.binder? hfound]
    rfl
  unfold assign
  cases hbinder : h.binder? scope name with
  | some b =>
    exact .inl ⟨_, rfl, hwrites (isSome_of_contains (contains_of_binder? hbinder)) (.inl hbinder)⟩
  | none =>
    simp only [define_eq]
    split
    · exact .inl ⟨_, rfl, hwrites hscope (.inr ⟨hbinder, rfl⟩)⟩
    · exact .inr ⟨_, rfl⟩

end Heap

/-- A write of a place goes to its spot, or it fails and changes nothing. -/
theorem writePlace_cases {p : Place} {scope : ScopeId} {s : EngineState}
    (hp : p.Present s.heap scope) (v : Value) :
    (∃ spot w h₁ h', s.heap.convertTo v (p.declared? s.heap) = .ok (w, h₁) ∧
      Eval.writePlace p scope v s = .done { s with heap := h' } (.ok ()) ∧
      p.spot? s.heap scope = some spot ∧ p.spot? h' scope = some spot ∧
      Heap.WrittenAt spot w s.heap h') ∨
    ∃ e t, Eval.writePlace p scope v s = Eval.ofFailure e t ∧ { t with misfits := s.misfits } = s := by
  have hname {inner : ScopeId} {name : String} (hscope : (s.heap.scopes.get? inner).isSome = true) :
      (∃ h', Eval.assign inner name v s = .done { s with heap := h' } (.ok ()) ∧
        h'.bindingSpot inner name = s.heap.bindingSpot inner name ∧
        Heap.WrittenAt (s.heap.bindingSpot inner name) v s.heap h') ∨
      ∃ e t, Eval.assign inner name v s = Eval.ofFailure e t ∧
        { t with misfits := s.misfits } = s := by
    rcases Heap.assign_writes hscope name v with ⟨h', hassign, hw, hspot⟩ | ⟨e, hassign⟩
    · exact .inl ⟨h', Eval.bindName_ok (f := (·.assign inner name v)) hassign, hspot, hw⟩
    · exact .inr ⟨e, _, Eval.bindName_error (f := (·.assign inner name v)) hassign, rfl⟩
  cases p with
  | var name =>
    rcases hname hp with ⟨h', hwrite, hspot, hw⟩ | hfails
    · exact .inl ⟨_, v, s.heap, h', rfl, hwrite, rfl, congrArg some hspot, hw⟩
    · exact .inr hfails
  | member package name =>
    rcases hname hp with ⟨h', hwrite, hspot, hw⟩ | hfails
    · exact .inl ⟨_, v, s.heap, h', rfl, hwrite, rfl, congrArg some hspot, hw⟩
    · exact .inr hfails
  | element container index =>
    cases hx : s.heap.prepareIndex container index v with
    | ok r =>
      obtain ⟨x, h₁⟩ := r
      obtain ⟨spot, w, hconv, hspot, hw⟩ := Heap.prepareIndex_writes scope hp hx
      exact .inl ⟨spot, w, h₁, _, hconv, Eval.store_ok hx, hspot,
        ((Place.spot?_of_writtenAt hw hp).1 index).trans hspot, hw⟩
    | error e => exact .inr ⟨e, s, Eval.store_error hx, rfl⟩
  | field container name =>
    cases hx : s.heap.prepareMember container name v with
    | ok r =>
      obtain ⟨x, h₁⟩ := r
      obtain ⟨spot, w, hconv, hspot, hw⟩ := Heap.prepareMember_writes scope hp hx
      exact .inl ⟨spot, w, h₁, _, hconv, Eval.store_ok hx, hspot,
        ((Place.spot?_of_writtenAt hw hp).2 name).trans hspot, hw⟩
    | error e => exact .inr ⟨e, s, Eval.store_error hx, rfl⟩

/-- **What is written is what is read.**  A write that is done has left the value, converted to the type
that is declared for it, in the spot of the place, and the place reads as this.  So does every other place
that has the spot; all the rest read as they did.  A write that is not done fails, and nothing has
changed but the record of names that cannot be bound. -/
theorem written_place_reads_back {p : Place} {scope : ScopeId} {s : EngineState}
    (hp : p.Present s.heap scope) (v : Value) :
    (∃ spot w h₁ h', s.heap.convertTo v (p.declared? s.heap) = .ok (w, h₁) ∧
      Eval.writePlace p scope v s = .done { s with heap := h' } (.ok ()) ∧
      Eval.readPlace p scope { s with heap := h' } = .done { s with heap := h' } (.ok w) ∧
      p.spot? s.heap scope = some spot ∧ Heap.WrittenAt spot w s.heap h' ∧
      ∀ (q : Place) (t : ScopeId), q.Present s.heap t →
        (q.spot? h' t = some spot →
          Eval.readPlace q t { s with heap := h' } = .done { s with heap := h' } (.ok w)) ∧
        (q.spot? h' t ≠ some spot → ∀ u,
          (Eval.readPlace q t { s with heap := h' } = .done { s with heap := h' } (.ok u) ↔
            Eval.readPlace q t s = .done s (.ok u)))) ∨
    ∃ e t, Eval.writePlace p scope v s = Eval.ofFailure e t ∧ { t with misfits := s.misfits } = s := by
  rcases writePlace_cases hp v with ⟨spot, w, h₁, h', hconv, hwrite, hspot, hspot', hw⟩ | hfails
  · refine .inl ⟨spot, w, h₁, h', hconv, hwrite, ?_, hspot, hw, fun q t hq => ⟨fun hq' => ?_,
      fun hq' u => ?_⟩⟩
    · exact Place.readPlace_eq_done.mpr (Place.value_of_spot hw hp hspot')
    · exact Place.readPlace_eq_done.mpr (Place.value_of_spot hw hq hq')
    · rw [Place.readPlace_eq_done, Place.readPlace_eq_done]
      exact Place.value_of_other hw hq hq'
  · exact .inr hfails

/-- The host holds a slice with two bytes. -/
def holdingBytes : EngineState :=
  { EngineState.initial with
    heap := { lists := Store.push {} ⟨#[.int 1, .int 2], some (.int .uint8), false⟩ } }

/-- The second byte is written as 300 and read as 44; the first one is still read as 1. -/
theorem written_place_reads_back_bytes :
    ∃ h', Eval.writePlace (.element (.list 0) (.int 1)) 0 (.int 300) holdingBytes =
        .done { holdingBytes with heap := h' } (.ok ()) ∧
      Eval.readPlace (.element (.list 0) (.int 1)) 0 { holdingBytes with heap := h' } =
        .done { holdingBytes with heap := h' } (.ok (.int 44)) ∧
      Eval.readPlace (.element (.list 0) (.int 0)) 0 { holdingBytes with heap := h' } =
        .done { holdingBytes with heap := h' } (.ok (.int 1)) := by
  have hwhole : holdingBytes.heap.Whole (.list 0) := ⟨rfl, nofun⟩
  have hsecond : (Place.element (.list 0) (.int 1)).Present holdingBytes.heap 0 := hwhole
  rcases written_place_reads_back hsecond (.int 300) with
    ⟨spot, w, h₁, h', hconv, hwrite, hread, hspot, -, hplaces⟩ | ⟨e, t, hfails, -⟩
  · obtain ⟨rfl, -⟩ := Prod.mk.inj (Except.ok.inj hconv)
    refine ⟨h', hwrite, hread, ?_⟩
    refine ((hplaces (.element (.list 0) (.int 0)) 0 hwhole).2 ?_ (.int 1)).mpr rfl
    cases hspot
    exact nofun
  · cases e <;> cases hfails

end ScriptEngine
