import ScriptEngine.Proofs.Heap.Typing

/-! # Conversion makes values conform

The zero value of a type conforms to it, and so does every converted value; and neither making a
zero value nor converting breaks a declaration that was kept.  A converted container is passed on
only if its shape is the one asked for, and otherwise built anew from converted parts, so the proof
follows the recursion of conversion, with the shapes growing along the way.
-/
namespace ScriptEngine

namespace Store
variable {α : Type}

theorem get?_push {s : Store α} {a b : α} {id : Nat} (hb : (s.push a).get? id = some b) :
    b = a ∨ s.get? id = some b := by
  by_cases hid : id = s.next
  · subst hid
    rw [get?_push_next] at hb
    exact .inl (Option.some.inj hb).symm
  · rw [get?_push_of_ne hid] at hb
    exact .inr hb

theorem get?_modify {s : Store α} {i id : Nat} {f : α → α} {b : α}
    (hb : (s.modify i f).get? id = some b) :
    s.get? id = some b ∨ id = i ∧ ∃ a, s.get? i = some a ∧ b = f a := by
  by_cases hid : id = i
  · subst hid
    rw [get?_modify_self] at hb
    obtain ⟨a, ha, rfl⟩ := Option.map_eq_some_iff.mp hb
    exact .inr ⟨rfl, a, ha, rfl⟩
  · rw [get?_modify_of_ne hid] at hb
    exact .inl hb

end Store

/-- An entry after a key was bound: a new value behind the key or behind one that was there and is
the same, or an old entry. -/
theorem MapCell.mem_insertIn {key : MapKey} {v : Value} {e : MapKey × Value} :
    ∀ {es : List (MapKey × Value)}, e ∈ MapCell.insertIn key v es →
      e ∈ es ∨ e.2 = v ∧ (e.1 = key ∨ ∃ e' ∈ es, e'.1 = e.1)
  | [], he => by
    cases List.mem_singleton.mp he
    exact .inr ⟨rfl, .inl rfl⟩
  | (k, w) :: rest, he => by
    unfold MapCell.insertIn at he
    split at he
    · obtain rfl | he := List.mem_cons.mp he
      · exact .inr ⟨rfl, .inl rfl⟩
      · exact .inl he
    · obtain rfl | he := List.mem_cons.mp he
      · exact .inr ⟨rfl, .inr ⟨_, List.mem_cons_self, rfl⟩⟩
      · exact .inl (List.mem_cons_of_mem _ he)
    · obtain rfl | he := List.mem_cons.mp he
      · exact .inl List.mem_cons_self
      · obtain he | ⟨hv, hk | ⟨e', he', hk⟩⟩ := MapCell.mem_insertIn he
        · exact .inl (List.mem_cons_of_mem _ he)
        · exact .inr ⟨hv, .inl hk⟩
        · exact .inr ⟨hv, .inr ⟨e', List.mem_cons_of_mem _ he', hk⟩⟩

/-- A field is set to a value that fits there. -/
theorem forall₂_set {α β : Type} {R : α → β → Prop} {as : List α} {bs : List β}
    (hf : List.Forall₂ R as bs) {i : Nat} {a : α} {b : β} (hb : bs[i]? = some b) (hab : R a b) :
    List.Forall₂ R (as.set i a) bs := by
  induction hf generalizing i with
  | nil => exact .nil
  | cons hr hrest ih =>
    cases i with
    | zero =>
      cases hb
      exact .cons hab hrest
    | succ i => exact .cons hr (ih hb)

namespace Heap
variable {σ : Shapes} {h h' : Heap}

/-! ## New objects -/

theorem shapes_le_of_grows (hg : h.Grows h') : h.shapes.Le h'.shapes where
  lists id x hx := by
    obtain ⟨c, hc, rfl⟩ := Option.map_eq_some_iff.mp hx
    exact Option.map_eq_some_iff.mpr ⟨c, hg.lists.get?_some hc, rfl⟩
  maps id x hx := by
    obtain ⟨c, hc, rfl⟩ := Option.map_eq_some_iff.mp hx
    exact Option.map_eq_some_iff.mpr ⟨c, hg.maps.get?_some hc, rfl⟩
  handles id x hx := by
    obtain ⟨c, hc, rfl⟩ := Option.map_eq_some_iff.mp hx
    exact Option.map_eq_some_iff.mpr ⟨c, hg.handles.get?_some hc, rfl⟩

theorem TypedBy.addList (ht : h.TypedBy σ) {c : ListCell} (hc : c.Typed σ) :
    (h.addList c).2.TypedBy σ where
  lists id d hd := by
    obtain rfl | hd := Store.get?_push hd
    · exact hc
    · exact ht.lists id d hd
  maps := ht.maps
  handles := ht.handles
  chans := ht.chans

theorem TypedBy.addMap (ht : h.TypedBy σ) {c : MapCell} (hc : c.Typed σ) :
    (h.addMap c).2.TypedBy σ where
  lists := ht.lists
  maps id d hd := by
    obtain rfl | hd := Store.get?_push hd
    · exact hc
    · exact ht.maps id d hd
  handles := ht.handles
  chans := ht.chans

theorem TypedBy.addHandle (ht : h.TypedBy σ) {o : Handle} (ho : o.Typed σ) :
    (h.addHandle o).2.TypedBy σ where
  lists := ht.lists
  maps := ht.maps
  handles id d hd := by
    obtain rfl | hd := Store.get?_push hd
    · exact ho
    · exact ht.handles id d hd
  chans := ht.chans

theorem WellTyped.addList (ht : h.WellTyped) {c : ListCell} (hc : c.Typed h.shapes) :
    (h.addList c).2.WellTyped :=
  (TypedBy.addList ht hc).mono (shapes_le_of_grows (grows_addList h c))

theorem WellTyped.addMap (ht : h.WellTyped) {c : MapCell} (hc : c.Typed h.shapes) :
    (h.addMap c).2.WellTyped :=
  (TypedBy.addMap ht hc).mono (shapes_le_of_grows (grows_addMap h c))

theorem WellTyped.addHandle (ht : h.WellTyped) {o : Handle} (ho : o.Typed h.shapes) :
    (h.addHandle o).2.WellTyped :=
  (TypedBy.addHandle ht ho).mono (shapes_le_of_grows (grows_addHandle h o))

theorem shapes_addList (h : Heap) (c : ListCell) :
    (h.addList c).2.shapes.lists h.lists.next = some c.shape := by
  show ((h.lists.push c).get? h.lists.next).map _ = _
  rw [Store.get?_push_next]
  rfl

theorem shapes_addMap (h : Heap) (c : MapCell) :
    (h.addMap c).2.shapes.maps h.maps.next = some c.shape := by
  show ((h.maps.push c).get? h.maps.next).map _ = _
  rw [Store.get?_push_next]
  rfl

theorem shapes_addHandle (h : Heap) (o : Handle) :
    (h.addHandle o).2.shapes.handles h.handles.next = some o.shape := by
  show ((h.handles.push o).get? h.handles.next).map _ = _
  rw [Store.get?_push_next]
  rfl

/-! ## Zero values -/

/-- The value conforms to the type, and no declaration was broken on the way. -/
structure Made (h : Heap) (r : Value × Heap) (type : HostType) : Prop where
  conforms : Conforms r.2.shapes r.1 type
  wellTyped : h.WellTyped → r.2.WellTyped

mutual

theorem made_zeroValue : ∀ (type : HostType) (h : Heap), Made h (h.zeroValue type) type
  | .any, h => ⟨.any, id⟩
  | .func, h => ⟨.noFunc, id⟩
  | .chan _, h => ⟨.noChan, id⟩
  | .handle _, h => ⟨.noHandle, id⟩
  | .bool, h => ⟨.bool, id⟩
  | .int k, h => ⟨.int (IntKind.holds_zero k), id⟩
  | .float _, h => ⟨.float, id⟩
  | .string, h => ⟨.string, id⟩
  | .slice elem, h => {
      conforms := .slice (shapes_addList h _)
      wellTyped := fun ht => ht.addList fun v hv => by cases hv }
  | .array elem len, h => by
    obtain ⟨hc, ht⟩ := made_zeroValue elem h
    constructor
    · have hs := shapes_addList (h.zeroValue elem).2
        ⟨Array.replicate len (h.zeroValue elem).1, some elem, true⟩
      rw [ListCell.shape, if_pos rfl, Array.size_replicate] at hs
      exact .array hs
    · refine fun hw => (ht hw).addList fun v hv => ?_
      rw [Array.toList_replicate] at hv
      rw [List.eq_of_mem_replicate hv]
      exact hc.to
  | .map key value, h => {
      conforms := .map (shapes_addMap h _)
      wellTyped := fun ht => ht.addMap fun e he => by cases he }
  | .struct name fields, h => by
    obtain ⟨hc, ht⟩ := made_zeroValues fields h
    exact ⟨.struct (shapes_addHandle _ _), fun hw => (ht hw).addHandle hc⟩

theorem made_zeroValues : ∀ (fields : List (String × HostType)) (h : Heap),
    List.Forall₂ (fun v field => Conforms (h.zeroValues fields).2.shapes v field.2)
      (h.zeroValues fields).1 fields ∧ (h.WellTyped → (h.zeroValues fields).2.WellTyped)
  | [], h => ⟨.nil, id⟩
  | (_, type) :: rest, h => by
    obtain ⟨hc, ht⟩ := made_zeroValue type h
    obtain ⟨hcs, hts⟩ := made_zeroValues rest (h.zeroValue type).2
    exact ⟨.cons (hc.mono (shapes_le_of_grows (grows_zeroValues rest _))) hcs,
      fun hw => hts (ht hw)⟩

end

theorem made_zero {type : HostType} {r : Value × Heap} (hz : h.zero type = .ok r) :
    Made h r type := by
  rw [zero_eq_ok hz]
  exact made_zeroValue type h

/-! ## What a container holds -/

theorem keyOf_eq_ok {v : Value} {key : MapKey} (hk : h.keyOf v = .ok key) : key.toValue = v := by
  unfold keyOf at hk
  cases v <;> cases hk <;> rfl

/-- The items of a list after conversion. -/
theorem made_convertItems {f : Heap → Value → Outcome (Value × Heap)} {elem : HostType}
    (hgrow : ∀ {h v w h'}, f h v = .ok (w, h') → h.Grows h')
    (hf : ∀ {h v w h'}, f h v = .ok (w, h') → Made h (w, h') elem) :
    ∀ {vs ws : List Value} {h h' : Heap}, convertItems f h vs = .ok (ws, h') →
      (∀ w ∈ ws, Conforms h'.shapes w elem) ∧ (h.WellTyped → h'.WellTyped)
  | [], ws, h, h', hc => by
    cases hc
    exact ⟨nofun, id⟩
  | v :: rest, ws, h, h', hc => by
    obtain ⟨⟨w, h₁⟩, h1, hc⟩ := Outcome.bind_eq_ok.mp hc
    obtain ⟨⟨ws', h₂⟩, h2, hc⟩ := Outcome.bind_eq_ok.mp hc
    cases hc
    obtain ⟨hw, ht⟩ := hf h1
    obtain ⟨hws, hts⟩ := made_convertItems hgrow hf h2
    refine ⟨fun x hx => ?_, fun hwt => hts (ht hwt)⟩
    obtain rfl | hx := List.mem_cons.mp hx
    · exact hw.mono (shapes_le_of_grows (grows_convertItems hgrow h2))
    · exact hws x hx

/-- The entries of a map after conversion. -/
theorem made_convertEntries {f g : Heap → Value → Outcome (Value × Heap)} {key value : HostType}
    (hgrowKey : ∀ {h v w h'}, f h v = .ok (w, h') → h.Grows h')
    (hgrowValue : ∀ {h v w h'}, g h v = .ok (w, h') → h.Grows h')
    (hf : ∀ {h v w h'}, f h v = .ok (w, h') → Made h (w, h') key)
    (hg : ∀ {h v w h'}, g h v = .ok (w, h') → Made h (w, h') value) :
    ∀ {es stored entries : List (MapKey × Value)} {h h' : Heap},
      convertEntries f g h stored es = .ok (entries, h') →
      (∀ e ∈ stored, Conforms h.shapes e.1.toValue key ∧ Conforms h.shapes e.2 value) →
      (∀ e ∈ entries, Conforms h'.shapes e.1.toValue key ∧ Conforms h'.shapes e.2 value) ∧
        (h.WellTyped → h'.WellTyped)
  | [], stored, entries, h, h', hc, hs => by
    cases hc
    exact ⟨hs, id⟩
  | (k, v) :: rest, stored, entries, h, h', hc, hs => by
    obtain ⟨⟨k', h₁⟩, h1, hc⟩ := Outcome.bind_eq_ok.mp hc
    obtain ⟨key', hkey, hc⟩ := Outcome.bind_eq_ok.mp hc
    obtain ⟨⟨v', h₂⟩, h2, hc⟩ := Outcome.bind_eq_ok.mp hc
    -- Converting the value may add objects, so what is known of the key has to be carried over.
    obtain ⟨hk, ht₁⟩ := hf h1
    obtain ⟨hv, ht₂⟩ := hg h2
    have hle₂ := shapes_le_of_grows (hgrowValue h2)
    have hle := (shapes_le_of_grows (hgrowKey h1)).trans hle₂
    have hstored : ∀ e ∈ MapCell.insertIn key' v' stored,
        Conforms h₂.shapes e.1.toValue key ∧ Conforms h₂.shapes e.2 value := by
      intro e he
      obtain he | ⟨hev, hek⟩ := MapCell.mem_insertIn he
      · exact ⟨(hs e he).1.mono hle, (hs e he).2.mono hle⟩
      · refine ⟨?_, hev ▸ hv⟩
        obtain hek | ⟨e', he', hek⟩ := hek
        · rw [hek, keyOf_eq_ok hkey]
          exact hk.mono hle₂
        · rw [← hek]
          exact (hs e' he').1.mono hle
    obtain ⟨hes, ht₃⟩ := made_convertEntries hgrowKey hgrowValue hf hg hc hstored
    exact ⟨hes, fun ht => ht₃ (ht₂ (ht₁ ht))⟩

/-- The values conform to what the fields declare. -/
abbrev FieldsConform (h : Heap) (values : List Value) (fields : List (String × HostType)) : Prop :=
  List.Forall₂ (fun v field => Conforms h.shapes v field.2) values fields

theorem FieldsConform.mono {values : List Value} {fields : List (String × HostType)}
    (hf : h.FieldsConform values fields) (hle : h.shapes.Le h'.shapes) :
    h'.FieldsConform values fields :=
  List.Forall₂.imp (fun _ _ hv => hv.mono hle) hf

/-- The values of a struct's fields after some were set. -/
theorem made_fillFields {f : Heap → List Value → String → Value → Outcome (List Value × Heap)}
    {fields : List (String × HostType)}
    (hf : ∀ {h vs n v ws h'}, f h vs n v = .ok (ws, h') → h.FieldsConform vs fields →
      h'.FieldsConform ws fields ∧ (h.WellTyped → h'.WellTyped))
    {failure : Outcome (List Value × Heap)} (hfail : ∀ r, failure ≠ .ok r) :
    ∀ {es : List (MapKey × Value)} {h h' : Heap} {vs ws : List Value},
      fillFields f failure h vs es = .ok (ws, h') → h.FieldsConform vs fields →
      h'.FieldsConform ws fields ∧ (h.WellTyped → h'.WellTyped)
  | [], h, h', vs, ws, hc, hv => by
    cases hc
    exact ⟨hv, id⟩
  | (key, v) :: rest, h, h', vs, ws, hc, hv => by
    cases key with
    | str field =>
      obtain ⟨⟨vs', h₁⟩, h1, hc⟩ := Outcome.bind_eq_ok.mp hc
      obtain ⟨hv₁, ht₁⟩ := hf h1 hv
      obtain ⟨hv₂, ht₂⟩ := made_fillFields hf hfail hc hv₁
      exact ⟨hv₂, fun ht => ht₂ (ht₁ ht)⟩
    | _ => exact absurd hc (hfail _)

/-! ## Conversion -/

theorem get?_list_of_has {id : ListId} (hv : h.has (.list id)) :
    h.lists.get? id = some (h.list id) := by
  obtain ⟨c, hc⟩ := Option.isSome_iff_exists.mp (show (h.lists.get? id).isSome from hv)
  rw [hc, list_eq hc]

theorem get?_map_of_has {id : MapId} (hv : h.has (.map id)) :
    h.maps.get? id = some (h.map id) := by
  obtain ⟨c, hc⟩ := Option.isSome_iff_exists.mp (show (h.maps.get? id).isSome from hv)
  unfold map
  rw [hc]
  rfl

theorem get?_handle_of_has {id : HandleId} (hv : h.has (.handle id)) :
    h.handles.get? id = some (h.handle id) := by
  obtain ⟨c, hc⟩ := Option.isSome_iff_exists.mp (show (h.handles.get? id).isSome from hv)
  unfold handle
  rw [hc]
  rfl

theorem shapes_list {id : ListId} (hv : h.has (.list id)) :
    h.shapes.lists id = some (h.list id).shape := by
  show (h.lists.get? id).map _ = _
  rw [get?_list_of_has hv]
  rfl

theorem shapes_map {id : MapId} (hv : h.has (.map id)) :
    h.shapes.maps id = some (h.map id).shape := by
  show (h.maps.get? id).map _ = _
  rw [get?_map_of_has hv]
  rfl

theorem shapes_handle {id : HandleId} (hv : h.has (.handle id)) :
    h.shapes.handles id = some (h.handle id).shape := by
  show (h.handles.get? id).map _ = _
  rw [get?_handle_of_has hv]
  rfl

theorem made_same {v : Value} {type : HostType} (hc : Conforms h.shapes v type) :
    Made h (v, h) type := ⟨hc, id⟩

/-- A new list of items of its element type. -/
theorem made_addList (c : ListCell) {elem : HostType} (type : HostType)
    (helem : c.elemType = some elem)
    (hitems : ∀ v ∈ c.items.toList, Conforms h.shapes v elem)
    (htype : ∀ {σ : Shapes} {id : ListId}, σ.lists id = some c.shape →
      Conforms σ (.list id) type) : Made h (h.addList c) type where
  conforms := htype (shapes_addList h c)
  wellTyped ht := ht.addList fun v hv => by
    rw [helem]
    exact (hitems v hv).to

theorem padded_eq_ok {items : List Value} {len : Nat} {v : Value} {padding : Array Value}
    (hp : padded items len v = .ok padding) :
    padding = items.toArray ++ Array.replicate (len - items.length) v := by
  unfold padded at hp
  split at hp
  · exact (Except.ok.inj hp).symm
  · cases hp

/-- As many items come out as go in. -/
theorem length_convertItems {f : Heap → Value → Outcome (Value × Heap)} :
    ∀ {vs ws : List Value} {h h' : Heap}, convertItems f h vs = .ok (ws, h') →
      ws.length = vs.length
  | [], ws, h, h', hc => by cases hc; rfl
  | v :: rest, ws, h, h', hc => by
    obtain ⟨⟨w, h₁⟩, -, hc⟩ := Outcome.bind_eq_ok.mp hc
    obtain ⟨⟨ws', h₂⟩, h2, hc⟩ := Outcome.bind_eq_ok.mp hc
    cases hc
    rw [List.length_cons, List.length_cons, length_convertItems h2]

/-! ### Containers that are passed on -/

section
variable {elem key value : HostType} {len : Nat} {id : Nat}

theorem made_sameSlice (hhas : h.has (.list id))
    (hsame : (!(h.list id).fixed && (h.list id).elemType == some elem) = true) :
    Made h (.list id, h) (.slice elem) := by
  have hs := shapes_list hhas
  simp only [Bool.and_eq_true, Bool.not_eq_true', beq_iff_eq] at hsame
  rw [ListCell.shape, hsame.1, hsame.2] at hs
  exact made_same (.slice hs)

theorem made_plainSlice (hhas : h.has (.list id))
    (hplain : (elem == .any && (h.list id).isGrowable) = true) :
    Made h (.list id, h) (.slice elem) := by
  have hs := shapes_list hhas
  simp only [ListCell.isGrowable, Bool.and_eq_true, Bool.not_eq_true', beq_iff_eq,
    Option.isNone_iff_eq_none] at hplain
  obtain ⟨rfl, hfixed, hnone⟩ := hplain
  rw [ListCell.shape, hfixed, hnone] at hs
  exact made_same (.plainSlice hs)

theorem made_sameArray (hhas : h.has (.list id))
    (hsame : ((h.list id).fixed && (h.list id).elemType == some elem &&
      (h.list id).items.size == len) = true) : Made h (.list id, h) (.array elem len) := by
  have hs := shapes_list hhas
  simp only [Bool.and_eq_true, beq_iff_eq] at hsame
  obtain ⟨⟨hfixed, helem⟩, hlen⟩ := hsame
  rw [ListCell.shape, hfixed, helem, hlen] at hs
  exact made_same (.array hs)

theorem made_sameMap (hhas : h.has (.map id))
    (hsame : ((h.map id).keyType == some key && (h.map id).valueType == some value) = true) :
    Made h (.map id, h) (.map key value) := by
  have hs := shapes_map hhas
  simp only [Bool.and_eq_true, beq_iff_eq] at hsame
  rw [MapCell.shape, hsame.1, hsame.2] at hs
  exact made_same (.map hs)

theorem made_plainMap (hhas : h.has (.map id))
    (hplain : (key == .any && value == .any && (h.map id).keyType.isNone) = true) :
    Made h (.map id, h) (.map key value) := by
  have hs := shapes_map hhas
  simp only [Bool.and_eq_true, beq_iff_eq, Option.isNone_iff_eq_none] at hplain
  obtain ⟨⟨rfl, rfl⟩, hnone⟩ := hplain
  rw [MapCell.shape, hnone] at hs
  exact made_same (.plainMap hs)

theorem made_sameStruct {name : String} {fields : List (String × HostType)} {cell : StructCell}
    (hhas : h.has (.handle id)) (hcell : h.handle id = .struct cell)
    (hname : (cell.name == name) = true) : Made h (.handle id, h) (.struct name fields) := by
  have hs := shapes_handle hhas
  rw [hcell, Handle.shape, beq_iff_eq.mp hname] at hs
  exact made_same (.struct hs)

theorem made_sameHandle {name : String} (hhas : h.has (.handle id))
    (hname : ((h.handle id).typeName == name) = true) : Made h (.handle id, h) (.handle name) := by
  have hs := shapes_handle hhas
  rw [beq_iff_eq] at hname
  subst hname
  cases ho : h.handle id with
  | struct cell =>
    rw [ho] at hs
    exact made_same (.structHandle hs)
  | token typeName =>
    rw [ho] at hs
    exact made_same (.handle hs)

end

/-! ### Containers that are built anew -/

/-- An array of converted items, filled up with zero values. -/
theorem made_newArray {elem : HostType} {len : Nat} {items : List Value} {z : Value}
    {padding : Array Value} (hitems : ∀ v ∈ items, Conforms h.shapes v elem)
    (hz : h.zero elem = .ok (z, h')) (hpad : padded items len z = .ok padding)
    (hlen : items.length ≤ len) :
    Conforms (h'.addList ⟨padding, some elem, true⟩).2.shapes (.list h'.lists.next)
        (.array elem len) ∧
      (h.WellTyped → (h'.addList ⟨padding, some elem, true⟩).2.WellTyped) := by
  obtain ⟨hzero, ht⟩ := made_zero hz
  have hpadding := padded_eq_ok hpad
  have hsize : padding.size = len := by
    rw [hpadding, Array.size_append, Array.size_replicate, List.size_toArray]
    omega
  have hall : ∀ v ∈ padding.toList, Conforms h'.shapes v elem := by
    intro v hv
    rw [hpadding, Array.toList_append, List.mem_append, Array.toList_replicate] at hv
    rcases hv with hv | hv
    · exact (hitems v hv).mono (shapes_le_of_grows (grows_zero hz))
    · rw [List.eq_of_mem_replicate hv]
      exact hzero
  have hmade : Made h' (h'.addList ⟨padding, some elem, true⟩) (.array elem len) := by
    refine made_addList _ _ rfl hall fun hs => ?_
    rw [ListCell.shape, if_pos rfl, hsize] at hs
    exact .array hs
  exact ⟨hmade.conforms, fun hw => hmade.wellTyped (ht hw)⟩

/-- A value that passes for one of the type conforms. -/
theorem conforms_of_adapts {v w : Value} {type : HostType} (hhas : h.has v = true)
    (ha : h.Adapts v type w) : Conforms h.shapes w type := by
  cases ha with
  | any => exact .any
  | bool => exact .bool
  | int | cut => exact .int (IntKind.holds_wrap _ _)
  | double | float | single | rounded => exact .float
  | string => exact .string
  | slice hsame => exact (made_sameSlice hhas hsame).conforms
  | plainSlice hplain => exact (made_plainSlice hhas hplain).conforms
  | array hsame => exact (made_sameArray hhas hsame).conforms
  | map hsame => exact (made_sameMap hhas hsame).conforms
  | plainMap hplain => exact (made_plainMap hhas hplain).conforms
  | chan => exact .chan
  | func => exact .func
  | struct hcell hname => exact (made_sameStruct hhas hcell hname).conforms
  | handle hname => exact (made_sameHandle hhas hname).conforms

/-- **A converted value conforms.** -/
theorem made_convert (type : HostType) {h h' : Heap} {v w : Value}
    (hc : h.convert v type = .ok (w, h')) : Made h (w, h') type := by
  induction type using HostType.induct generalizing h h' v w with
  | parts type ih =>
    have hconversion := conversion h v type
    rw [hc] at hconversion
    generalize ho : Except.ok (w, h') = o at hconversion
    cases hconversion with
    | adapts hhas ha =>
      cases ho
      exact made_same (conforms_of_adapts hhas ha)
    | mismatch => cases ho
    | zero => exact made_zero ho.symm
    | slice id elem =>
      obtain ⟨⟨items, h₁⟩, h1, ho⟩ := Outcome.bind_eq_ok.mp ho.symm
      cases ho
      obtain ⟨hitems, ht⟩ := made_convertItems (grows_convert elem)
        (ih elem (by simp [HostType.parts])) (Outcome.orMismatch_eq_ok h1)
      have hmade := made_addList ⟨items.toArray, some elem, false⟩ (.slice elem)
        rfl hitems fun hs => .slice hs
      exact ⟨hmade.conforms, fun hw => hmade.wellTyped (ht hw)⟩
    | @array id elem len hlong =>
      obtain ⟨⟨items, h₁⟩, h1, ho⟩ := Outcome.bind_eq_ok.mp ho.symm
      obtain ⟨⟨z, h₂⟩, h2, ho⟩ := Outcome.bind_eq_ok.mp ho
      obtain ⟨padding, hpad, ho⟩ := Outcome.bind_eq_ok.mp ho
      cases ho
      have hconv := Outcome.orMismatch_eq_ok h1
      obtain ⟨hitems, ht⟩ := made_convertItems (grows_convert elem)
        (ih elem (by simp [HostType.parts])) hconv
      have hlen : items.length ≤ len := by
        rw [length_convertItems hconv, Array.length_toList]
        omega
      obtain ⟨hconforms, ht'⟩ := made_newArray hitems h2 hpad hlen
      exact ⟨hconforms, fun hw => ht' (ht hw)⟩
    | map id key value =>
      obtain ⟨⟨entries, h₁⟩, h1, ho⟩ := Outcome.bind_eq_ok.mp ho.symm
      cases ho
      obtain ⟨hes, ht⟩ := made_convertEntries (grows_convert key) (grows_convert value)
        (ih key (by simp [HostType.parts])) (ih value (by simp [HostType.parts]))
        (Outcome.orMismatch_eq_ok h1) (fun e he => by cases he)
      exact ⟨.map (shapes_addMap _ _),
        fun hw => (ht hw).addMap fun e he => ⟨(hes e he).1.to, (hes e he).2.to⟩⟩
    | struct id name fields =>
      obtain ⟨⟨values, h₁⟩, h1, ho⟩ := Outcome.bind_eq_ok.mp ho.symm
      obtain ⟨⟨values', h₂⟩, h2, ho⟩ := Outcome.bind_eq_ok.mp ho
      cases ho
      have hzero := made_zeroValues fields h
      rw [← zeroFields_eq_ok h1] at hzero
      have hset {h h' : Heap} {vs ws : List Value} {n : String} {v : Value}
          (hset : h.setField name fields 0 n v vs = .ok (ws, h')) (hv : h.FieldsConform vs fields) :
          h'.FieldsConform ws fields ∧ (h.WellTyped → h'.WellTyped) := by
        obtain ⟨k, n, type, w, hk, hw, rfl⟩ := setField_eq_ok hset
        obtain ⟨hconforms, ht⟩ := ih type (HostType.mem_parts (List.mem_of_getElem? hk)) hw
        rw [Nat.zero_add]
        exact ⟨forall₂_set (hv.mono (shapes_le_of_grows (grows_convert type hw))) hk hconforms, ht⟩
      obtain ⟨hfill, ht⟩ := made_fillFields hset (mismatch_ne_ok _ _ _) h2 hzero.1
      exact ⟨.struct (shapes_addHandle _ _), fun hw => (ht (hzero.2 hw)).addHandle hfill⟩

/-- An element that is converted for a container conforms to what the container declares. -/
theorem conformsTo_convertTo {v w : Value} {type : Option HostType}
    (hc : h.convertTo v type = .ok (w, h')) :
    ConformsTo h'.shapes w type ∧ (h.WellTyped → h'.WellTyped) := by
  cases type with
  | none => cases hc; exact ⟨conformsTo_none _ _, id⟩
  | some type => exact ⟨(made_convert type hc).conforms.to, (made_convert type hc).wellTyped⟩

end Heap
end ScriptEngine
