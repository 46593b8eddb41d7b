import ScriptEngine.Heap.Container

/-! # Zero values and conversions only add objects

A zero value and a converted container are made of new lists, maps and handles.  Nothing that is
in the heap already is changed by making them, and no function, channel or scope comes or goes:
the heap only **grows** (`Heap.Grows`).  Whatever a proof knows about an object is therefore still
true after any number of conversions.

What a conversion does is told in one place (`Heap.conversion`), one case for each way that it can go; it
converts further values only to the parts of its type.  So whatever is true of all conversions is proved by
these cases, by induction on the parts of the type (`HostType.induct`).
-/
namespace ScriptEngine

/-! ## Types and their parts -/

namespace HostType

/-- The types that a type is made of. -/
def parts : HostType → List HostType
  | .slice elem | .array elem _ => [elem]
  | .map key value => [key, value]
  | .struct _ fields => fields.map (·.2)
  | .any | .bool | .int _ | .float _ | .string | .chan _ | .func | .handle _ => []

theorem mem_parts {name : String} {fields : List (String × HostType)} {field : String × HostType}
    (hfield : field ∈ fields) : field.2 ∈ (HostType.struct name fields).parts :=
  List.mem_map_of_mem hfield

theorem sizeOf_lt_of_mem_parts {type part : HostType} (hpart : part ∈ type.parts) :
    sizeOf part < sizeOf type := by
  cases type with
  | slice elem | array elem len =>
    cases List.mem_singleton.mp hpart
    simp only [HostType.slice.sizeOf_spec, HostType.array.sizeOf_spec]
    omega
  | map key value =>
    rw [HostType.map.sizeOf_spec]
    obtain rfl | hpart := List.mem_cons.mp hpart
    · omega
    · cases List.mem_singleton.mp hpart
      omega
  | struct name fields =>
    obtain ⟨⟨n, type⟩, hfield, rfl⟩ := List.mem_map.mp hpart
    have hlt := List.sizeOf_lt_of_mem hfield
    rw [Prod.mk.sizeOf_spec] at hlt
    show sizeOf type < _
    rw [HostType.struct.sizeOf_spec]
    omega
  | _ => cases hpart

/-- **Induction on the parts of a type.** -/
@[elab_as_elim]
theorem induct {C : HostType → Prop} (parts : ∀ type, (∀ part ∈ type.parts, C part) → C type)
    (type : HostType) : C type :=
  parts type fun part _ => induct parts part
termination_by sizeOf type
decreasing_by exact sizeOf_lt_of_mem_parts ‹_›

end HostType

/-! ## Outcomes -/

theorem Outcome.bind_eq_ok {α β : Type} {x : Outcome α} {f : α → Outcome β} {b : β} :
    x >>= f = .ok b ↔ ∃ a, x = .ok a ∧ f a = .ok b := by
  cases x with
  | error e =>
    constructor
    · intro h; cases h
    · rintro ⟨_, h, _⟩; cases h
  | ok a =>
    constructor
    · intro h; exact ⟨a, rfl, h⟩
    · rintro ⟨_, ha, h⟩; cases ha; exact h

theorem Outcome.bind_eq_error {α β : Type} {x : Outcome α} {f : α → Outcome β} {e : Failure} :
    x >>= f = .error e ↔ x = .error e ∨ ∃ a, x = .ok a ∧ f a = .error e := by
  cases x with
  | error e' =>
    constructor
    · intro h; cases h; exact .inl rfl
    · rintro (h | ⟨_, h, _⟩) <;> cases h; rfl
  | ok a =>
    constructor
    · intro h; exact .inr ⟨a, rfl, h⟩
    · rintro (h | ⟨_, ha, h⟩)
      · cases h
      · cases ha; exact h

theorem Outcome.map_eq_ok {α β : Type} {x : Outcome α} {f : α → β} {b : β} :
    x.map f = .ok b ↔ ∃ a, x = .ok a ∧ f a = b := by
  cases x with
  | error e =>
    constructor
    · intro h; cases h
    · rintro ⟨_, h, _⟩; cases h
  | ok a =>
    constructor
    · intro h; exact ⟨a, rfl, Except.ok.inj h⟩
    · rintro ⟨_, ha, rfl⟩; cases ha; rfl

/-- An outcome told as a mismatch is a success only if it was one. -/
theorem Outcome.orMismatch_eq_ok {α : Type} {o : Outcome α} {h : Heap} {type : HostType}
    {v : Value} {a : α} (ho : o.orMismatch h type v = .ok a) : o = .ok a := by
  unfold Outcome.orMismatch at ho
  split at ho
  · exact ho
  · cases ho
  · cases ho

/-! ## Stores that only get new objects -/

namespace Store
variable {α : Type}

/-- Every object of the first store is still there, unchanged, in the second. -/
structure Extends (s s' : Store α) : Prop where
  next_le : s.next ≤ s'.next
  get?_eq : ∀ id, id < s.next → s'.get? id = s.get? id

theorem Extends.refl (s : Store α) : s.Extends s := ⟨Nat.le_refl _, fun _ _ => rfl⟩

theorem Extends.trans {s s' s'' : Store α} (h : s.Extends s') (h' : s'.Extends s'') :
    s.Extends s'' where
  next_le := Nat.le_trans h.next_le h'.next_le
  get?_eq id hid := (h'.get?_eq id (Nat.lt_of_lt_of_le hid h.next_le)).trans (h.get?_eq id hid)

@[simp] theorem next_push (s : Store α) (a : α) : (s.push a).next = s.next + 1 := by
  simp [next, push]

theorem extends_push (s : Store α) (a : α) : s.Extends (s.push a) where
  next_le := by rw [next_push]; exact Nat.le_succ _
  get?_eq _ hid := get?_push_of_ne (Nat.ne_of_lt hid)

/-- Numbers that were not given out yet have no object. -/
theorem get?_eq_none {s : Store α} {id : Nat} (hid : s.next ≤ id) : s.get? id = none := by
  unfold get?
  rw [Array.getElem?_eq_none hid]
  rfl

theorem get?_modify_self (s : Store α) (id : Nat) (f : α → α) :
    (s.modify id f).get? id = (s.get? id).map f := by
  simp only [get?, modify, Array.getElem?_modify, if_true]
  cases s.slots[id]? <;> simp

theorem get?_modify_of_ne {s : Store α} {id other : Nat} {f : α → α} (h : other ≠ id) :
    (s.modify id f).get? other = s.get? other := by
  simp [get?, modify, Array.getElem?_modify, Ne.symm h]

theorem lt_next {s : Store α} {id : Nat} {a : α} (h : s.get? id = some a) : id < s.next := by
  rcases Nat.lt_or_ge id s.next with hlt | hge
  · exact hlt
  · rw [get?_eq_none hge] at h; cases h

theorem Extends.get?_some {s s' : Store α} (h : s.Extends s') {id : Nat} {a : α}
    (ha : s.get? id = some a) : s'.get? id = some a :=
  (h.get?_eq id (lt_next ha)).trans ha

end Store

namespace Heap

/-! ## What has been made -/

/-- A list that is there is read as it is. -/
theorem list_eq {h : Heap} {id : ListId} {c : ListCell} (hc : h.lists.get? id = some c) :
    h.list id = c := by
  rw [list, hc]
  rfl

/-- A list with an item has been made. -/
theorem lt_of_mem_items {h : Heap} {id : ListId} {v : Value} (hv : v ∈ (h.list id).items.toList) :
    id < h.lists.next := by
  refine Nat.lt_of_not_le fun hid => ?_
  rw [list, Store.get?_eq_none hid] at hv
  cases hv

theorem lt_of_mem_entries {h : Heap} {id : MapId} {e : MapKey × Value} (he : e ∈ (h.map id).entries) :
    id < h.maps.next := by
  refine Nat.lt_of_not_le fun hid => ?_
  rw [map, Store.get?_eq_none hid] at he
  cases he

/-! ## Growing heaps -/

/-- The second heap has all that the first one has, and perhaps new lists, maps and handles. -/
structure Grows (h h' : Heap) : Prop where
  lists : h.lists.Extends h'.lists
  maps : h.maps.Extends h'.maps
  handles : h.handles.Extends h'.handles
  funcs : h'.funcs = h.funcs
  chans : h'.chans = h.chans
  scopes : h'.scopes = h.scopes

theorem Grows.refl (h : Heap) : h.Grows h := ⟨.refl _, .refl _, .refl _, rfl, rfl, rfl⟩

theorem Grows.trans {h h' h'' : Heap} (g : h.Grows h') (g' : h'.Grows h'') : h.Grows h'' where
  lists := g.lists.trans g'.lists
  maps := g.maps.trans g'.maps
  handles := g.handles.trans g'.handles
  funcs := g'.funcs.trans g.funcs
  chans := g'.chans.trans g.chans
  scopes := g'.scopes.trans g.scopes

theorem grows_addList (h : Heap) (c : ListCell) : h.Grows (h.addList c).2 :=
  { Grows.refl h with lists := Store.extends_push _ _ }

theorem grows_addMap (h : Heap) (c : MapCell) : h.Grows (h.addMap c).2 :=
  { Grows.refl h with maps := Store.extends_push _ _ }

theorem grows_addHandle (h : Heap) (c : Handle) : h.Grows (h.addHandle c).2 :=
  { Grows.refl h with handles := Store.extends_push _ _ }

mutual

theorem grows_zeroValue : ∀ (type : HostType) (h : Heap), h.Grows (h.zeroValue type).2
  | .any, h | .func, h | .chan _, h | .handle _, h => .refl h
  | .bool, h | .int _, h | .float _, h | .string, h => .refl h
  | .slice _, h => h.grows_addList _
  | .array elem _, h => (grows_zeroValue elem h).trans (grows_addList _ _)
  | .map _ _, h => h.grows_addMap _
  | .struct _ fields, h => (grows_zeroValues fields h).trans (grows_addHandle _ _)

theorem grows_zeroValues : ∀ (fields : List (String × HostType)) (h : Heap),
    h.Grows (h.zeroValues fields).2
  | [], h => .refl h
  | (_, type) :: rest, h => (grows_zeroValue type h).trans (grows_zeroValues rest _)

end

theorem zero_eq_ok {h : Heap} {type : HostType} {r : Value × Heap} (hz : h.zero type = .ok r) :
    r = h.zeroValue type := by
  unfold zero at hz
  split at hz
  · exact (Except.ok.inj hz).symm
  · cases hz

theorem grows_zero {h h' : Heap} {type : HostType} {v : Value} (hz : h.zero type = .ok (v, h')) :
    h.Grows h' := by
  have he := zero_eq_ok hz
  have hg := grows_zeroValue type h
  rw [← he] at hg
  exact hg

theorem zeroFields_eq_ok {h : Heap} {fields : List (String × HostType)} {r : List Value × Heap}
    (hz : h.zeroFields fields = .ok r) : r = h.zeroValues fields := by
  unfold zeroFields at hz
  split at hz
  · exact (Except.ok.inj hz).symm
  · cases hz

/-! ## Conversion of what a container holds -/

theorem grows_convertItems {f : Heap → Value → Outcome (Value × Heap)}
    (hf : ∀ {h v w h'}, f h v = .ok (w, h') → h.Grows h') :
    ∀ {vs : List Value} {h h' : Heap} {ws : List Value},
      convertItems f h vs = .ok (ws, h') → h.Grows h'
  | [], h, h', ws, hc => by
    cases hc
    exact .refl h
  | v :: rest, h, h', ws, hc => by
    obtain ⟨⟨w, h₁⟩, h1, hc⟩ := Outcome.bind_eq_ok.mp hc
    obtain ⟨⟨ws', h₂⟩, h2, hc⟩ := Outcome.bind_eq_ok.mp hc
    cases hc
    exact (hf h1).trans (grows_convertItems hf h2)

theorem grows_convertEntries {f g : Heap → Value → Outcome (Value × Heap)}
    (hf : ∀ {h v w h'}, f h v = .ok (w, h') → h.Grows h')
    (hg : ∀ {h v w h'}, g h v = .ok (w, h') → h.Grows h') :
    ∀ {es stored entries : List (MapKey × Value)} {h h' : Heap},
      convertEntries f g h stored es = .ok (entries, h') → h.Grows h'
  | [], _, _, h, h', hc => by
    cases hc
    exact .refl h
  | (key, value) :: rest, stored, entries, h, h', hc => by
    obtain ⟨⟨k, h₁⟩, h1, hc⟩ := Outcome.bind_eq_ok.mp hc
    obtain ⟨key', -, hc⟩ := Outcome.bind_eq_ok.mp hc
    obtain ⟨⟨v, h₂⟩, h2, hc⟩ := Outcome.bind_eq_ok.mp hc
    exact (hf h1).trans ((hg h2).trans (grows_convertEntries hf hg hc))

theorem grows_fillFields {f : Heap → List Value → String → Value → Outcome (List Value × Heap)}
    (hf : ∀ {h vs n v ws h'}, f h vs n v = .ok (ws, h') → h.Grows h')
    {failure : Outcome (List Value × Heap)} (hfail : ∀ r, failure ≠ .ok r) :
    ∀ {es : List (MapKey × Value)} {h h' : Heap} {vs ws : List Value},
      fillFields f failure h vs es = .ok (ws, h') → h.Grows h'
  | [], h, h', vs, ws, hc => by
    cases hc
    exact .refl h
  | (key, v) :: rest, h, h', vs, ws, hc => by
    cases key with
    | str field =>
      obtain ⟨⟨vs', h₁⟩, h1, hc⟩ := Outcome.bind_eq_ok.mp hc
      exact (hf h1).trans (grows_fillFields hf hfail hc)
    | _ => exact absurd hc (hfail _)

theorem mismatch_ne_ok {α : Type} (h : Heap) (type : HostType) (v : Value) (a : α) :
    mismatch h type v ≠ .ok a := nofun

/-! ## What a conversion does -/

/-- **A value passes for one of a type**: it is passed on as it is, or says in terms of the type what it
said before. -/
inductive Adapts (h : Heap) : Value → HostType → Value → Prop where
  | any (v : Value) : Adapts h v .any v
  | bool (b : Bool) : Adapts h (.bool b) .bool (.bool b)
  | int (kind : IntKind) (n : Int64) : Adapts h (.int n) (.int kind) (.int (kind.wrap n))
  | cut (kind : IntKind) (x : Binary64) :
      Adapts h (.float x) (.int kind) (.int (kind.wrap x.toInt64))
  | double (n : Int64) : Adapts h (.int n) (.float .float64) (.float (.ofInt64 n))
  | float (x : Binary64) : Adapts h (.float x) (.float .float64) (.float x)
  | single (n : Int64) : Adapts h (.int n) (.float .float32) (.float (.singleOfInt64 n))
  | rounded (x : Binary64) : Adapts h (.float x) (.float .float32) (.float x.toSingle)
  | string (s : String) : Adapts h (.str s) .string (.str s)
  | slice {id : ListId} {elem : HostType}
      (hsame : (!(h.list id).fixed && (h.list id).elemType == some elem) = true) :
      Adapts h (.list id) (.slice elem) (.list id)
  | plainSlice {id : ListId} {elem : HostType}
      (hplain : (elem == .any && (h.list id).isGrowable) = true) :
      Adapts h (.list id) (.slice elem) (.list id)
  | array {id : ListId} {elem : HostType} {len : Nat}
      (hsame : ((h.list id).fixed && (h.list id).elemType == some elem &&
        (h.list id).items.size == len) = true) : Adapts h (.list id) (.array elem len) (.list id)
  | map {id : MapId} {key value : HostType}
      (hsame : ((h.map id).keyType == some key && (h.map id).valueType == some value) = true) :
      Adapts h (.map id) (.map key value) (.map id)
  | plainMap {id : MapId} {key value : HostType}
      (hplain : (key == .any && value == .any && (h.map id).keyType.isNone) = true) :
      Adapts h (.map id) (.map key value) (.map id)
  | chan (id : ChanId) (elem : HostType) : Adapts h (.chan id) (.chan elem) (.chan id)
  | func (id : FuncId) : Adapts h (.func id) .func (.func id)
  | struct {id : HandleId} {name : String} {fields : List (String × HostType)} {cell : StructCell}
      (hcell : h.handle id = .struct cell) (hname : (cell.name == name) = true) :
      Adapts h (.handle id) (.struct name fields) (.handle id)
  | handle {id : HandleId} {name : String} (hname : ((h.handle id).typeName == name) = true) :
      Adapts h (.handle id) (.handle name) (.handle id)

/-- **What a conversion does**, one case for each way that it goes: a value passes for one of the type, or
for none; nil becomes the zero value; and the containers that are of another type are made anew of what is
in them, which is converted in turn. -/
inductive Conversion (h : Heap) : Value → HostType → Outcome (Value × Heap) → Prop where
  | adapts {v w : Value} {type : HostType} (hhas : h.has v = true) (ha : h.Adapts v type w) :
      Conversion h v type (.ok (w, h))
  /-- The only others that fail are maps that are to become structs. -/
  | mismatch {v : Value} {type : HostType}
      (hmap : ∀ name fields id, type = .struct name fields → v = .map id → h.has v = false) :
      Conversion h v type (mismatch h type v)
  | zero (type : HostType) : Conversion h .nil type (h.zero type)
  | slice (id : ListId) (elem : HostType) :
      Conversion h (.list id) (.slice elem)
        ((convertItems (fun h v => convert h v elem) h (h.list id).items.toList).orMismatch h
          (.slice elem) (.list id) >>= fun r => .ok (r.2.addList ⟨r.1.toArray, some elem, false⟩))
  | array {id : ListId} {elem : HostType} {len : Nat} (hlong : ¬len < (h.list id).items.size) :
      Conversion h (.list id) (.array elem len)
        ((convertItems (fun h v => convert h v elem) h (h.list id).items.toList).orMismatch h
          (.array elem len) (.list id) >>= fun r => r.2.zero elem >>= fun z =>
            padded r.1 len z.1 >>= fun items => .ok (z.2.addList ⟨items, some elem, true⟩))
  | map (id : MapId) (key value : HostType) :
      Conversion h (.map id) (.map key value)
        ((convertEntries (fun h v => convert h v key) (fun h v => convert h v value) h []
          (h.map id).entries).orMismatch h (.map key value) (.map id) >>= fun r =>
            .ok (r.2.addMap ⟨r.1, some key, some value⟩))
  | struct (id : MapId) (name : String) (fields : List (String × HostType)) :
      Conversion h (.map id) (.struct name fields)
        (h.zeroFields fields >>= fun z =>
          fillFields (fun h values field v => setField h name fields 0 field v values)
            (mismatch h (.struct name fields) (.map id)) z.2 z.1 (h.map id).entries >>= fun r =>
              .ok (r.2.addHandle (.struct ⟨name, fields, r.1⟩)))

theorem conversion (h : Heap) (v : Value) (type : HostType) :
    Conversion h v type (h.convert v type) := by
  unfold convert
  split
  case isTrue hhas =>
    refine .mismatch fun _ _ _ _ _ => ?_
    simpa using hhas
  case isFalse hhas =>
    rw [Bool.not_eq_true, Bool.not_eq_false'] at hhas
    split
    case h_1 => exact .adapts hhas (.any _)
    case h_2 => exact .zero _
    case h_3 => exact .adapts hhas (.bool _)
    case h_4 => exact .adapts hhas (.int _ _)
    case h_5 => exact .adapts hhas (.cut _ _)
    case h_6 => exact .adapts hhas (.double _)
    case h_7 => exact .adapts hhas (.float _)
    case h_8 => exact .adapts hhas (.single _)
    case h_9 => exact .adapts hhas (.rounded _)
    case h_10 => exact .adapts hhas (.string _)
    case h_11 =>
      dsimp only
      split
      · exact .adapts hhas (.slice ‹_›)
      · split
        · exact .adapts hhas (.plainSlice ‹_›)
        · exact .slice _ _
    case h_12 =>
      dsimp only
      split
      · exact .adapts hhas (.array ‹_›)
      · split
        · exact .mismatch fun _ _ _ ht => by cases ht
        · exact .array ‹_›
    case h_13 =>
      dsimp only
      split
      · exact .adapts hhas (.map ‹_›)
      · split
        · exact .adapts hhas (.plainMap ‹_›)
        · exact .map _ _ _
    case h_14 => exact .adapts hhas (.chan _ _)
    case h_15 => exact .adapts hhas (.func _)
    case h_16 =>
      split
      · split
        · exact .adapts hhas (.struct ‹_› ‹_›)
        · exact .mismatch fun _ _ _ _ hv => by cases hv
      · exact .mismatch fun _ _ _ _ hv => by cases hv
    case h_17 => exact .struct _ _ _
    case h_18 =>
      split
      · exact .adapts hhas (.handle ‹_›)
      · exact .mismatch fun _ _ _ ht => by cases ht
    case h_19 _ hmap _ =>
      exact .mismatch fun name fields id ht hv => (hmap name fields id ht hv).elim

/-- Setting a field converts the value to the type of the first field of this name. -/
theorem setField_eq_ok {fields : List (String × HostType)} {h h' : Heap} {name field : String}
    {i : Nat} {v : Value} {vs ws : List Value}
    (hset : h.setField name fields i field v vs = .ok (ws, h')) :
    ∃ k n type w, fields[k]? = some (n, type) ∧ h.convert v type = .ok (w, h') ∧
      ws = vs.set (i + k) w := by
  induction fields generalizing i with
  | nil =>
    unfold setField at hset
    cases hset
  | cons first rest ih =>
    obtain ⟨n, type⟩ := first
    unfold setField at hset
    split at hset
    · obtain ⟨⟨w, h₁⟩, h1, hset⟩ := Outcome.bind_eq_ok.mp hset
      cases hset
      exact ⟨0, n, type, w, rfl, h1, rfl⟩
    · obtain ⟨k, n, type, w, hk, hw, rfl⟩ := ih hset
      exact ⟨k + 1, n, type, w, hk, hw, by rw [Nat.add_assoc, Nat.add_comm 1]⟩

/-- **Conversion only adds objects.** -/
theorem grows_convert (type : HostType) {h h' : Heap} {v w : Value}
    (hc : h.convert v type = .ok (w, h')) : h.Grows h' := by
  induction type using HostType.induct generalizing h h' v w with
  | parts type ih =>
    have hconversion := conversion h v type
    rw [hc] at hconversion
    generalize ho : Except.ok (w, h') = o at hconversion
    cases hconversion with
    | adapts => cases ho; exact .refl h
    | mismatch => cases ho
    | zero => exact grows_zero ho.symm
    | slice id elem =>
      obtain ⟨⟨items, h₁⟩, h1, ho⟩ := Outcome.bind_eq_ok.mp ho.symm
      cases ho
      exact (grows_convertItems (ih elem (by simp [HostType.parts]))
        (Outcome.orMismatch_eq_ok h1)).trans (grows_addList _ _)
    | @array id elem len _ =>
      obtain ⟨⟨items, h₁⟩, h1, ho⟩ := Outcome.bind_eq_ok.mp ho.symm
      obtain ⟨⟨z, h₂⟩, h2, ho⟩ := Outcome.bind_eq_ok.mp ho
      obtain ⟨padding, -, ho⟩ := Outcome.bind_eq_ok.mp ho
      cases ho
      exact (grows_convertItems (ih elem (by simp [HostType.parts]))
        (Outcome.orMismatch_eq_ok h1)).trans ((grows_zero h2).trans (grows_addList _ _))
    | map id key value =>
      obtain ⟨⟨entries, h₁⟩, h1, ho⟩ := Outcome.bind_eq_ok.mp ho.symm
      cases ho
      exact (grows_convertEntries (ih key (by simp [HostType.parts]))
        (ih value (by simp [HostType.parts])) (Outcome.orMismatch_eq_ok h1)).trans (grows_addMap _ _)
    | struct id name fields =>
      obtain ⟨⟨values, h₁⟩, h1, ho⟩ := Outcome.bind_eq_ok.mp ho.symm
      obtain ⟨⟨values', h₂⟩, h2, ho⟩ := Outcome.bind_eq_ok.mp ho
      cases ho
      have hz : h.Grows h₁ := by
        have hg := grows_zeroValues fields h
        rw [← zeroFields_eq_ok h1] at hg
        exact hg
      have hset {h h' : Heap} {vs ws : List Value} {n : String} {v : Value}
          (hset : h.setField name fields 0 n v vs = .ok (ws, h')) : h.Grows h' := by
        obtain ⟨k, n, type, w, hk, hw, -⟩ := setField_eq_ok hset
        exact ih type (HostType.mem_parts (List.mem_of_getElem? hk)) hw
      exact hz.trans ((grows_fillFields hset (mismatch_ne_ok _ _ _) h2).trans (grows_addHandle _ _))

theorem grows_setField {fields : List (String × HostType)} {h h' : Heap} {name field : String}
    {i : Nat} {v : Value} {vs ws : List Value}
    (hset : h.setField name fields i field v vs = .ok (ws, h')) : h.Grows h' := by
  obtain ⟨k, n, type, w, hk, hw, -⟩ := setField_eq_ok hset
  exact grows_convert type hw

/-- An element that is converted for a container leaves the heap grown at most. -/
theorem grows_convertTo {h h' : Heap} {v w : Value} {type : Option HostType}
    (hc : h.convertTo v type = .ok (w, h')) : h.Grows h' := by
  cases type with
  | none => cases hc; exact .refl h
  | some type => exact grows_convert type hc

end Heap

end ScriptEngine
