import ScriptEngine.Proofs.Heap.Footprint

/-! # New values of a zone

Operators, slices, calls of host functions and descriptions make new values.  They are made of what
the operation gets to see and of new objects, so they are of the zone as well; and channels of the zone
hand out what was sent on them, which is of the zone.
-/
namespace ScriptEngine.Heap

variable {Z : Zone} {h h' : Heap}

section
variable (hz : h.Encloses Z)
include hz

/-! ## Operators and slices -/

theorem stays_slice {target v : Value} {start stop : Option Value} (ht : target.In Z)
    (hp : h.slice target start stop = .ok (v, h')) : h.Stays Z h' ∧ v.In Z := by
  cases target with
  | list id =>
    obtain ⟨⟨i, j⟩, -, hp⟩ := Outcome.bind_eq_ok.mp hp
    cases hp
    refine hz.addList fun x hx => hz.items (Value.in_list.mp ht) x ?_
    rw [Array.toList_extract] at hx
    exact List.mem_of_mem_drop (List.mem_of_mem_take hx)
  | str s =>
    obtain ⟨_, -, hp⟩ := Outcome.bind_eq_ok.mp hp
    cases hp
    exact ⟨hz.stays, Value.in_scalar rfl⟩
  | _ => cases hp

omit hz in
theorem arithmetic_in {symbol : String} {ints : Int64 → Int64 → Int64}
    {floats : Binary64 → Binary64 → Binary64} {left right v : Value}
    (hp : h.arithmetic symbol ints floats left right = .ok v) : v.In Z := by
  obtain ⟨a, -, hp⟩ := Outcome.bind_eq_ok.mp hp
  obtain ⟨b, -, hp⟩ := Outcome.bind_eq_ok.mp hp
  split at hp <;> cases hp <;> exact Value.in_scalar rfl

theorem stays_add {left right v : Value} (hl : left.In Z) (hr : right.In Z)
    (hp : h.add left right = .ok (v, h')) : h.Stays Z h' ∧ v.In Z := by
  unfold add at hp
  split at hp
  · cases hp; exact ⟨hz.stays, Value.in_scalar rfl⟩
  · cases hp; exact ⟨hz.stays, Value.in_scalar rfl⟩
  · rename_i a b
    cases hp
    refine hz.addList fun x hx => ?_
    rw [Array.toList_append, List.mem_append] at hx
    obtain hx | hx := hx
    · exact hz.items (Value.in_list.mp hl) x hx
    · exact hz.items (Value.in_list.mp hr) x hx
  · obtain ⟨w, hw, hp⟩ := Outcome.bind_eq_ok.mp hp
    cases hp
    exact ⟨hz.stays, arithmetic_in hw⟩

omit hz in
/-- All operators but the sum of two lists give scalars. -/
theorem scalarOp_in {op : BinaryOp} {left right v : Value} (hop : op ≠ .add)
    (hp : h.scalarOp op left right = .ok v) : v.In Z := by
  cases op with
  | add => exact absurd rfl hop
  | sub => exact arithmetic_in hp
  | mul =>
    unfold scalarOp at hp
    simp only at hp
    split at hp
    · obtain ⟨n, -, hp⟩ := Outcome.bind_eq_ok.mp hp
      split at hp <;> cases hp
      exact Value.in_scalar rfl
    · exact arithmetic_in hp
  | mod =>
    obtain ⟨a, -, hp⟩ := Outcome.bind_eq_ok.mp hp
    obtain ⟨b, -, hp⟩ := Outcome.bind_eq_ok.mp hp
    split at hp <;> cases hp
    exact Value.in_scalar rfl
  | pow =>
    obtain ⟨a, -, hp⟩ := Outcome.bind_eq_ok.mp hp
    obtain ⟨b, -, hp⟩ := Outcome.bind_eq_ok.mp hp
    cases hp
    cases power a b <;> exact Value.in_scalar rfl
  | shl | shr =>
    obtain ⟨a, -, hp⟩ := Outcome.bind_eq_ok.mp hp
    obtain ⟨b, -, hp⟩ := Outcome.bind_eq_ok.mp hp
    obtain ⟨c, -, hp⟩ := Outcome.bind_eq_ok.mp hp
    cases hp
    exact Value.in_scalar rfl
  | div | bitAnd | bitOr | bitXor =>
    obtain ⟨a, -, hp⟩ := Outcome.bind_eq_ok.mp hp
    obtain ⟨b, -, hp⟩ := Outcome.bind_eq_ok.mp hp
    cases hp
    exact Value.in_scalar rfl
  | lt | le | gt | ge =>
    obtain ⟨o, -, hp⟩ := Outcome.bind_eq_ok.mp hp
    cases hp
    exact Value.in_scalar rfl
  | and | or | eq | ne =>
    cases hp
    exact Value.in_scalar rfl

theorem stays_binary {op : BinaryOp} {left right v : Value} (hl : left.In Z) (hr : right.In Z)
    (hp : h.binary op left right = .ok (v, h')) : h.Stays Z h' ∧ v.In Z := by
  unfold binary at hp
  split at hp
  · exact stays_add hz hl hr hp
  · obtain ⟨w, hw, hp⟩ := Outcome.bind_eq_ok.mp hp
    cases hp
    exact ⟨hz.stays, scalarOp_in ‹_› hw⟩

omit hz in
theorem unary_in {op : UnaryOp} {v w : Value} (hp : h.unary op v = .ok w) : w.In Z := by
  cases op with
  | not => cases hp; exact Value.in_scalar rfl
  | neg =>
    obtain ⟨n, -, hp⟩ := Outcome.bind_eq_ok.mp hp
    split at hp <;> cases hp <;> exact Value.in_scalar rfl
  | bitNot =>
    obtain ⟨n, -, hp⟩ := Outcome.bind_eq_ok.mp hp
    cases hp
    exact Value.in_scalar rfl

omit hz in
theorem update_in {op : UpdateOp} {v w : Value} (hp : h.update op v = .ok w) : w.In Z := by
  unfold update at hp
  split at hp
  · cases hp; exact Value.in_scalar rfl
  · obtain ⟨n, -, hp⟩ := Outcome.bind_eq_ok.mp hp
    cases hp
    exact Value.in_scalar rfl

/-! ## Values of a type -/

theorem stays_addSlice {elem : HostType} {items : Array Value} {v : Value}
    (hitems : ∀ x ∈ items.toList, x.In Z) (hp : h.addSlice elem items = .ok (v, h')) :
    h.Stays Z h' ∧ v.In Z := by
  unfold addSlice at hp
  split at hp
  · cases hp
  · cases hp
    exact hz.addList hitems

theorem stays_make {type : HostType} {args : List Value} {v : Value}
    (hp : h.make type args = .ok (v, h')) : h.Stays Z h' ∧ v.In Z := by
  unfold make at hp
  split at hp
  · obtain ⟨len, -, hp⟩ := Outcome.bind_eq_ok.mp hp
    obtain ⟨⟨z, h₁⟩, hzero, hp⟩ := Outcome.bind_eq_ok.mp hp
    obtain ⟨items, hpad, hp⟩ := Outcome.bind_eq_ok.mp hp
    cases hp
    obtain ⟨hs, hzv⟩ := stays_zero hz hzero
    obtain ⟨hs', hv⟩ := hs.encloses.addList (c := ⟨items, some _, false⟩)
      (padded_in ((List.forall_mem_nil _) : ∀ x ∈ ([] : List Value), x.In Z) hzv hpad)
    exact ⟨hs.trans hs', hv⟩
  · obtain ⟨capacity, -, hp⟩ := Outcome.bind_eq_ok.mp hp
    cases hp
    exact hz.addChan (List.forall_mem_nil _)
  · exact stays_zero hz hp

/-- A list whose items are converted as it is made. -/
theorem stays_typedItems {type : HostType} {items ws : List Value} (hitems : ∀ v ∈ items, v.In Z)
    (hc : convertItems (fun h v => h.convert v type) h items = .ok (ws, h')) :
    h.Stays Z (h'.addList ⟨ws.toArray, some type, false⟩).2 ∧
      (h'.addList ⟨ws.toArray, some type, false⟩).1.In Z := by
  obtain ⟨hs, hws⟩ := stays_convertItems (stays_convert type) hz hitems hc
  obtain ⟨hs', hv⟩ := hs.encloses.addList (c := ⟨ws.toArray, some type, false⟩) hws
  exact ⟨hs.trans hs', hv⟩

/-! ## Host functions -/

theorem stays_convertArgs {vs ws : List Value} {types : List HostType} (hvs : ∀ v ∈ vs, v.In Z)
    (hc : h.convertArgs vs types = .ok (ws, h')) : h.Stays Z h' ∧ ∀ w ∈ ws, w.In Z := by
  induction vs generalizing h types ws with
  | nil => cases hc; exact ⟨hz.stays, List.forall_mem_nil _⟩
  | cons v rest ih =>
    cases types with
    | nil => cases hc; exact ⟨hz.stays, List.forall_mem_nil _⟩
    | cons type types =>
      obtain ⟨⟨w, h₁⟩, h1, hc⟩ := Outcome.bind_eq_ok.mp hc
      obtain ⟨⟨ws', h₂⟩, h2, hc⟩ := Outcome.bind_eq_ok.mp hc
      cases hc
      obtain ⟨hv, hrest⟩ := List.forall_mem_cons.mp hvs
      obtain ⟨hs, hw⟩ := stays_convert type hz hv h1
      obtain ⟨hs', hws⟩ := ih hs.encloses hrest h2
      exact ⟨hs.trans hs', List.forall_mem_cons.mpr ⟨hw, hws⟩⟩

theorem stays_hostArguments {f : HostFunction} {fixed args : List Value}
    {rest : Option (List Value)} (hbound : BoundIn Z (fixed, rest))
    (hc : h.hostArguments f fixed rest = .ok (args, h')) :
    h.Stays Z h' ∧ ∀ v ∈ args, v.In Z := by
  obtain ⟨⟨fixed', h₁⟩, h1, hc⟩ := Outcome.bind_eq_ok.mp hc
  obtain ⟨hs, hfixed⟩ := stays_convertArgs hz hbound.1 h1
  cases rest with
  | none => cases hc; exact ⟨hs, hfixed⟩
  | some rest =>
    obtain ⟨⟨packed, h₂⟩, h2, hc⟩ := Outcome.bind_eq_ok.mp hc
    cases hc
    obtain ⟨hs', hlist⟩ := hs.encloses.addList (c := ⟨rest.toArray, none, false⟩)
      (hbound.2 rest rfl)
    obtain ⟨hs'', hpacked⟩ := stays_convert _ hs'.encloses hlist h2
    exact ⟨hs.trans (hs'.trans hs''),
      List.forall_mem_append.mpr ⟨hfixed, List.forall_mem_singleton.mpr hpacked⟩⟩

theorem stays_hostResult {f : HostFunction} {results : List Value} {v : Value}
    (hresults : ∀ x ∈ results, x.In Z) (hc : h.hostResult f results = .ok (v, h')) :
    h.Stays Z h' ∧ v.In Z := by
  obtain ⟨vs, h₁, hvs, hv⟩ := hostResult_cases hc
  have hall : h.Stays Z h₁ ∧ ∀ x ∈ vs, x.In Z := by
    obtain ⟨rfl, rfl⟩ | hvs := hvs
    · exact ⟨hz.stays, hresults⟩
    · exact stays_convertArgs hz hresults hvs
  obtain ⟨hs, hall⟩ := hall
  obtain ⟨rfl, rfl⟩ | ⟨rfl, rfl⟩ | hv := hv
  · exact ⟨hs, Value.in_nil⟩
  · exact ⟨hs, List.forall_mem_singleton.mp hall⟩
  · cases hv
    obtain ⟨hs', hv⟩ := hs.encloses.addList (c := ⟨vs.toArray, none, false⟩) hall
    exact ⟨hs.trans hs', hv⟩

end

/-! ## Values built from descriptions -/

mutual

theorem stays_build : ∀ (b : Blueprint) {h h' : Heap} {v : Value}, h.Encloses Z →
    h.build b = .ok (v, h') → h.Stays Z h' ∧ v.In Z
  | .nil, h, h', v, hz, hb | .bool _, h, h', v, hz, hb | .int _, h, h', v, hz, hb
  | .float _, h, h', v, hz, hb | .str _, h, h', v, hz, hb => by
    unfold build at hb
    cases hb
    exact ⟨hz.stays, Value.in_scalar rfl⟩
  | .list items elemType fixed, h, h', v, hz, hb => by
    unfold build at hb
    obtain ⟨⟨vs, h₁⟩, h1, hb⟩ := Outcome.bind_eq_ok.mp hb
    cases hb
    obtain ⟨hs, hvs⟩ := stays_buildAll items hz h1
    obtain ⟨hs', hv⟩ := hs.encloses.addList (c := ⟨vs.toArray, elemType, fixed⟩) hvs
    exact ⟨hs.trans hs', hv⟩
  | .map entries keyType valueType, h, h', v, hz, hb => by
    unfold build at hb
    obtain ⟨h₁, h1, hb⟩ := Outcome.map_eq_ok.mp hb
    cases hb
    obtain ⟨hs, hv⟩ := hz.addMap (c := ⟨[], keyType, valueType⟩) (List.forall_mem_nil _)
    exact ⟨hs.trans (stays_buildEntries entries hs.encloses (Value.in_map.mp hv) h1), hv⟩
  | .func f, h, h', v, hz, hb => by
    unfold build at hb
    cases hb
    exact hz.addFunc (List.forall_mem_nil _)
  | .chan capacity elemType, h, h', v, hz, hb => by
    unfold build at hb
    cases hb
    exact hz.addChan (List.forall_mem_nil _)
  | .struct type fields, h, h', v, hz, hb => by
    unfold build at hb
    obtain ⟨⟨z, h₁⟩, hzero, hb⟩ := Outcome.bind_eq_ok.mp hb
    obtain ⟨hs, hv⟩ := stays_zero hz hzero
    cases z with
    | handle id =>
      obtain ⟨h₂, h2, hb⟩ := Outcome.bind_eq_ok.mp hb
      cases hb
      exact ⟨hs.trans (stays_buildFields fields hs.encloses (Value.in_handle.mp hv) h2), hv⟩
    | _ =>
      cases hb
      exact ⟨hs, hv⟩
  | .token typeName, h, h', v, hz, hb => by
    unfold build at hb
    cases hb
    exact hz.addHandle (List.forall_mem_nil _)

theorem stays_buildAll : ∀ (bs : List Blueprint) {h h' : Heap} {vs : List Value}, h.Encloses Z →
    h.buildAll bs = .ok (vs, h') → h.Stays Z h' ∧ ∀ v ∈ vs, v.In Z
  | [], h, h', vs, hz, hb => by
    unfold buildAll at hb
    cases hb
    exact ⟨hz.stays, List.forall_mem_nil _⟩
  | b :: rest, h, h', vs, hz, hb => by
    unfold buildAll at hb
    obtain ⟨⟨v, h₁⟩, h1, hb⟩ := Outcome.bind_eq_ok.mp hb
    obtain ⟨⟨vs', h₂⟩, h2, hb⟩ := Outcome.bind_eq_ok.mp hb
    cases hb
    obtain ⟨hs, hv⟩ := stays_build b hz h1
    obtain ⟨hs', hvs⟩ := stays_buildAll rest hs.encloses h2
    exact ⟨hs.trans hs', List.forall_mem_cons.mpr ⟨hv, hvs⟩⟩

theorem stays_buildEntries : ∀ (entries : List (Blueprint × Blueprint)) {h h' : Heap} {id : MapId},
    h.Encloses Z → Z (.map id) → h.buildEntries id entries = .ok h' → h.Stays Z h'
  | [], h, h', id, hz, hid, hb => by
    unfold buildEntries at hb
    cases hb
    exact hz.stays
  | (key, value) :: rest, h, h', id, hz, hid, hb => by
    unfold buildEntries at hb
    obtain ⟨⟨k, h₁⟩, h1, hb⟩ := Outcome.bind_eq_ok.mp hb
    obtain ⟨⟨v, h₂⟩, h2, hb⟩ := Outcome.bind_eq_ok.mp hb
    obtain ⟨h₃, h3, hb⟩ := Outcome.bind_eq_ok.mp hb
    obtain ⟨hs, -⟩ := stays_build key hz h1
    obtain ⟨hs', hv⟩ := stays_build value hs.encloses h2
    have hs'' := stays_storeEntry hs'.encloses hid hv h3
    exact hs.trans (hs'.trans (hs''.trans (stays_buildEntries rest hs''.encloses hid hb)))

theorem stays_buildFields : ∀ (fields : List (String × Blueprint)) {h h' : Heap} {id : HandleId},
    h.Encloses Z → Z (.handle id) → h.buildFields id fields = .ok h' → h.Stays Z h'
  | [], h, h', id, hz, hid, hb => by
    unfold buildFields at hb
    cases hb
    exact hz.stays
  | (name, value) :: rest, h, h', id, hz, hid, hb => by
    unfold buildFields at hb
    obtain ⟨⟨v, h₁⟩, h1, hb⟩ := Outcome.bind_eq_ok.mp hb
    obtain ⟨h₂, h2, hb⟩ := Outcome.bind_eq_ok.mp hb
    obtain ⟨hs, hv⟩ := stays_build value hz h1
    have hs' := stays_storeField hs.encloses hid hv h2
    exact hs.trans (hs'.trans (stays_buildFields rest hs'.encloses hid hb))

end

/-! ## Channels -/

section
variable (hz : h.Encloses Z)
include hz

theorem stays_accept {id : ChanId} {v : Value} (hid : Z (.chan id)) (hv : v.In Z) :
    h.Stays Z (h.modifyChan id (·.accept v)) := by
  refine hz.modifyChan hid fun c _ hc => ?_
  exact List.forall_mem_append.mpr ⟨hc, List.forall_mem_singleton.mpr hv⟩

theorem stays_offer {id : ChanId} {v : Value} {ticket : Option Nat} (hid : Z (.chan id))
    (hv : v.In Z) (hp : h.offer id v = .ok (ticket, h')) : h.Stays Z h' := by
  unfold offer at hp
  simp only at hp
  split at hp
  · cases hp
  · split at hp
    · cases hp
    · split at hp
      · cases hp
        exact stays_accept hz hid hv
      · cases hp
        exact hz.stays

theorem stays_trySend {id : ChanId} {v : Value} {sent : Bool} (hid : Z (.chan id)) (hv : v.In Z)
    (hp : h.trySend id v = .ok (sent, h')) : h.Stays Z h' := by
  obtain ⟨⟨w, h₁⟩, hw, hp⟩ := Outcome.bind_eq_ok.mp hp
  obtain ⟨hs, hw⟩ := stays_convertTo hz hv hw
  simp only at hp
  split at hp
  · cases hp
  · split at hp
    · cases hp
      exact hs.trans (stays_accept hs.encloses hid hw)
    · cases hp
      exact hs

theorem stays_tryRecv {id : ChanId} {r : Option (Value × Bool)} (hid : Z (.chan id))
    (hp : h.tryRecv id = .ok (r, h')) : h.Stays Z h' ∧ ∀ v, r.map (·.1) = some v → v.In Z := by
  have hbuffer := hz.buffer hid
  unfold tryRecv at hp
  simp only at hp
  split at hp
  · rename_i v c' hout
    cases hp
    refine ⟨hz.modifyChan hid fun c _ hc x hx => hc x (List.mem_of_mem_tail hx), ?_⟩
    rintro w ⟨rfl⟩
    unfold Channel.handOut? at hout
    split at hout
    · cases hout
    · rename_i heq
      cases hout
      exact hbuffer _ (heq ▸ List.mem_cons_self)
  · split at hp
    · obtain ⟨⟨v, h₁⟩, hv, hp⟩ := Outcome.bind_eq_ok.mp hp
      cases hp
      obtain ⟨hs, hv⟩ := stays_convertTo hz Value.in_nil hv
      refine ⟨hs, ?_⟩
      rintro w ⟨rfl⟩
      exact hv
    · cases hp
      exact ⟨hz.stays, fun _ hv => by cases hv⟩

theorem stays_closeChan {id : ChanId} (hid : Z (.chan id)) (hp : h.closeChan id = .ok h') :
    h.Stays Z h' := by
  unfold closeChan at hp
  split at hp
  · cases hp
  · cases hp
    exact hz.modifyChan hid fun _ _ hc => hc

end

end ScriptEngine.Heap
