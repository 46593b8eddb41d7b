import ScriptEngine.Heap.Copy
import ScriptEngine.Proofs.Heap.Contents
import ScriptEngine.Scope

/-! # Deep copies are typed like what they copy

A list or map that contains itself is copied while it is being copied: its copy is there before its
items are, and is referred to meanwhile.  A fixed list has the wrong length as long as that is so.
The proof therefore works with the shapes that the copies under way **promise** to have
(`Heap.promised`); when all of them are complete, every promise is kept.
-/

/-! ## One level of copying

Copying goes by the value (`Heap.CopyStep`): a leaf stays as it is, a list or a map that has been copied
already stands for its copy, and everything else is made anew from copies of its parts.  Whatever is
told about copies at every depth is told about one level first.
-/
namespace ScriptEngine.Heap
variable {source h h' : Heap} {fuel : Nat} {memo memo' : Copies} {v : Value}
variable {r : Value × Heap × Copies} {copyItem : Heap → Copies → Value → Option (Value × Heap × Copies)}

theorem copyItems_cons {rest ws : List Value} :
    copyItems copyItem h memo (v :: rest) = some (ws, h', memo') ↔
      ∃ w h₁ memo₁ ws', copyItem h memo v = some (w, h₁, memo₁) ∧
        copyItems copyItem h₁ memo₁ rest = some (ws', h', memo') ∧ ws = w :: ws' := by
  constructor
  · intro hc
    obtain ⟨⟨w, h₁, memo₁⟩, hv, hc⟩ := Option.bind_eq_some_iff.mp hc
    obtain ⟨⟨ws', h₂, memo₂⟩, hrest, hc⟩ := Option.bind_eq_some_iff.mp hc
    cases hc
    exact ⟨w, h₁, memo₁, ws', hv, hrest, rfl⟩
  · rintro ⟨w, h₁, memo₁, ws', hv, hrest, rfl⟩
    exact Option.bind_eq_some_iff.mpr ⟨_, hv, Option.bind_eq_some_iff.mpr ⟨_, hrest, rfl⟩⟩

/-- What is copied of a value, if `copyItem` copies what stands in it. -/
inductive CopyStep (source : Heap) (copyItem : Heap → Copies → Value → Option (Value × Heap × Copies))
    (h : Heap) (memo : Copies) : Value → Value × Heap × Copies → Prop
  | leaf {v : Value} (hv : v.In source.Leaf) : CopyStep source copyItem h memo v (v, h, memo)
  | listAgain {id copy : ListId} (hl : memo.lists.lookup id = some copy) :
      CopyStep source copyItem h memo (.list id) (.list copy, h, memo)
  | list {id : ListId} {items : List Value} {h₁ : Heap} {memo' : Copies}
      (hl : memo.lists.lookup id = none)
      (hitems : copyItems copyItem (h.addList { source.list id with items := #[] }).2
        { memo with lists := (id, h.lists.next) :: memo.lists } (source.list id).items.toList =
          some (items, h₁, memo')) :
      CopyStep source copyItem h memo (.list id) (.list h.lists.next,
        h₁.modifyList h.lists.next fun c => { c with items := items.toArray }, memo')
  | mapAgain {id copy : MapId} (hm : memo.maps.lookup id = some copy) :
      CopyStep source copyItem h memo (.map id) (.map copy, h, memo)
  | map {id : MapId} {values : List Value} {h₁ : Heap} {memo' : Copies}
      (hm : memo.maps.lookup id = none)
      (hvalues : copyItems copyItem (h.addMap { source.map id with entries := [] }).2
        { memo with maps := (id, h.maps.next) :: memo.maps } ((source.map id).entries.map (·.2)) =
          some (values, h₁, memo')) :
      CopyStep source copyItem h memo (.map id) (.map h.maps.next,
        h₁.modifyMap h.maps.next fun c =>
          { c with entries := ((source.map id).entries.map (·.1)).zip values }, memo')
  | struct {id : HandleId} {c : StructCell} {values : List Value} {h₁ : Heap} {memo₁ : Copies}
      (hc : source.handle id = .struct c)
      (hvalues : copyItems (fun h _ v => copyItem h {} v) h {} c.values =
        some (values, h₁, memo₁)) :
      CopyStep source copyItem h memo (.handle id) (.handle h₁.handles.next,
        (h₁.addHandle (.struct { c with values })).2, memo)

theorem copy_succ_iff :
    copy? source (fuel + 1) h memo v = some r ↔ CopyStep source (copy? source fuel) h memo v r := by
  constructor
  · intro hc
    unfold copy? at hc
    cases v with
    | list id =>
      cases hl : memo.lists.lookup id with
      | some copy =>
        simp only [hl] at hc
        cases hc
        exact .listAgain hl
      | none =>
        simp only [hl] at hc
        obtain ⟨⟨items, h₁, memo₁⟩, hitems, hc⟩ := Option.bind_eq_some_iff.mp hc
        cases hc
        exact .list hl hitems
    | map id =>
      cases hm : memo.maps.lookup id with
      | some copy =>
        simp only [hm] at hc
        cases hc
        exact .mapAgain hm
      | none =>
        simp only [hm] at hc
        obtain ⟨⟨values, h₁, memo₁⟩, hvalues, hc⟩ := Option.bind_eq_some_iff.mp hc
        cases hc
        exact .map hm hvalues
    | handle id =>
      cases ho : source.handle id with
      | token name =>
        simp only [ho] at hc
        cases hc
        exact .leaf (Value.in_handle.mpr (by rw [Leaf, ho, Handle.isStruct]))
      | struct c =>
        simp only [ho] at hc
        obtain ⟨⟨values, h₁, memo₁⟩, hvalues, hc⟩ := Option.bind_eq_some_iff.mp hc
        cases hc
        exact .struct ho hvalues
    | func id =>
      cases hc
      exact .leaf (Value.in_func.mpr trivial)
    | chan id =>
      cases hc
      exact .leaf (Value.in_chan.mpr trivial)
    | nil | bool _ | int _ | float _ | str _ =>
      cases hc
      exact .leaf (Value.in_scalar rfl)
  · intro hs
    unfold copy?
    cases hs with
    | leaf hv =>
      cases v with
      | list id => cases Value.in_list.mp hv
      | map id => cases Value.in_map.mp hv
      | handle id =>
        cases ho : source.handle id with
        | token name => simp only [ho]
        | struct c =>
          have hleaf := Value.in_handle.mp hv
          rw [Leaf, ho] at hleaf
          cases hleaf
      | _ => rfl
    | listAgain hl => simp only [hl]
    | list hl hitems =>
      simp only [hl]
      exact Option.bind_eq_some_iff.mpr ⟨_, hitems, rfl⟩
    | mapAgain hm => simp only [hm]
    | map hm hvalues =>
      simp only [hm]
      exact Option.bind_eq_some_iff.mpr ⟨_, hvalues, rfl⟩
    | struct hc hvalues =>
      simp only [hc]
      exact Option.bind_eq_some_iff.mpr ⟨_, hvalues, rfl⟩

/-! ## Looking copies up -/

section
variable {α β : Type} [BEq α] [LawfulBEq α] {original other : α} {copy found : β} {known : List (α × β)}

theorem lookup_of_cons (hl : ((original, copy) :: known).lookup other = some found) :
    other = original ∧ found = copy ∨ known.lookup other = some found := by
  rw [List.lookup_cons] at hl
  split at hl
  · rename_i heq
    exact .inl ⟨beq_iff_eq.mp heq, (Option.some.inj hl).symm⟩
  · exact .inr hl

/-- What has been copied once is not copied again. -/
theorem lookup_cons_of_lookup (hnew : known.lookup original = none)
    (hl : known.lookup other = some found) :
    ((original, copy) :: known).lookup other = some found := by
  have hne : other ≠ original := by
    rintro rfl
    cases hnew.symm.trans hl
  rw [List.lookup_cons, beq_eq_false_iff_ne.mpr hne]
  exact hl

end

end ScriptEngine.Heap

namespace ScriptEngine.Heap

/-- The shapes of the heap, where some lists count with the shape that they promise to have. -/
def promised (promise : ListId → Option ListShape) (h : Heap) : Shapes :=
  { h.shapes with lists := fun id => (promise id).or (h.shapes.lists id) }

variable {source h h' h'' : Heap} {promise : ListId → Option ListShape}

/-- What is known while `source` is copied into `h`. -/
structure Copying (source : Heap) (promise : ListId → Option ListShape) (h : Heap)
    (memo : Copies) : Prop where
  source_le : source.shapes.Le (promised promise h)
  typed : h.TypedBy (promised promise h)
  /-- What is promised is there, and lacks at most its items. -/
  pending : ∀ id x, promise id = some x →
    ∃ c, h.lists.get? id = some c ∧ c.elemType = x.elemType ∧ c.fixed = x.fixed
  lists : ∀ id copy, memo.lists.lookup id = some copy →
    (promised promise h).lists copy = some (source.list id).shape
  maps : ∀ id copy, memo.maps.lookup id = some copy →
    (promised promise h).maps copy = some (source.map id).shape

/-- The copy conforms to whatever the value conforms to. -/
def Resembles (source : Heap) (σ : Shapes) (v w : Value) : Prop :=
  ∀ type, Conforms source.shapes v type → Conforms σ w type

theorem Resembles.mono {σ τ : Shapes} {v w : Value} (hr : Resembles source σ v w)
    (hle : σ.Le τ) : Resembles source τ v w :=
  fun type hc => (hr type hc).mono hle

/-- What copying a value comes to. -/
structure Copied (source : Heap) (promise : ListId → Option ListShape) (h h' : Heap)
    (memo : Copies) : Prop extends Copying source promise h' memo where
  grows : h.Grows h'
  le : (promised promise h).Le (promised promise h')

theorem Copying.copied {memo : Copies} (hc : Copying source promise h memo) :
    Copied source promise h h memo :=
  { hc with grows := .refl h, le := .refl _ }

theorem Copied.trans {memo memo' : Copies} (hc : Copied source promise h h' memo)
    (hc' : Copied source promise h' h'' memo') : Copied source promise h h'' memo' :=
  { hc' with grows := hc.grows.trans hc'.grows, le := hc.le.trans hc'.le }

/-- Copies that were made before are still known. -/
theorem Copied.remember {memo memo' : Copies} (hc : Copying source promise h memo)
    (hc' : Copied source promise h h' memo') : Copied source promise h h' memo :=
  { hc' with
    lists := fun id copy hl => hc'.le.lists _ _ (hc.lists id copy hl)
    maps := fun id copy hm => hc'.le.maps _ _ (hc.maps id copy hm) }

theorem Copying.forget {memo : Copies} (hc : Copying source promise h memo) :
    Copying source promise h {} :=
  { hc with
    lists := fun _ _ hl => by cases hl
    maps := fun _ _ hm => by cases hm }

/-! ## Shapes that a copy has to have -/

theorem resembles_list {σ : Shapes} {id copy : ListId}
    (hs : σ.lists copy = some (source.list id).shape) :
    Resembles source σ (.list id) (.list copy) := by
  have hshape {x : ListShape} (hx : source.shapes.lists id = some x) : σ.lists copy = some x := by
    obtain ⟨c, hc, rfl⟩ := Option.map_eq_some_iff.mp hx
    rw [hs, list, hc]
    rfl
  intro type hc
  cases hc with
  | any => exact .any
  | slice hx => exact .slice (hshape hx)
  | plainSlice hx => exact .plainSlice (hshape hx)
  | array hx => exact .array (hshape hx)

theorem resembles_map {σ : Shapes} {id copy : MapId}
    (hs : σ.maps copy = some (source.map id).shape) :
    Resembles source σ (.map id) (.map copy) := by
  have hshape {x : MapShape} (hx : source.shapes.maps id = some x) : σ.maps copy = some x := by
    obtain ⟨c, hc, rfl⟩ := Option.map_eq_some_iff.mp hx
    rw [hs, map, hc]
    rfl
  intro type hc
  cases hc with
  | any => exact .any
  | map hx => exact .map (hshape hx)
  | plainMap hx => exact .plainMap (hshape hx)

theorem resembles_handle {σ : Shapes} {id copy : HandleId}
    (hs : σ.handles copy = some (source.handle id).shape) :
    Resembles source σ (.handle id) (.handle copy) := by
  have hshape {x : HandleShape} (hx : source.shapes.handles id = some x) :
      σ.handles copy = some x := by
    obtain ⟨c, hc, rfl⟩ := Option.map_eq_some_iff.mp hx
    rw [hs, handle, hc]
    rfl
  intro type hc
  cases hc with
  | any => exact .any
  | struct hx => exact .struct (hshape hx)
  | handle hx => exact .handle (hshape hx)
  | structHandle hx => exact .structHandle (hshape hx)

/-! ## Items in order -/

/-- What a way to copy one value has to achieve. -/
def CopiesWell (source : Heap)
    (copyItem : Heap → Copies → Value → Option (Value × Heap × Copies)) : Prop :=
  ∀ {promise h memo v w h' memo'}, Copying source promise h memo →
    copyItem h memo v = some (w, h', memo') →
    Copied source promise h h' memo' ∧ Resembles source (promised promise h') v w

theorem copied_copyItems {copyItem : Heap → Copies → Value → Option (Value × Heap × Copies)}
    (hitem : CopiesWell source copyItem) {vs ws : List Value} {memo memo' : Copies}
    (hc : Copying source promise h memo)
    (hcopy : copyItems copyItem h memo vs = some (ws, h', memo')) :
    Copied source promise h h' memo' ∧
      List.Forall₂ (Resembles source (promised promise h')) vs ws := by
  induction vs generalizing h memo ws with
  | nil =>
    cases hcopy
    exact ⟨hc.copied, .nil⟩
  | cons v rest ih =>
    obtain ⟨w, h₁, memo₁, ws', hone, hmore, rfl⟩ := copyItems_cons.mp hcopy
    obtain ⟨hc₁, hw⟩ := hitem hc hone
    obtain ⟨hc₂, hws⟩ := ih hc₁.toCopying hmore
    exact ⟨hc₁.trans hc₂, .cons (hw.mono hc₂.le) hws⟩

/-- The items of a copy conform to what those of the original conform to. -/
theorem conformsTo_of_resembles {σ : Shapes} {type : Option HostType} {vs ws : List Value}
    (hr : List.Forall₂ (Resembles source σ) vs ws)
    (hv : ∀ v ∈ vs, ConformsTo source.shapes v type) : ∀ w ∈ ws, ConformsTo σ w type := by
  induction hr with
  | nil => exact nofun
  | cons hvw _ ih =>
    intro w hw
    obtain rfl | hw := List.mem_cons.mp hw
    · exact fun t ht => hvw t (hv _ List.mem_cons_self t ht)
    · exact ih (fun v hmem => hv v (List.mem_cons_of_mem _ hmem)) w hw

theorem fieldsConform_of_resembles {σ : Shapes} {fields : List (String × HostType)}
    {vs ws : List Value} (hr : List.Forall₂ (Resembles source σ) vs ws)
    (hv : source.FieldsConform vs fields) :
    List.Forall₂ (fun w field => Conforms σ w field.2) ws fields := by
  induction hr generalizing fields with
  | nil =>
    cases hv
    exact .nil
  | cons hvw _ ih =>
    cases hv with
    | cons hfield hrest => exact .cons (hvw _ hfield) (ih hrest)

/-! ## Lists -/

/-- One more promise. -/
def promising (promise : ListId → Option ListShape) (copy : ListId) (x : ListShape) :
    ListId → Option ListShape :=
  fun id => if id = copy then some x else promise id

theorem Copying.promise_lt {memo : Copies} (hc : Copying source promise h memo) {id : ListId}
    {x : ListShape} (hx : promise id = some x) : id < h.lists.next := by
  obtain ⟨c, hget, -⟩ := hc.pending id x hx
  exact Store.lt_next hget

theorem Copying.promise_next {memo : Copies} (hc : Copying source promise h memo) :
    promise h.lists.next = none := by
  cases hx : promise h.lists.next with
  | none => rfl
  | some x => exact absurd (hc.promise_lt hx) (Nat.lt_irrefl _)

/-- Promises are kept by new objects of all other numbers. -/
theorem promised_le_of_grows (hg : h.Grows h')
    (hpend : ∀ id x, promise id = some x → id < h.lists.next) (copy : ListId) (x : ListShape)
    (hcopy : h.lists.next ≤ copy) :
    (promised promise h).Le (promised (promising promise copy x) h') where
  lists id y hy := by
    have hle := shapes_le_of_grows hg
    have hlt : id < h.lists.next := by
      simp only [promised] at hy
      cases hp : promise id with
      | some z => exact hpend id z hp
      | none =>
        rw [hp, Option.none_or] at hy
        obtain ⟨c, hc, -⟩ := Option.map_eq_some_iff.mp hy
        exact Store.lt_next hc
    have hne : id ≠ copy := Nat.ne_of_lt (Nat.lt_of_lt_of_le hlt hcopy)
    simp only [promised, promising, if_neg hne] at hy ⊢
    cases hp : promise id with
    | some z => rw [hp] at hy; exact hy
    | none =>
      rw [hp, Option.none_or] at hy
      rw [Option.none_or]
      exact hle.lists id y hy
  maps := (shapes_le_of_grows hg).maps
  handles := (shapes_le_of_grows hg).handles

/-- The copy of a list is there, without items yet. -/
theorem Copying.beginList {memo : Copies} (hc : Copying source promise h memo) (id : ListId) :
    Copying source (promising promise h.lists.next (source.list id).shape)
      (h.addList { source.list id with items := #[] }).2
      { memo with lists := (id, h.lists.next) :: memo.lists } := by
  have hpend : ∀ i x, promise i = some x → i < h.lists.next := fun _ _ hx => hc.promise_lt hx
  have hle := promised_le_of_grows (grows_addList h { source.list id with items := #[] }) hpend
    h.lists.next (source.list id).shape (Nat.le_refl _)
  constructor
  · exact hc.source_le.trans hle
  · exact (hc.typed.addList fun v hv => by cases hv).mono hle
  -- The copy is there already, declared as the original is; only its items are missing.
  · intro i x hx
    unfold promising at hx
    split at hx
    · rename_i hi
      subst hi
      cases hx
      exact ⟨_, Store.get?_push_next _ _, rfl, rfl⟩
    · rename_i hi
      obtain ⟨c, hget, hdecl⟩ := hc.pending i x hx
      exact ⟨c, (Store.get?_push_of_ne hi).trans hget, hdecl⟩
  · intro i copy hl
    obtain ⟨rfl, rfl⟩ | hl := lookup_of_cons hl
    · simp only [promised, promising, if_pos, Option.some_or]
    · exact hle.lists _ _ (hc.lists i copy hl)
  · exact fun i copy hm => hle.maps _ _ (hc.maps i copy hm)

/-- The copy of a list gets its items. -/
theorem Copying.endList {memo : Copies} {copy : ListId} {c : ListCell} {items : List Value}
    (hfree : promise copy = none)
    (hc : Copying source (promising promise copy c.shape) h memo)
    (hlen : items.length = c.items.size)
    (hitems : ∀ v ∈ items, ConformsTo (promised (promising promise copy c.shape) h) v c.elemType) :
    promised promise (h.modifyList copy fun c => { c with items := items.toArray }) =
        promised (promising promise copy c.shape) h ∧
      Copying source promise (h.modifyList copy fun c => { c with items := items.toArray }) memo := by
  obtain ⟨cell, hcell, helem, hfixed⟩ :=
    hc.pending copy c.shape (by simp only [promising, if_pos])
  -- With its items the copy has the length it promised, so the promise may be dropped.
  have hshape : ({ cell with items := items.toArray } : ListCell).shape = c.shape := by
    simp only [ListCell.shape] at helem hfixed ⊢
    rw [helem, hfixed, List.size_toArray, hlen]
  have hpromised : promised promise (h.modifyList copy fun c => { c with items := items.toArray }) =
      promised (promising promise copy c.shape) h := by
    simp only [promised, shapes, modifyList]
    congr 1
    funext id
    by_cases hid : id = copy
    · subst hid
      rw [hfree, Option.none_or, Store.get?_modify_self, hcell]
      simp only [promising, if_pos, Option.map_some, Option.some_or]
      exact congrArg some hshape
    · simp only [promising, if_neg hid]
      rw [Store.get?_modify_of_ne hid]
  refine ⟨hpromised, ?_⟩
  constructor
  · rw [hpromised]
    exact hc.source_le
  · rw [hpromised]
    refine { lists := fun id d hd => ?_, maps := hc.typed.maps, handles := hc.typed.handles,
             chans := hc.typed.chans }
    obtain hd | ⟨rfl, a, ha, rfl⟩ := Store.get?_modify hd
    · exact hc.typed.lists id d hd
    · rw [hcell] at ha
      cases ha
      intro v hv
      rw [show cell.elemType = c.elemType from helem]
      exact hitems v hv
  · intro id x hx
    have hne : id ≠ copy := by
      rintro rfl
      rw [hfree] at hx
      cases hx
    obtain ⟨d, hget, hdecl⟩ := hc.pending id x (by simp only [promising, if_neg hne]; exact hx)
    exact ⟨d, (Store.get?_modify_of_ne hne).trans hget, hdecl⟩
  · rw [hpromised]
    exact hc.lists
  · rw [hpromised]
    exact hc.maps

/-- A change of a new object leaves all others alone. -/
theorem Grows.modifyNewList {c : ListCell} (hg : (h.addList c).2.Grows h')
    (f : ListCell → ListCell) : h.Grows (h'.modifyList h.lists.next f) := by
  have hg' := (grows_addList h c).trans hg
  refine { hg' with lists := ⟨?_, fun id hid => ?_⟩ }
  · exact Nat.le_trans hg'.lists.next_le (Nat.le_of_eq (Store.next_modify _ _ _).symm)
  · exact (Store.get?_modify_of_ne (Nat.ne_of_lt hid)).trans (hg'.lists.get?_eq id hid)

theorem Grows.modifyNewMap {c : MapCell} (hg : (h.addMap c).2.Grows h')
    (f : MapCell → MapCell) : h.Grows (h'.modifyMap h.maps.next f) := by
  have hg' := (grows_addMap h c).trans hg
  refine { hg' with maps := ⟨?_, fun id hid => ?_⟩ }
  · exact Nat.le_trans hg'.maps.next_le (Nat.le_of_eq (Store.next_modify _ _ _).symm)
  · exact (Store.get?_modify_of_ne (Nat.ne_of_lt hid)).trans (hg'.maps.get?_eq id hid)

/-! ## Maps -/

/-- New objects do not touch what is promised. -/
theorem promised_le (promise : ListId → Option ListShape) (hg : h.Grows h') : (promised promise h).Le (promised promise h') where
  lists id x hx := by
    simp only [promised] at hx ⊢
    cases hp : promise id with
    | some z => rw [hp] at hx; exact hx
    | none =>
      rw [hp, Option.none_or] at hx
      rw [Option.none_or]
      exact (shapes_le_of_grows hg).lists id x hx
  maps := (shapes_le_of_grows hg).maps
  handles := (shapes_le_of_grows hg).handles

/-- The heap has more maps or handles than before, which are typed. -/
theorem Copying.grow {memo : Copies} (hc : Copying source promise h memo) (hg : h.Grows h')
    (ht : h'.TypedBy (promised promise h')) : Copied source promise h h' memo where
  source_le := hc.source_le.trans (promised_le promise hg)
  typed := ht
  pending id x hx := by
    obtain ⟨c, hget, hdecl⟩ := hc.pending id x hx
    exact ⟨c, hg.lists.get?_some hget, hdecl⟩
  lists id copy hl := (promised_le promise hg).lists _ _ (hc.lists id copy hl)
  maps id copy hm := (promised_le promise hg).maps _ _ (hc.maps id copy hm)
  grows := hg
  le := promised_le promise hg

/-- The copy of a map is there, without entries yet. -/
theorem Copying.beginMap {memo : Copies} (hc : Copying source promise h memo) (id : MapId) :
    Copying source promise (h.addMap { source.map id with entries := [] }).2
      { memo with maps := (id, h.maps.next) :: memo.maps } := by
  have hg := grows_addMap h { source.map id with entries := [] }
  have hgrow := hc.grow hg
    ((hc.typed.addMap fun e he => by cases he).mono (promised_le promise hg))
  refine { hgrow with maps := fun i copy hm => ?_ }
  obtain ⟨rfl, rfl⟩ | hm := lookup_of_cons hm
  · exact shapes_addMap _ _
  · exact hgrow.maps i copy hm

/-- The copy of a map gets its entries. -/
theorem Copying.endMap {memo : Copies} {copy : MapId} {c : MapCell} {values : List Value}
    (hc : Copying source promise h memo)
    (hcopy : (promised promise h).maps copy = some c.shape)
    (hkeys : ∀ e ∈ c.entries, ConformsTo source.shapes e.1.toValue c.keyType)
    (hvalues : ∀ v ∈ values, ConformsTo (promised promise h) v c.valueType) :
    promised promise
        (h.modifyMap copy fun d => { d with entries := (c.entries.map (·.1)).zip values }) =
        promised promise h ∧
      Copying source promise
        (h.modifyMap copy fun d => { d with entries := (c.entries.map (·.1)).zip values }) memo := by
  have hpromised : promised promise
      (h.modifyMap copy fun d => { d with entries := (c.entries.map (·.1)).zip values }) =
      promised promise h := by
    have hshapes : (h.modifyMap copy fun d =>
        { d with entries := (c.entries.map (·.1)).zip values }).shapes = h.shapes :=
      shapes_modifyMap fun _ _ => rfl
    unfold promised
    rw [hshapes]
  refine ⟨hpromised, ?_⟩
  refine { source_le := hpromised ▸ hc.source_le, typed := ?_, pending := hc.pending,
           lists := hpromised ▸ hc.lists, maps := hpromised ▸ hc.maps }
  rw [hpromised]
  refine { lists := hc.typed.lists, maps := fun id d hd => ?_, handles := hc.typed.handles,
           chans := hc.typed.chans }
  obtain hd | ⟨rfl, a, ha, rfl⟩ := Store.get?_modify hd
  · exact hc.typed.maps id d hd
  · have hshape : a.shape = c.shape := by
      have hsome : (promised promise h).maps id = some a.shape := by
        show (h.maps.get? id).map _ = _
        rw [ha]
        rfl
      exact Option.some.inj (hsome.symm.trans hcopy)
    obtain ⟨hkey, hvalue⟩ := MapShape.mk.inj hshape
    rintro ⟨k, v⟩ he
    obtain ⟨hk, hv⟩ := List.of_mem_zip he
    obtain ⟨e, hmem, rfl⟩ := List.mem_map.mp hk
    refine ⟨?_, hvalue ▸ hvalues v hv⟩
    intro t ht
    exact conforms_key (hkeys e hmem t (hkey ▸ ht))

/-! ## All values -/

theorem WellTyped.map (ht : h.WellTyped) (id : MapId) : (h.map id).Typed h.shapes := by
  unfold Heap.map
  cases hc : h.maps.get? id with
  | none => exact fun e he => by cases he
  | some c => exact ht.maps id c hc

theorem WellTyped.handle (ht : h.WellTyped) (id : HandleId) : (h.handle id).Typed h.shapes := by
  unfold Heap.handle
  cases ho : h.handles.get? id with
  | none => exact List.Forall₂.nil
  | some o => exact ht.handles id o ho

theorem copiesWell_list (ht : source.WellTyped)
    {copyItem : Heap → Copies → Value → Option (Value × Heap × Copies)}
    (hitem : CopiesWell source copyItem) {memo memo' : Copies} {id : ListId} {items : List Value}
    (hc : Copying source promise h memo)
    (hcopy : copyItems copyItem (h.addList { source.list id with items := #[] }).2
      { memo with lists := (id, h.lists.next) :: memo.lists } (source.list id).items.toList =
        some (items, h', memo')) :
    Copied source promise h
        (h'.modifyList h.lists.next fun c => { c with items := items.toArray }) memo' ∧
      Resembles source
        (promised promise (h'.modifyList h.lists.next fun c => { c with items := items.toArray }))
        (.list id) (.list h.lists.next) := by
  have hbegin := hc.beginList id
  obtain ⟨hcopied, hitems⟩ := copied_copyItems hitem hbegin hcopy
  have hlen : items.length = (source.list id).items.size := by
    rw [← hitems.length_eq, Array.length_toList]
  obtain ⟨hpromised, hend⟩ := hcopied.toCopying.endList hc.promise_next hlen
    (conformsTo_of_resembles hitems (ht.list id))
  have hgrows := Grows.modifyNewList hcopied.grows fun c => { c with items := items.toArray }
  refine ⟨{ hend with grows := hgrows, le := ?_ }, ?_⟩
  · rw [hpromised]
    exact (promised_le_of_grows (grows_addList h _) (fun _ _ hx => hc.promise_lt hx)
      h.lists.next (source.list id).shape (Nat.le_refl _)).trans hcopied.le
  · refine resembles_list ?_
    rw [hpromised]
    simp only [promised, promising, if_pos, Option.some_or]

theorem copiesWell_map (ht : source.WellTyped)
    {copyItem : Heap → Copies → Value → Option (Value × Heap × Copies)}
    (hitem : CopiesWell source copyItem) {memo memo' : Copies} {id : MapId} {values : List Value}
    (hc : Copying source promise h memo)
    (hcopy : copyItems copyItem (h.addMap { source.map id with entries := [] }).2
      { memo with maps := (id, h.maps.next) :: memo.maps } ((source.map id).entries.map (·.2)) =
        some (values, h', memo')) :
    Copied source promise h (h'.modifyMap h.maps.next fun d =>
        { d with entries := ((source.map id).entries.map (·.1)).zip values }) memo' ∧
      Resembles source (promised promise (h'.modifyMap h.maps.next fun d =>
        { d with entries := ((source.map id).entries.map (·.1)).zip values }))
        (.map id) (.map h.maps.next) := by
  have hbegin := hc.beginMap id
  obtain ⟨hcopied, hvalues⟩ := copied_copyItems hitem hbegin hcopy
  have hshape : (promised promise h').maps h.maps.next = some (source.map id).shape :=
    hcopied.le.maps _ _ (shapes_addMap _ _)
  have htyped := ht.map id
  have hconform : ∀ v ∈ (source.map id).entries.map (·.2),
      ConformsTo source.shapes v (source.map id).valueType := by
    intro v hv
    obtain ⟨e, he, rfl⟩ := List.mem_map.mp hv
    exact (htyped e he).2
  obtain ⟨hpromised, hend⟩ := hcopied.toCopying.endMap hshape (fun e he => (htyped e he).1)
    (conformsTo_of_resembles hvalues hconform)
  have hgrows := Grows.modifyNewMap hcopied.grows fun d =>
    { d with entries := ((source.map id).entries.map (·.1)).zip values }
  refine ⟨{ hend with grows := hgrows, le := ?_ }, ?_⟩
  · rw [hpromised]
    exact (promised_le promise (grows_addMap h _)).trans hcopied.le
  · refine resembles_map ?_
    rw [hpromised]
    exact hshape

/-- **A copy is typed like its original.** -/
theorem copiesWell_copy (ht : source.WellTyped) (fuel : Nat) :
    CopiesWell source (copy? source fuel) := by
  induction fuel with
  | zero => exact fun _ hcopy => by cases hcopy
  | succ fuel ih =>
    intro promise h memo v w h' memo' hc hcopy
    cases copy_succ_iff.mp hcopy with
    | leaf => exact ⟨hc.copied, fun type hv => hv.mono hc.source_le⟩
    | listAgain hl => exact ⟨hc.copied, resembles_list (hc.lists _ _ hl)⟩
    | list _ hitems => exact copiesWell_list ht ih hc hitems
    | mapAgain hm => exact ⟨hc.copied, resembles_map (hc.maps _ _ hm)⟩
    | map _ hvalues => exact copiesWell_map ht ih hc hvalues
    | @struct id c values h₁ _ hstruct hvalues =>
      -- every field is copied on its own, so nothing is remembered from one to the next
      have hfield : CopiesWell source fun h _ v => copy? source fuel h {} v :=
        fun hc hcopy => ih hc.forget hcopy
      obtain ⟨hcopied, hvalues⟩ := copied_copyItems hfield hc.forget hvalues
      have hhandle := ht.handle id
      rw [hstruct] at hhandle
      have hg := grows_addHandle h₁ (.struct { c with values })
      have htyped := hcopied.toCopying.typed.addHandle (o := .struct { c with values })
        (fieldsConform_of_resembles hvalues hhandle)
      have hgrow := hcopied.toCopying.grow hg (htyped.mono (promised_le promise hg))
      refine ⟨Copied.remember hc (hcopied.trans hgrow), resembles_handle ?_⟩
      rw [hstruct]
      exact shapes_addHandle _ _

/-- A heap can be copied into itself. -/
theorem WellTyped.copying (ht : h.WellTyped) : Copying h (fun _ => none) h {} where
  source_le := .refl _
  typed := ht
  pending _ _ hx := by cases hx
  lists _ _ hl := by cases hl
  maps _ _ hm := by cases hm

theorem follows_deepCopy (hs : h.Sound) (v : Value) : h.Follows (h.deepCopy v).2 := by
  unfold deepCopy
  split
  · rename_i w h' memo hcopy
    obtain ⟨hcopied, -⟩ := copiesWell_copy hs.wellTyped _ hs.wellTyped.copying hcopy
    exact hs.grows hcopied.grows fun _ => hcopied.typed
  · exact hs.follows

/-! ## Scopes -/

theorem follows_copyVars (hs : h.Sound) (vars : List (String × Value)) :
    h.Follows (copyVars h vars).2 := by
  induction vars generalizing h with
  | nil => exact hs.follows
  | cons var rest ih =>
    have hf := follows_deepCopy hs var.2
    exact hf.trans (ih hf.sound)

theorem follows_copyPackages {copyPackage : Heap → ScopeId → ScopeId × Heap}
    (hcopy : ∀ (h : Heap) id, h.Sound → h.Follows (copyPackage h id).2) (hs : h.Sound)
    (packages : List (String × ScopeId)) : h.Follows (copyPackages copyPackage h packages).2 := by
  induction packages generalizing h with
  | nil => exact hs.follows
  | cons package rest ih =>
    have hf := hcopy h package.2 hs
    exact hf.trans (ih hf.sound)

theorem follows_copyScopeUpTo (governor : GovernorId) (fuel : Nat) (hs : h.Sound) (id : ScopeId) :
    h.Follows (copyScopeUpTo governor fuel h id).2 := by
  induction fuel generalizing h id with
  | zero => exact hs.follows
  | succ fuel ih =>
    have hvars := follows_copyVars hs (h.scope id).vars.entries
    have hpackages := follows_copyPackages (fun h id hs => ih hs id) hvars.sound
      (h.scope id).packages.entries
    exact hvars.trans (hpackages.trans (hpackages.sound.scopes _))

theorem follows_copyScope (hs : h.Sound) (id : ScopeId) (governor : GovernorId) :
    h.Follows (h.copyScope id governor).2 :=
  follows_copyScopeUpTo governor _ hs id

end ScriptEngine.Heap
