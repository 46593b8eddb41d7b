import ScriptEngine.Proofs.Heap.Chains
import ScriptEngine.Proofs.Heap.Contents
import ScriptEngine.Proofs.Heap.Entries

/-! # Spots that hold values

Scripts write values in bindings of scopes, in items of lists, in entries of maps and in fields of
structs: in **spots** (`Spot`).  Whatever a write does besides, it is seen in one spot (`Heap.WrittenAt`).
What has been converted for it may be new objects, but all spots of older ones hold what they did, and the
objects keep their types and their sizes, except for a plain list that is written right behind its end.
-/
namespace ScriptEngine

/-- Where a value can be. -/
inductive Spot where
  | binding (scope : ScopeId) (name : String)
  | item (id : ListId) (index : Nat)
  | entry (id : MapId) (key : MapKey)
  | field (id : HandleId) (index : Nat)

namespace Heap
variable {h h₁ h' : Heap} {spot other : Spot} {w : Value}

/-- The value in a spot. -/
def valueAt? (h : Heap) : Spot → Option Value
  | .binding scope name => (h.scope scope).vars.find? name
  | .item id index => (h.list id).items[index]?
  | .entry id key => (h.map id).find? key
  | .field id index => (h.handle id).values[index]?

theorem valueAt?_item (h : Heap) (id : ListId) (index : Nat) :
    h.valueAt? (.item id index) = (h.lists.get? id).bind (·.items[index]?) := by
  show (h.list id).items[index]? = _
  unfold list
  cases h.lists.get? id <;> rfl

theorem valueAt?_entry (h : Heap) (id : MapId) (key : MapKey) :
    h.valueAt? (.entry id key) = (h.maps.get? id).bind (·.find? key) := by
  show (h.map id).find? key = _
  unfold map
  cases h.maps.get? id <;> rfl

theorem valueAt?_field (h : Heap) (id : HandleId) (index : Nat) :
    h.valueAt? (.field id index) = (h.handles.get? id).bind (·.values[index]?) := by
  show (h.handle id).values[index]? = _
  unfold handle
  cases h.handles.get? id <;> rfl

/-- The spot belongs to an object of the heap. -/
def Comprehends (h : Heap) : Spot → Prop
  | .binding _ _ => True
  | .item id _ => (h.lists.get? id).isSome = true
  | .entry id _ => (h.maps.get? id).isSome = true
  | .field id _ => (h.handles.get? id).isSome = true

/-- **A value has been written in one spot.** -/
structure WrittenAt (spot : Spot) (w : Value) (h h' : Heap) : Prop where
  written : h'.valueAt? spot = some w
  others : ∀ other, other ≠ spot → h.Comprehends other → h'.valueAt? other = h.valueAt? other
  lists : ∀ id c, h.lists.get? id = some c → ∃ items, h'.lists.get? id = some { c with items } ∧
    (items.size = c.items.size ∨
      spot = .item id c.items.size ∧ c.isGrowable = true ∧ items.size = c.items.size + 1)
  maps : ∀ id c, h.maps.get? id = some c → ∃ entries, h'.maps.get? id = some { c with entries }
  structs : ∀ id c, h.handles.get? id = some (.struct c) →
    ∃ values, h'.handles.get? id = some (.struct { c with values }) ∧
      values.length = c.values.length
  tokens : ∀ id name, h.handles.get? id = some (.token name) →
    h'.handles.get? id = some (.token name)
  frames : SameFrames h h'
  funcs : h'.funcs = h.funcs
  chans : h'.chans = h.chans

/-! ## Conversions -/

theorem Grows.comprehends (hg : h.Grows h₁) (ho : h.Comprehends other) : h₁.Comprehends other := by
  cases other with
  | binding scope name => trivial
  | item id index =>
    obtain ⟨c, hc⟩ := Option.isSome_iff_exists.mp ho
    exact Option.isSome_iff_exists.mpr ⟨c, hg.lists.get?_some hc⟩
  | entry id key =>
    obtain ⟨c, hc⟩ := Option.isSome_iff_exists.mp ho
    exact Option.isSome_iff_exists.mpr ⟨c, hg.maps.get?_some hc⟩
  | field id index =>
    obtain ⟨o, hget⟩ := Option.isSome_iff_exists.mp ho
    exact Option.isSome_iff_exists.mpr ⟨o, hg.handles.get?_some hget⟩

theorem Grows.valueAt? (hg : h.Grows h₁) (ho : h.Comprehends other) :
    h₁.valueAt? other = h.valueAt? other := by
  cases other with
  | binding scope name =>
    show ((h₁.scopes.get? scope).getD {}).vars.find? name = _
    rw [hg.scopes]
    rfl
  | item id index =>
    obtain ⟨c, hc⟩ := Option.isSome_iff_exists.mp ho
    rw [valueAt?_item, valueAt?_item, hc, hg.lists.get?_some hc]
  | entry id key =>
    obtain ⟨c, hc⟩ := Option.isSome_iff_exists.mp ho
    rw [valueAt?_entry, valueAt?_entry, hc, hg.maps.get?_some hc]
  | field id index =>
    obtain ⟨o, hget⟩ := Option.isSome_iff_exists.mp ho
    rw [valueAt?_field, valueAt?_field, hget, hg.handles.get?_some hget]

/-- **What is written after a conversion** is written in what was there before it. -/
theorem WrittenAt.after (hw : WrittenAt spot w h₁ h') (hg : h.Grows h₁) : WrittenAt spot w h h' where
  written := hw.written
  others other hother ho := (hw.others other hother (hg.comprehends ho)).trans (hg.valueAt? ho)
  lists id c hc := hw.lists id c (hg.lists.get?_some hc)
  maps id c hc := hw.maps id c (hg.maps.get?_some hc)
  structs id c hc := hw.structs id c (hg.handles.get?_some hc)
  tokens id name hc := hw.tokens id name (hg.handles.get?_some hc)
  frames t := by
    have hframe := hw.frames t
    rwa [hg.scopes] at hframe
  funcs := hw.funcs.trans hg.funcs
  chans := hw.chans.trans hg.chans

/-! ## Writes -/

/-- One binding is written. -/
theorem Rebound.writtenAt {b : ScopeId} {n : String} (hb : Rebound b n w h h') :
    WrittenAt (.binding b n) w h h' := by
  obtain ⟨hlists, hmaps, hhandles, hfuncs, hchans⟩ : h'.lists = h.lists ∧ h'.maps = h.maps ∧
      h'.handles = h.handles ∧ h'.funcs = h.funcs ∧ h'.chans = h.chans := by
    rw [← hb.objects]
    exact ⟨rfl, rfl, rfl, rfl, rfl⟩
  refine ⟨?_, fun other hother ho => ?_, fun id c hc => ⟨c.items, hlists ▸ hc, .inl rfl⟩,
    fun id c hc => ⟨c.entries, hmaps ▸ hc⟩, fun id c hc => ⟨c.values, hhandles ▸ hc, rfl⟩,
    fun id name hc => hhandles ▸ hc, hb.frames, hfuncs, hchans⟩
  · exact (hb.value b n).trans (if_pos ⟨rfl, rfl⟩)
  · cases other with
    | binding t m =>
      refine (hb.value t m).trans (if_neg ?_)
      rintro ⟨rfl, rfl⟩
      exact hother rfl
    | item id index => rw [valueAt?_item, valueAt?_item, hlists]
    | entry id key => rw [valueAt?_entry, valueAt?_entry, hmaps]
    | field id index => rw [valueAt?_field, valueAt?_field, hhandles]

/-- An item is written, or one right behind the end of a plain list. -/
theorem writtenAt_item {id : ListId} {c : ListCell} {index : Nat} (hc : h.lists.get? id = some c)
    (hindex : index < c.items.size ∨ index = c.items.size ∧ c.isGrowable = true) (w : Value) :
    WrittenAt (.item id index) w h (h.perform (.item id index w)) := by
  obtain ⟨items, hitems, hself, hother, hsize⟩ : ∃ items : Array Value,
      (h.perform (.item id index w)).lists.get? id = some { c with items } ∧
      items[index]? = some w ∧ (∀ j, j ≠ index → items[j]? = c.items[j]?) ∧
      (items.size = c.items.size ∨ index = c.items.size ∧ c.isGrowable = true ∧
        items.size = c.items.size + 1) := by
    have hget : (h.perform (.item id index w)).lists.get? id = some
        (if index < c.items.size then { c with items := c.items.setIfInBounds index w }
          else { c with items := c.items.push w }) := by
      show (h.lists.modify id _).get? id = _
      rw [Store.get?_modify_self, hc]
      rfl
    rcases hindex with hlt | ⟨rfl, hgrowable⟩
    · rw [if_pos hlt] at hget
      refine ⟨_, hget, ?_, fun j hj => ?_, .inl (Array.size_setIfInBounds ..)⟩
      · simp [hlt]
      · simp [Ne.symm hj]
    · rw [if_neg (Nat.lt_irrefl _)] at hget
      refine ⟨_, hget, ?_, fun j hj => ?_, .inr ⟨rfl, hgrowable, Array.size_push ..⟩⟩
      · simp
      · simp [Array.getElem?_push, hj]
  have hlist {j : ListId} (hj : j ≠ id) :
      (h.perform (.item id index w)).lists.get? j = h.lists.get? j :=
    Store.get?_modify_of_ne hj
  refine ⟨?_, fun other hne ho => ?_, fun j d hd => ?_, fun id c hc => ⟨c.entries, hc⟩,
    fun id c hc => ⟨c.values, hc, rfl⟩, fun id name hc => hc, fun t => rfl, rfl, rfl⟩
  · rw [valueAt?_item, hitems]
    exact hself
  · cases other with
    | item j k =>
      rw [valueAt?_item, valueAt?_item]
      by_cases hj : j = id
      · subst j
        rw [hitems, hc]
        exact hother k fun hk => hne (congrArg _ hk)
      · rw [hlist hj]
    | binding | entry | field => rfl
  · by_cases hj : j = id
    · subst j
      obtain rfl := Option.some.inj (hc.symm.trans hd)
      refine ⟨items, hitems, ?_⟩
      rcases hsize with hsize | ⟨rfl, hgrown⟩
      · exact .inl hsize
      · exact .inr ⟨rfl, hgrown⟩
    · exact ⟨d.items, (hlist hj).trans hd, .inl rfl⟩

/-- An entry is written. -/
theorem writtenAt_entry {id : MapId} {c : MapCell} (hc : h.maps.get? id = some c) (key : MapKey)
    (w : Value) : WrittenAt (.entry id key) w h (h.perform (.entry id key w)) := by
  have hmap : (h.perform (.entry id key w)).maps.get? id = some (c.insert key w) := by
    show (h.maps.modify id _).get? id = _
    rw [Store.get?_modify_self, hc]
    rfl
  have hothers {j : MapId} (hj : j ≠ id) :
      (h.perform (.entry id key w)).maps.get? j = h.maps.get? j := Store.get?_modify_of_ne hj
  refine ⟨?_, fun other hne ho => ?_, fun id c hc => ⟨c.items, hc, .inl rfl⟩, fun j d hd => ?_,
    fun id c hc => ⟨c.values, hc, rfl⟩, fun id name hc => hc, fun t => rfl, rfl, rfl⟩
  · rw [valueAt?_entry, hmap]
    exact MapCell.findIn_insertIn_self key w c.entries
  · cases other with
    | entry j k =>
      rw [valueAt?_entry, valueAt?_entry]
      by_cases hj : j = id
      · subst j
        rw [hmap, hc]
        exact MapCell.findIn_insertIn_of_ne (fun hk => hne (congrArg _ hk)) w c.entries
      · rw [hothers hj]
    | binding | item | field => rfl
  · by_cases hj : j = id
    · subst j
      obtain rfl := Option.some.inj (hc.symm.trans hd)
      exact ⟨_, hmap⟩
    · exact ⟨d.entries, (hothers hj).trans hd⟩

/-- A field is written. -/
theorem writtenAt_field {id : HandleId} {c : StructCell} {index : Nat}
    (hc : h.handles.get? id = some (.struct c)) (hindex : index < c.values.length) (w : Value) :
    WrittenAt (.field id index) w h (h.perform (.field id index w)) := by
  have hhandle : (h.perform (.field id index w)).handles.get? id =
      some (.struct { c with values := c.values.set index w }) := by
    show (h.handles.modify id _).get? id = _
    rw [Store.get?_modify_self, hc]
    rfl
  have hothers {j : HandleId} (hj : j ≠ id) :
      (h.perform (.field id index w)).handles.get? j = h.handles.get? j :=
    Store.get?_modify_of_ne hj
  refine ⟨?_, fun other hne ho => ?_, fun id c hc => ⟨c.items, hc, .inl rfl⟩,
    fun id c hc => ⟨c.entries, hc⟩, fun j d hd => ?_, fun j name hd => ?_, fun t => rfl, rfl, rfl⟩
  · rw [valueAt?_field, hhandle]
    exact List.getElem?_set_self hindex
  · cases other with
    | field j k =>
      rw [valueAt?_field, valueAt?_field]
      by_cases hj : j = id
      · subst j
        rw [hhandle, hc]
        exact List.getElem?_set_ne fun hk => hne (congrArg _ hk.symm)
      · rw [hothers hj]
    | binding | item | entry => rfl
  · by_cases hj : j = id
    · subst j
      obtain rfl := Handle.struct.inj (Option.some.inj (hc.symm.trans hd))
      exact ⟨_, hhandle, List.length_set⟩
    · exact ⟨d.values, (hothers hj).trans hd, rfl⟩
  · refine (hothers ?_).trans hd
    rintro rfl
    cases hc.symm.trans hd

end Heap

end ScriptEngine
