import ScriptEngine.CoreLibrary
import ScriptEngine.Proofs.Heap.Entries
import ScriptEngine.Proofs.Heap.Growth
import ScriptEngine.Proofs.Task.Paths

/-! # Maps remember what was stored last

A map begins empty.  Scripts and the host store values in it and remove keys from it, other things
happen in between, and some of the calls fail: a key may not be one for this map, or a value may not fit
its type.  What such a call comes to is a **change** (`MapCall.change?`): the key as the map normalises
it, with the converted value or with none.  A **history** (`MapHistory`) keeps the changes that were made,
last one first, and what they have left behind a key is found by reading the history alone
(`MapChange.left`).

`map_refines_history` says that the map and its history always agree.  Every way of asking the map for a
key gives what the history has left behind that key; the map lists the keys behind which something is
left, each of them once and in order, and no others; and a call that comes to no change fails and leaves
everything as it was.
-/
namespace ScriptEngine

/-! ## What a map answers, and when it changes -/

namespace Heap
variable {h : Heap} {id : MapId}

theorem delete_map_eq_ok {key : Value} {h' : Heap} :
    h.delete (.map id) key = .ok h' ↔
      ∃ k, h.mapKey id key = .ok k ∧ h' = h.modifyMap id (·.erase k) := by
  constructor
  · intro hd
    obtain ⟨r, hr, hd⟩ := Outcome.bind_eq_ok.mp hd
    obtain ⟨k, hkey, hr⟩ := Outcome.bind_eq_ok.mp hr
    cases hr
    exact ⟨k, hkey, (Except.ok.inj hd).symm⟩
  · rintro ⟨k, hkey, rfl⟩
    exact Outcome.bind_eq_ok.mpr ⟨_, Outcome.bind_eq_ok.mpr ⟨k, hkey, rfl⟩, rfl⟩

/-- What is behind a key is behind what the key is for the map. -/
theorem stored?_of_mapKey {key : Value} {k : MapKey} (hkey : h.mapKey id key = .ok k) :
    h.stored? id key = .ok ((h.map id).find? k) := by
  rw [Heap.stored?, hkey]
  rfl

theorem stored?_of_mapKey_error {key : Value} {e : Failure} (hkey : h.mapKey id key = .error e) :
    h.stored? id key = .error e := by
  rw [Heap.stored?, hkey]
  rfl

/-- Whether there is a key is whether there is something behind it. -/
theorem hasEntry_eq (key : Value) : h.hasEntry id key = (h.stored? id key).map (·.isSome) := by
  unfold hasEntry
  cases h.stored? id key <;> rfl

/-- In maps of these key types, a text is the key that it stands for. -/
theorem mapKey_text (text : String) (htype : (h.map id).keyType ∈ [none, some .any, some .string]) :
    h.mapKey id (.str text) = .ok (.str text) := by
  unfold Heap.mapKey
  simp only [List.mem_cons, List.not_mem_nil, or_false] at htype
  rcases htype with htype | htype | htype <;> rw [htype] <;> rfl

end Heap

/-! ## Calls, changes and histories -/

/-- A call that may change a map. -/
inductive MapCall where
  | store (key v : Value)
  | remove (key : Value)

/-- A change of a map. -/
inductive MapChange where
  | stored (key : MapKey) (v : Value)
  | removed (key : MapKey)

namespace MapChange

/-- **What changes, the last one first, have left behind a key**: what was stored last, unless the key
has been removed since. -/
def left (key : MapKey) : List MapChange → Option Value
  | [] => none
  | .stored k v :: past => if key = k then some v else left key past
  | .removed k :: past => if key = k then none else left key past

/-- What a change makes of the entries. -/
def apply : MapChange → MapCell → MapCell
  | .stored key v, c => c.insert key v
  | .removed key, c => c.erase key

theorem find?_apply (change : MapChange) {past : List MapChange} {c : MapCell}
    (hfind : ∀ key, c.find? key = left key past) (key : MapKey) :
    (change.apply c).find? key = left key (change :: past) := by
  cases change with
  | stored k v =>
    show MapCell.findIn key (MapCell.insertIn k v c.entries) = _
    rw [MapCell.findIn_insertIn, left, ← hfind key]
    rfl
  | removed k =>
    show MapCell.findIn key (MapCell.eraseIn k c.entries) = _
    rw [MapCell.findIn_eraseIn, left, ← hfind key]
    rfl

theorem ordered_apply (change : MapChange) {c : MapCell} (hc : MapCell.Ordered c.entries) :
    MapCell.Ordered (change.apply c).entries := by
  cases change with
  | stored k v => exact MapCell.ordered_insertIn hc k v
  | removed k => exact MapCell.ordered_eraseIn hc k

theorem apply_eq (change : MapChange) (c : MapCell) :
    change.apply c = ⟨(change.apply c).entries, c.keyType, c.valueType⟩ := by
  cases change <;> rfl

end MapChange

namespace MapCall
variable {id : MapId} {s : EngineState}

/-- What a call does: storing is an assignment to an element, removing is what `delete` does. -/
def act (id : MapId) : MapCall → Eval Unit
  | .store key v => Eval.store (·.prepareEntry id key v)
  | .remove key => Eval.changeHeap (·.delete (.map id) key)

/-- **The change that a call comes to**, if the key is one for this map and the value fits. -/
def change? (h : Heap) (id : MapId) : MapCall → Option MapChange
  | .store key v =>
    match h.mapKey id key, h.convertTo v (h.map id).valueType with
    | .ok key, .ok (v, _) => some (.stored key v)
    | _, _ => none
  | .remove key =>
    match h.mapKey id key with
    | .ok key => some (.removed key)
    | .error _ => none

/-- **A call that comes to no change fails, and nothing has happened.** -/
theorem act_of_change?_none {call : MapCall} (hnone : call.change? s.heap id = none) :
    ∃ e, call.act id s = Eval.ofFailure e s := by
  cases call with
  | store key v =>
    cases hprepare : s.heap.prepareEntry id key v with
    | error e => exact ⟨e, Eval.store_error hprepare⟩
    | ok r =>
      obtain ⟨k, w, h, hkey, hv, -⟩ := Heap.prepareEntry_eq_ok.mp hprepare
      simp only [change?, hkey, hv, reduceCtorEq] at hnone
  | remove key =>
    cases hdelete : s.heap.delete (.map id) key with
    | error e => exact ⟨e, Eval.changeHeap_error (f := (·.delete (.map id) key)) hdelete⟩
    | ok h =>
      obtain ⟨k, hkey, -⟩ := Heap.delete_map_eq_ok.mp hdelete
      simp only [change?, hkey, reduceCtorEq] at hnone

/-- Any other call is done at once, and has made its change. -/
theorem act_of_change?_some {call : MapCall} {change : MapChange} {c : MapCell}
    (hc : s.heap.maps.get? id = some c) (hsome : call.change? s.heap id = some change) :
    ∃ h, call.act id s = .done { s with heap := h } (.ok ()) ∧
      h.maps.get? id = some (change.apply c) := by
  cases call with
  | store key v =>
    simp only [change?] at hsome
    split at hsome
    · rename_i k w h₁ hkey hv
      cases hsome
      have hprepare := Heap.prepareEntry_eq_ok.mpr ⟨k, w, h₁, hkey, hv, rfl⟩
      refine ⟨h₁.perform (.entry id k w), Eval.store_ok hprepare, ?_⟩
      show (h₁.maps.modify id _).get? id = _
      rw [Store.get?_modify_self, (Heap.grows_convertTo hv).maps.get?_some hc]
      rfl
    · cases hsome
  | remove key =>
    simp only [change?] at hsome
    split at hsome
    · rename_i k hkey
      cases hsome
      have hdelete := Heap.delete_map_eq_ok.mpr ⟨k, hkey, rfl⟩
      refine ⟨s.heap.modifyMap id (·.erase k),
        Eval.changeHeap_ok (f := (·.delete (.map id) key)) hdelete, ?_⟩
      show (s.heap.maps.modify id _).get? id = _
      rw [Store.get?_modify_self, hc]
      rfl
    · cases hsome

end MapCall

/-- **The history of a map** with these key and value types that began empty: the changes that were made,
last one first, and the state now.  Besides calls, anything may happen that leaves the map alone. -/
inductive MapHistory (id : MapId) (keyType valueType : Option HostType) :
    List MapChange → EngineState → Prop where
  | made {s : EngineState} (hmade : s.heap.maps.get? id = some ⟨[], keyType, valueType⟩) :
    MapHistory id keyType valueType [] s
  | call {past : List MapChange} {s : EngineState} (hpast : MapHistory id keyType valueType past s)
    (call : MapCall) : MapHistory id keyType valueType
      ((call.change? s.heap id).toList ++ past) (call.act id s).state
  | elsewhere {past : List MapChange} {s s' : EngineState}
    (hpast : MapHistory id keyType valueType past s)
    (hsame : s'.heap.maps.get? id = s.heap.maps.get? id) : MapHistory id keyType valueType past s'

namespace MapHistory
variable {id : MapId} {keyType valueType : Option HostType} {past : List MapChange} {s : EngineState}

/-- **The entries of a map are in order, and they are what its history has left.** -/
theorem agrees (hist : MapHistory id keyType valueType past s) :
    ∃ entries, s.heap.maps.get? id = some ⟨entries, keyType, valueType⟩ ∧
      MapCell.Ordered entries ∧ ∀ key, MapCell.findIn key entries = MapChange.left key past := by
  induction hist with
  | made hmade => exact ⟨[], hmade, List.Pairwise.nil, fun _ => rfl⟩
  | @call past s hpast call ih =>
    obtain ⟨entries, hc, hordered, hfind⟩ := ih
    cases hchange : call.change? s.heap id with
    | none =>
      obtain ⟨e, he⟩ := MapCall.act_of_change?_none hchange
      refine ⟨entries, ?_, hordered, hfind⟩
      rw [he]
      cases e <;> exact hc
    | some change =>
      obtain ⟨h, hdone, hget⟩ := MapCall.act_of_change?_some hc hchange
      refine ⟨(change.apply ⟨entries, keyType, valueType⟩).entries, ?_,
        change.ordered_apply hordered, change.find?_apply hfind⟩
      rw [hdone]
      exact hget.trans (congrArg some (change.apply_eq _))
  | elsewhere hpast hsame ih =>
    obtain ⟨entries, hc, hagrees⟩ := ih
    exact ⟨entries, hsame.trans hc, hagrees⟩

end MapHistory

/-- **A map is what its history has left**, in the order of the keys. -/
theorem map_refines_history {id : MapId} {keyType valueType : Option HostType}
    {past : List MapChange} {s : EngineState} (hist : MapHistory id keyType valueType past s) :
    (∀ key k, s.heap.mapKey id key = .ok k →
      s.heap.stored? id key = .ok (MapChange.left k past) ∧
      s.heap.hasEntry id key = .ok (MapChange.left k past).isSome) ∧
    (∀ key e, s.heap.mapKey id key = .error e →
      s.heap.stored? id key = .error e ∧ s.heap.hasEntry id key = .error e) ∧
    (∀ text, s.heap.storedUnder? id text = MapChange.left (.str text) past ∧
      (keyType ∈ [none, some .any, some .string] →
        s.heap.mapKey id (.str text) = .ok (.str text))) ∧
    (∃ keys : List MapKey, keys.Pairwise MapKey.Before ∧
      (∀ key, key ∈ keys ↔ (MapChange.left key past).isSome = true) ∧
      s.heap.keys (.map id) = .ok (keys.map (·.toValue)) ∧
      ((s.heap.map id).entries.map fun (key, v) => (key.toValue, v)) =
        (keys.filterMap fun key => (MapChange.left key past).map fun v => (key.toValue, v)) ∧
      s.heap.length (.map id) = .ok keys.length) ∧
    IsStrictTotalOrder MapKey MapKey.Before ∧
    ∀ call : MapCall,
      (∃ change t, call.change? s.heap id = some change ∧ call.act id s = .done t (.ok ()) ∧
        MapHistory id keyType valueType (change :: past) t) ∨
      call.change? s.heap id = none ∧ ∃ e, call.act id s = Eval.ofFailure e s := by
  obtain ⟨entries, hc, hordered, hfind⟩ := hist.agrees
  have hmap : s.heap.map id = ⟨entries, keyType, valueType⟩ := by
    rw [Heap.map, hc]
    rfl
  refine ⟨fun key k hkey => ?_, fun key e hkey => ?_, fun text => ⟨?_, fun htype => ?_⟩,
    ⟨entries.map (·.1), ?_, fun key => ?_, ?_, ?_, ?_⟩, inferInstance, fun call => ?_⟩
  · have hstored := Heap.stored?_of_mapKey hkey
    rw [hmap, MapCell.find?, hfind] at hstored
    refine ⟨hstored, ?_⟩
    rw [Heap.hasEntry_eq, hstored]
    rfl
  · have hstored := Heap.stored?_of_mapKey_error hkey
    refine ⟨hstored, ?_⟩
    rw [Heap.hasEntry_eq, hstored]
    rfl
  · rw [Heap.storedUnder?, hmap]
    exact hfind (.str text)
  · refine Heap.mapKey_text text ?_
    rwa [hmap]
  · exact List.pairwise_map.mpr hordered
  · rw [← hfind key, Option.isSome_iff_exists, List.mem_map]
    constructor
    · rintro ⟨⟨k, v⟩, he, rfl⟩
      exact ⟨v, (MapCell.mem_iff_findIn hordered).mp he⟩
    · rintro ⟨v, hv⟩
      exact ⟨(key, v), (MapCell.mem_iff_findIn hordered).mpr hv, rfl⟩
  · show Except.ok (s.heap.map id).keys = _
    rw [hmap, MapCell.keys, List.map_map]
    rfl
  · rw [hmap, List.filterMap_map, ← List.filterMap_eq_map]
    refine List.filterMap_congr fun e he => ?_
    show some (e.1.toValue, e.2) = (MapChange.left e.1 past).map fun v => (e.1.toValue, v)
    rw [← hfind, (MapCell.mem_iff_findIn hordered).mp he, Option.map_some]
  · show Except.ok _ = _
    rw [hmap, List.length_map]
  · cases hchange : call.change? s.heap id with
    | none => exact .inr ⟨rfl, MapCall.act_of_change?_none hchange⟩
    | some change =>
      obtain ⟨h, hdone, -⟩ := MapCall.act_of_change?_some hc hchange
      have hcall := hist.call call
      rw [hchange, hdone] at hcall
      exact .inl ⟨change, _, rfl, hdone, hcall⟩

/-- The host holds a map from bytes to bytes. -/
def bytesByBytes : EngineState :=
  { EngineState.initial with
    heap := { maps := Store.push {} ⟨[], some (.int .uint8), some (.int .uint8)⟩ } }

/-- Behind 3, 300 is stored, and behind 257 a 1; behind a text nothing can be stored; and 1 is removed. -/
def byteCalls : List MapCall :=
  [.store (.int 3) (.int 300), .store (.int 257) (.int 1), .store (.str "x") (.int 1),
    .remove (.int 1)]

/-- The 300 is left as a byte, behind all numbers that are 3 as a byte. -/
theorem map_refines_history_bytes :
    let s := byteCalls.foldl (fun s call => (call.act 0 s).state) bytesByBytes
    s.heap.stored? 0 (.int 259) = .ok (some (.int 44)) ∧
      s.heap.hasEntry 0 (.int 1) = .ok false ∧
      ∃ keys : List MapKey, s.heap.keys (.map 0) = .ok (keys.map (·.toValue)) ∧ .int 3 ∈ keys := by
  intro s
  have hist : MapHistory 0 (some (.int .uint8)) (some (.int .uint8))
      [.removed (.int 1), .stored (.int 1) (.int 1), .stored (.int 3) (.int 44)] s :=
    ((((MapHistory.made (s := bytesByBytes) rfl).call (.store (.int 3) (.int 300))).call
      (.store (.int 257) (.int 1))).call (.store (.str "x") (.int 1))).call (.remove (.int 1))
  obtain ⟨hanswer, -, -, ⟨keys, -, hmem, hkeys, -⟩, -⟩ := map_refines_history hist
  exact ⟨(hanswer _ (.int 3) rfl).1, (hanswer _ (.int 1) rfl).2, keys, hkeys, (hmem _).mpr rfl⟩

end ScriptEngine
