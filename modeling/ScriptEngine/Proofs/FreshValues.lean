import ScriptEngine.Evaluator.Level
import ScriptEngine.Proofs.Channel.Operations
import ScriptEngine.Proofs.Heap.Conversion
import ScriptEngine.Proofs.Heap.Positions
import ScriptEngine.Proofs.Task.Keeping
import ScriptEngine.Proofs.Task.Paths

/-! # What new values share

Zero values and the results of `make` and `new` are made of new objects only.  The items of an array
are copies of one zero value, and so are the items of a slice that the heap makes and those that fill an
array up: two positions in such a value hold the same object exactly if they agree up to the numbers of
items.  The slices that a script makes have an item of its own at each place, so their positions must
agree in the first step, too.
-/
namespace ScriptEngine

namespace Heap
variable {h h₁ h' : Heap}

/-! ## Containers of new values -/

/-- A list of such items is new. -/
theorem SharingAll.addList {same : Nat → List Part → Nat → List Part → Prop}
    {same' : List Part → List Part → Prop} {c : ListCell}
    (hc : SharingAll h h₁ c.items.toList same) (hp : h.Precedes h₁)
    (hnil : same' [] []) (hleft : ∀ i p, ¬same' (.item i :: p) [])
    (hright : ∀ i p, ¬same' [] (.item i :: p))
    (hcons : ∀ i p j q, same' (.item i :: p) (.item j :: q) ↔ same i p j q) :
    Sharing h (h₁.addList c).2 (h₁.addList c).1 same' := by
  have hg := grows_addList h₁ c
  refine hc.node hp hg.precedes ⟨Nat.le_refl _, ?_⟩ (fun step w hw => ?_) (fun w hw p => ?_)
    hnil hleft hright hcons
  · show _ < (h₁.lists.push c).next
    rw [Store.next_push]
    exact Nat.lt_succ_self _
  · cases step with
    | field i => cases hw
    | item i =>
      refine ⟨i, rfl, ?_⟩
      have hcell : (h₁.addList c).2.list h₁.lists.next = c := by
        show ((h₁.lists.push c).get? h₁.lists.next).getD _ = c
        rw [Store.get?_push_next]
        rfl
      rw [Array.getElem?_toList, ← hcell]
      exact hw
  · obtain ⟨i, hi⟩ := List.mem_iff_getElem?.mp hw
    exact partAt?_of_grows hg fun p x hx => hc.fresh i w p x hi hx

/-- A struct of such fields is new. -/
theorem SharingAll.addStruct {c : StructCell}
    (hc : SharingAll h h₁ c.values (Apart SameButItems)) (hp : h.Precedes h₁) :
    Sharing h (h₁.addHandle (.struct c)).2 (h₁.addHandle (.struct c)).1 SameButItems := by
  have hg := grows_addHandle h₁ (.struct c)
  refine hc.node hp hg.precedes ⟨Nat.le_refl _, ?_⟩ (fun step w hw => ?_) (fun w hw p => ?_)
    rfl nofun nofun SameButItems.cons_field
  · show _ < (h₁.handles.push _).next
    rw [Store.next_push]
    exact Nat.lt_succ_self _
  · cases step with
    | item i => cases hw
    | field i =>
      refine ⟨i, rfl, ?_⟩
      have hcell : (h₁.addHandle (.struct c)).2.handle h₁.handles.next = .struct c := by
        show ((h₁.handles.push _).get? h₁.handles.next).getD _ = _
        rw [Store.get?_push_next]
        rfl
      change (h₁.addHandle (.struct c)).2.part? (.handle h₁.handles.next) (.field i) = some w at hw
      simpa only [part?, hcell] using hw
  · obtain ⟨i, hi⟩ := List.mem_iff_getElem?.mp hw
    exact partAt?_of_grows hg fun p x hx => hc.fresh i w p x hi hx

/-- A list of copies of one new value is new. -/
theorem Sharing.addCopies {v : Value} (hv : Sharing h h₁ v SameButItems) (hp : h.Precedes h₁)
    (len : Nat) (elem : Option HostType) (fixed : Bool) :
    Sharing h (h₁.addList ⟨Array.replicate len v, elem, fixed⟩).2
      (h₁.addList ⟨Array.replicate len v, elem, fixed⟩).1 SameButItems := by
  have hcopies : SharingAll h h₁ (Array.replicate len v).toList fun _ p _ q => SameButItems p q := by
    rw [Array.toList_replicate]
    exact hv.replicate len
  exact hcopies.addList hp rfl nofun nofun SameButItems.cons_item

/-! ## Zero values -/

mutual

/-- **The positions of a zero value share what agrees up to the numbers of items.** -/
theorem sharing_zeroValue : ∀ (type : HostType) (h : Heap),
    Sharing h (h.zeroValue type).2 (h.zeroValue type).1 SameButItems
  | .any, h | .func, h | .chan _, h | .handle _, h => .scalar rfl
  | .bool, h | .int _, h | .float _, h | .string, h => .scalar rfl
  | .slice elem, h => by
    unfold zeroValue
    have hnone : SharingAll h h [] fun _ p _ q => SameButItems p q := .nil
    exact hnone.addList (.refl h) rfl nofun nofun SameButItems.cons_item
  | .array elem len, h => by
    unfold zeroValue
    exact (sharing_zeroValue elem h).addCopies (grows_zeroValue elem h).precedes len _ _
  | .map key value, h => by
    unfold zeroValue
    have hg := grows_addMap h ⟨[], some key, some value⟩
    have hparts : SharingAll h h [] fun _ p _ q => SameButItems p q := .nil
    refine hparts.node (.refl h) hg.precedes ⟨Nat.le_refl _, ?_⟩ nofun nofun rfl nofun nofun
      SameButItems.cons_item
    show _ < (h.maps.push _).next
    rw [Store.next_push]
    exact Nat.lt_succ_self _
  | .struct name fields, h => by
    unfold zeroValue
    exact SharingAll.addStruct (sharingAll_zeroValues fields h) (grows_zeroValues fields h).precedes

theorem sharingAll_zeroValues : ∀ (fields : List (String × HostType)) (h : Heap),
    SharingAll h (h.zeroValues fields).2 (h.zeroValues fields).1 (Apart SameButItems)
  | [], h => .nil
  | (_, type) :: rest, h => by
    have hv := sharing_zeroValue type h
    have hg := grows_zeroValues rest (h.zeroValue type).2
    refine hv.singleton.append (sharingAll_zeroValues rest _) (grows_zeroValue type h).precedes
      (.refl _) hg.precedes fun w hw p => ?_
    obtain rfl := List.mem_singleton.mp hw
    exact partAt?_of_grows hg hv.fresh

end

theorem sharing_zero {type : HostType} {v : Value} (hz : h.zero type = .ok (v, h')) :
    Sharing h h' v SameButItems := by
  have hv := sharing_zeroValue type h
  rw [← zero_eq_ok hz] at hv
  exact hv

/-! ## Making -/

/-- What the heap makes shares what agrees up to the numbers of items. -/
theorem sharing_make {type : HostType} {args : List Value} {v : Value}
    (hmake : h.make type args = .ok (v, h')) : Sharing h h' v SameButItems := by
  unfold make at hmake
  split at hmake
  · obtain ⟨len, -, hmake⟩ := Outcome.bind_eq_ok.mp hmake
    obtain ⟨⟨z, h₁⟩, hz, hmake⟩ := Outcome.bind_eq_ok.mp hmake
    obtain ⟨items, hpad, hmake⟩ := Outcome.bind_eq_ok.mp hmake
    cases hmake
    rw [padded_eq_ok hpad, List.append_toArray]
    exact (sharing_zero hz).addCopies (grows_zero hz).precedes _ _ _
  · obtain ⟨capacity, -, hmake⟩ := Outcome.bind_eq_ok.mp hmake
    cases hmake
    exact .scalar rfl
  · exact sharing_zero hmake

/-- What an array is filled up with is new, and shares what agrees up to the numbers of items. -/
theorem sharing_padding {elem : HostType} {len : Nat} {id : ListId} {v : Value}
    (hc : h.convert (.list id) (.array elem len) = .ok (v, h')) :
    v = .list id ∧ h' = h ∨ ∃ h₁, h.Grows h₁ ∧
      ∀ i j p q x y, (h.list id).items.size ≤ i → (h.list id).items.size ≤ j →
        h'.partAt? v (.item i :: p) = some x → h'.partAt? v (.item j :: q) = some y →
        x.isContainer = true → h₁.MadeBetween h' x ∧ (x = y ↔ SameButItems p q) := by
  unfold convert at hc
  split at hc
  · cases hc
  simp only at hc
  split at hc
  · cases hc
    exact .inl ⟨rfl, rfl⟩
  split at hc
  · cases hc
  obtain ⟨⟨items, h₁⟩, h1, hc⟩ := Outcome.bind_eq_ok.mp hc
  obtain ⟨⟨z, h₂⟩, h2, hc⟩ := Outcome.bind_eq_ok.mp hc
  obtain ⟨padding, h3, hc⟩ := Outcome.bind_eq_ok.mp hc
  cases hc
  have hconv := Outcome.orMismatch_eq_ok h1
  have hz := sharing_zero h2
  have hg := grows_addList h₂ ⟨padding, some elem, true⟩
  refine .inr ⟨h₁, grows_convertItems (grows_convert elem) hconv, ?_⟩
  have hlength : items.length = (h.list id).items.size := length_convertItems hconv
  -- Behind the items that were converted there is nothing but the zero value.
  have hbelow {i : Nat} {p : List Part} {x : Value} (hi : (h.list id).items.size ≤ i)
      (hx : (h₂.addList ⟨padding, some elem, true⟩).2.partAt? (.list h₂.lists.next) (.item i :: p) =
        some x) : h₂.partAt? z p = some x := by
    obtain ⟨w, hw, hwx⟩ := partAt?_cons_eq_some.mp hx
    have hcell : (h₂.addList ⟨padding, some elem, true⟩).2.list h₂.lists.next =
        ⟨padding, some elem, true⟩ := by
      show ((h₂.lists.push _).get? h₂.lists.next).getD _ = _
      rw [Store.get?_push_next]
      rfl
    rw [part?, hcell, padded_eq_ok h3, Array.getElem?_append_right (by simpa [hlength] using hi)] at hw
    rw [Array.getElem?_replicate] at hw
    split at hw
    · cases hw
      rw [← partAt?_of_grows hg hz.fresh]
      exact hwx
    · cases hw
  intro i j p q x y hi hj hx hy hcontainer
  exact ⟨(hz.fresh p x (hbelow hi hx)).widen (.refl h₁) hg.precedes,
    hz.shared p q x y (hbelow hi hx) (hbelow hj hy) hcontainer⟩

end Heap

/-! ## Building in stretches -/

/-- What others do while a task builds in stretches: they leave its holdings alone, and what it has
built, to which nothing else refers. -/
structure EngineState.LeavesBuilt (s s' : EngineState) : Prop where
  undisturbed : s.Undisturbed s'
  precedes : s.heap.Precedes s'.heap
  kept : ∀ built rest, s.Holds (some (.stretches built :: rest)) → ∀ stretch ∈ built, ∀ v ∈ stretch,
    ∀ p, s'.heap.partAt? v p = s.heap.partAt? v p

namespace Eval
variable {α β : Type} {s t : EngineState} {path : List EngineState}

/-- The evaluation changes neither the heap nor what is held: whatever law these observe, it does. -/
structure Placid (m : Eval α) : Prop where
  observes : ∀ {G : EngineState → EngineState → Prop}, Law G →
    (∀ s s' : EngineState, s'.heap = s.heap → s'.held = s.held → s'.current = s.current → G s s') →
    ∀ s, ObservesOn id G (m s) s

namespace Placid

theorem of_done {m : Eval α} (hm : ∀ s, ∃ s' r, m s = .done s' r ∧ s'.heap = s.heap ∧
    s'.held = s.held ∧ s'.current = s.current) : Placid m where
  observes {G} _ hsame s := by
    obtain ⟨s', r, hdone, hheap, hheld, hcurrent⟩ := hm s
    rw [hdone]
    exact ⟨hsame s s' hheap hheld hcurrent, trivial⟩

theorem pure (a : α) : Placid (Pure.pure a : Eval α) :=
  of_done fun s => ⟨s, .ok a, rfl, rfl, rfl, rfl⟩

theorem read (f : EngineState → α) : Placid (Eval.read f) :=
  of_done fun s => ⟨s, .ok (f s), rfl, rfl, rfl, rfl⟩

theorem bind {m : Eval α} {k : α → Eval β} (hm : Placid m) (hk : ∀ a, Placid (k a)) :
    Placid (m >>= k) where
  observes {G} hG hsame s := by
    rw [bind_apply]
    refine (hm.observes hG hsame s).bind hG fun r s' _ _ => ?_
    cases r with
    | ok a => exact (hk a).observes hG hsame s'
    | error e => exact ⟨hsame s' s' rfl rfl rfl, trivial⟩

theorem checkSignal (signal : SignalId) : Placid (Eval.checkSignal signal) := by
  refine of_done fun s => ?_
  rw [checkSignal_apply]
  split
  · exact ⟨s, _, rfl, rfl, rfl, rfl⟩
  · exact ⟨s, _, rfl, rfl, rfl, rfl⟩

theorem checkWait (on : Wait) : Placid (Eval.checkWait on) := by
  unfold Eval.checkWait
  cases on.signal? with
  | some signal => exact checkSignal signal
  | none => exact pure ()

theorem await (on : Wait) : Placid (Eval.await on) where
  observes {G} hG hsame s := by
    rw [await_apply]
    split
    · exact ⟨hsame s s rfl rfl rfl, trivial⟩
    · exact ⟨hsame s s rfl rfl rfl, fun s' _ => (checkWait on).observes hG hsame s'⟩

theorem countCycles (run : RunId) (n : Nat) : Placid (Eval.countCycles run n) := by
  refine bind (of_done fun s => ?_) fun _ => read _
  exact ⟨_, .ok (), modify_apply _ s, rfl, rfl, rfl⟩

theorem tick (run : RunId) : Placid (Eval.tick run) := by
  refine bind (of_done fun s => ⟨_, _, update_apply _ s, rfl, rfl, rfl⟩) fun pause => ?_
  cases pause with
  | some due => exact bind (read _) fun _ => await _
  | none => exact pure ()

theorem pulse (run : RunId) : Placid (Eval.pulse run) :=
  bind (bind (read _) fun _ => checkSignal _) fun _ =>
    bind (countCycles run turnInterval) fun _ => bind (await _) fun _ => tick run

end Placid

/-- What is held in stretches is as it was. -/
def KeepsStretches (built : List (Array Value)) (rest : List Holding) (s s' : EngineState) : Prop :=
  s.Holds (some (.stretches built :: rest)) →
    s'.Holds (some (.stretches built :: rest)) ∧ s.heap.Precedes s'.heap ∧
      ∀ stretch ∈ built, ∀ v ∈ stretch, ∀ p, s'.heap.partAt? v p = s.heap.partAt? v p

theorem law_keepsStretches (built : List (Array Value)) (rest : List Holding) :
    Law (KeepsStretches built rest) where
  trans {a b c} hab hbc ha := by
    obtain ⟨hb, hp, hkept⟩ := hab ha
    obtain ⟨hc, hp', hkept'⟩ := hbc hb
    exact ⟨hc, hp.trans hp', fun stretch hs v hv p =>
      (hkept' stretch hs v hv p).trans (hkept stretch hs v hv p)⟩
  stays _ hb := ⟨hb, .refl _, fun _ _ _ _ _ => rfl⟩

/-- **A pulse leaves what was built as it was**, if the others do. -/
theorem kept_pulse {run : RunId} {built : List (Array Value)} {xs : List Holding}
    {r : Except EvalError Unit} (hheld : s.Holds (some xs))
    (hruns : (holding (.stretches built) (pulse run)).Runs s path r t)
    (hothers : (holding (.stretches built) (pulse run) s).Amid EngineState.LeavesBuilt path) :
    t.Holds (some xs) ∧ s.heap.Precedes t.heap ∧
      ∀ stretch ∈ built, ∀ v ∈ stretch, ∀ p, t.heap.partAt? v p = s.heap.partAt? v p := by
  obtain ⟨u, hpulse, rfl⟩ := runs_holding.mp hruns
  rw [holding_apply] at hothers
  have hstart : (s.hold (.stretches built)).Holds (some (.stretches built :: xs)) := hheld.hold _
  have hsame (s s' : EngineState) (hheap : s'.heap = s.heap) (hheld : s'.held = s.held)
      (hcurrent : s'.current = s.current) : KeepsStretches built xs s s' := by
    intro hs
    refine ⟨?_, hheap ▸ .refl _, fun _ _ _ _ _ => by rw [hheap]⟩
    unfold EngineState.Holds
    rw [hheld, hcurrent]
    exact hs
  obtain ⟨hkeeps, -⟩ := hpulse.observes (law_keepsStretches built xs)
    ((Placid.pulse run).observes (law_keepsStretches built xs) hsame _) hothers.of_bind
    fun s s' hleaves _ hs => ⟨hleaves.undisturbed.holds hs, hleaves.precedes, hleaves.kept _ _ hs⟩
  obtain ⟨hu, hp, hkept⟩ := hkeeps hstart
  rw [EngineState.letGo_eq hu]
  exact ⟨EngineState.holds_set hu, hp, hkept⟩

/-- A stretch of zero values: each is an object of its own. -/
theorem sharing_fill {elem : HostType} {h : Heap} {count index : Nat} {items filled : Array Value}
    (hfill : fill (zeroItem elem) count index items s = (.ok filled, t))
    (hitems : Heap.SharingAll h s.heap items.toList (Apart SameButItems))
    (hp : h.Precedes s.heap) :
    Heap.SharingAll h t.heap filled.toList (Apart SameButItems) ∧ s.heap.Grows t.heap ∧
      t = { s with heap := t.heap } := by
  induction count generalizing index items s with
  | zero =>
    cases hfill
    exact ⟨hitems, .refl _, rfl⟩
  | succ count ih =>
    unfold fill zeroItem at hfill
    split at hfill
    · rename_i v s₁ heq
      split at heq
      · cases heq
        have hz := Heap.sharing_zeroValue elem s.heap
        have hg := Heap.grows_zeroValue elem s.heap
        have hpushed : Heap.SharingAll h (s.heap.zeroValue elem).2
            (items.push (s.heap.zeroValue elem).1).toList (Apart SameButItems) := by
          rw [Array.toList_push]
          refine hitems.append hz.singleton hp (.refl _) hg.precedes fun w hw p => ?_
          obtain ⟨i, hi⟩ := List.mem_iff_getElem?.mp hw
          exact Heap.partAt?_of_grows hg fun p x hx => hitems.fresh i w p x hi hx
        obtain ⟨hfilled, hgrow, ht⟩ := ih hfill hpushed (hp.trans hg.precedes)
        exact ⟨hfilled, hg.trans hgrow, ht⟩
      · cases heq
    · cases hfill

/-- What goes on with the outcome of a change. -/
theorem apply_of_runs_update {f : EngineState → Outcome α × EngineState} {k : α → Eval β} {b : β}
    (hruns : (update f >>= fun o => ofOutcome o >>= k).Runs s path (.ok b) t) :
    ∃ a u, f s = (.ok a, u) ∧ (update f >>= fun o => ofOutcome o >>= k) s = k a u := by
  rw [runs_after (update_apply f s)] at hruns
  rcases hf : f s with ⟨o, u⟩
  rw [hf] at hruns
  cases o with
  | ok a =>
    refine ⟨a, u, rfl, ?_⟩
    rw [bind_apply, update_apply, hf]
    rfl
  | error e =>
    cases e with
    | fault f =>
      obtain ⟨-, hr, -⟩ := (runs_of_done (m := ofOutcome (.error (.fault f)) >>= k) rfl).mp hruns
      cases hr
    | overflow => cases hruns

/-- What was built so far, the last stretch first, as one array. -/
def joined (built : List (Array Value)) : Array Value :=
  built.foldr (fun stretch items => items ++ stretch) #[]

/-- One stretch more. -/
theorem sharing_stretch {elem : HostType} {h : Heap} {count index : Nat} {built : List (Array Value)}
    {stretch : Array Value} (hfill : fill (zeroItem elem) count index #[] s = (.ok stretch, t))
    (hbuilt : Heap.SharingAll h s.heap (joined built).toList (Apart SameButItems))
    (hp : h.Precedes s.heap) :
    Heap.SharingAll h t.heap (joined (stretch :: built)).toList (Apart SameButItems) ∧
      h.Precedes t.heap := by
  obtain ⟨hstretch, hg, -⟩ := sharing_fill hfill .nil (.refl _)
  refine ⟨?_, hp.trans hg.precedes⟩
  rw [show joined (stretch :: built) = joined built ++ stretch from rfl, Array.toList_append]
  refine hbuilt.append hstretch hp (.refl _) hg.precedes fun w hw p => ?_
  obtain ⟨i, hi⟩ := List.mem_iff_getElem?.mp hw
  exact Heap.partAt?_of_grows hg fun p x hx => hbuilt.fresh i w p x hi hx

/-- What was built is still there after a pulse, if the others leave it alone. -/
theorem sharing_of_kept {h : Heap} {built : List (Array Value)}
    (hbuilt : Heap.SharingAll h s.heap (joined built).toList (Apart SameButItems))
    (hp : s.heap.Precedes t.heap)
    (hkept : ∀ stretch ∈ built, ∀ v ∈ stretch, ∀ p, t.heap.partAt? v p = s.heap.partAt? v p) :
    Heap.SharingAll h t.heap (joined built).toList (Apart SameButItems) := by
  have hsame {i : Nat} {v : Value} (hv : (joined built).toList[i]? = some v) (p : List Part) :
      t.heap.partAt? v p = s.heap.partAt? v p := by
    obtain ⟨stretch, hs, hv⟩ := mem_joined (Array.mem_toList_iff.mp (List.mem_of_getElem? hv))
    exact hkept stretch hs v hv p
  constructor
  · intro i v p x hv hx
    rw [hsame hv] at hx
    exact (hbuilt.fresh i v p x hv hx).widen (.refl h) hp
  · intro i j v w p q x y hv hw hx hy hc
    rw [hsame hv] at hx
    rw [hsame hw] at hy
    exact hbuilt.shared i j v w p q x y hv hw hx hy hc

theorem sharing_buildStretches {run : RunId} {elem : HostType} {length : Nat} {h : Heap}
    (stretches : Nat) {size : Nat} {built built' : List (Array Value)} {xs : List Holding}
    (hbuilt : Heap.SharingAll h s.heap (joined built).toList (Apart SameButItems))
    (hp : h.Precedes s.heap) (hheld : s.Holds (some xs))
    (hruns : (buildStretches run length (zeroItem elem) stretches size built).Runs s path
      (.ok built') t)
    (hothers : (buildStretches run length (zeroItem elem) stretches size built s).Amid
      EngineState.LeavesBuilt path) :
    Heap.SharingAll h t.heap (joined built').toList (Apart SameButItems) ∧
      h.Precedes t.heap := by
  induction stretches generalizing size built s path with
  | zero =>
    obtain ⟨-, hr, rfl⟩ := runs_pure.mp hruns
    cases hr
    exact ⟨hbuilt, hp⟩
  | succ stretches ih =>
    -- The rest is the same whether or not there was a pulse.
    have hnext {m : Eval (List (Array Value))} (hm : m = do
        let stretch ← ofOutcome
          (← update (fill (zeroItem elem) (min turnInterval (length - size)) size #[]))
        buildStretches run length (zeroItem elem) stretches (size + min turnInterval (length - size))
          (stretch :: built)) {s : EngineState} {path : List EngineState}
        (hbuilt : Heap.SharingAll h s.heap (joined built).toList (Apart SameButItems))
        (hp : h.Precedes s.heap) (hheld : s.Holds (some xs)) (hruns : m.Runs s path (.ok built') t)
        (hothers : (m s).Amid EngineState.LeavesBuilt path) :
        Heap.SharingAll h t.heap (joined built').toList (Apart SameButItems) ∧
          h.Precedes t.heap := by
      subst hm
      obtain ⟨stretch, u, hfill, hstart⟩ := apply_of_runs_update hruns
      rw [Runs, hstart] at hruns
      rw [hstart] at hothers
      obtain ⟨hstretch, hprecedes⟩ := sharing_stretch hfill hbuilt hp
      obtain ⟨-, -, hsame⟩ := sharing_fill hfill .nil (.refl _)
      refine ih hstretch hprecedes ?_ hruns hothers
      rw [hsame]
      exact hheld
    unfold buildStretches at hruns hothers
    split at hruns
    · rename_i hempty
      rw [if_pos hempty] at hothers
      exact hnext rfl hbuilt hp hheld hruns hothers
    · rename_i hempty
      rw [if_neg hempty] at hothers
      obtain ⟨first, rest, _, u, rfl, hpulse, hrest⟩ | ⟨e, -, he⟩ := runs_bind.mp hruns
      · rw [bind_apply, hpulse.amid_bind] at hothers
        obtain ⟨hu, hprecedes, hkept⟩ := kept_pulse hheld hpulse hothers.1
        exact hnext rfl (sharing_of_kept hbuilt hprecedes hkept) (hp.trans hprecedes) hu hrest hothers.2
      · cases he

theorem checkLength_ok {run : RunId} {length : Nat} {u : Unit}
    (hruns : (checkLength run length).Runs s path (.ok u) t) : path = [] ∧ t = s := by
  rw [Runs, checkLength_apply] at hruns
  split at hruns
  · obtain ⟨-, hr, -⟩ := Step.endsAlong_done.mp hruns
    cases hr
  · obtain ⟨hpath, -, ht⟩ := Step.endsAlong_done.mp hruns
    exact ⟨hpath, ht⟩

theorem sharing_build {run : RunId} {elem : HostType} {length : Nat} {items : Array Value}
    {xs : List Holding} (hheld : s.Holds (some xs))
    (hruns : (build run length (zeroItem elem)).Runs s path (.ok items) t)
    (hothers : (build run length (zeroItem elem) s).Amid EngineState.LeavesBuilt path) :
    Heap.SharingAll s.heap t.heap items.toList (Apart SameButItems) ∧
      s.heap.Precedes t.heap := by
  obtain ⟨first, rest, _, u, rfl, hlength, hbuild⟩ | ⟨e, -, he⟩ := runs_bind.mp hruns
  · rw [build, bind_apply, hlength.amid_bind] at hothers
    obtain ⟨hpath, rfl⟩ := checkLength_ok hlength
    obtain ⟨first', rest', built, w, rfl, hstretches, hdone⟩ | ⟨e, -, he⟩ := runs_bind.mp hbuild
    · obtain ⟨rfl, hr, rfl⟩ := runs_pure.mp hdone
      cases hr
      have hothers := hothers.2
      rw [andThen_ok, bind_apply, hstretches.amid_bind] at hothers
      exact sharing_buildStretches _ .nil (.refl _) hheld hstretches hothers.1
    · cases he
  · cases he

/-- **A slice that a script makes** has items that are apart. -/
theorem sharing_makeSlice {run : RunId} {elem : HostType} {args : List Value} {v : Value}
    {xs : List Holding} (hheld : s.Holds (some xs))
    (hruns : (make run (.slice elem) args).Runs s path (.ok v) t)
    (hothers : (make run (.slice elem) args s).Amid EngineState.LeavesBuilt path) :
    Heap.Sharing s.heap t.heap v SameButInnerItems := by
  obtain ⟨first, rest, length, u, rfl, hsize, hrest⟩ | ⟨e, -, he⟩ := runs_bind.mp hruns
  · rw [make, bind_apply, hsize.amid_bind] at hothers
    obtain ⟨-, rfl, -⟩ := runs_tryHeap_ok hsize
    obtain ⟨first', rest', items, w, rfl, hbuild, hadd⟩ | ⟨e, -, he⟩ := runs_bind.mp hrest
    · have hothers := hothers.2
      rw [andThen_ok, bind_apply, hbuild.amid_bind] at hothers
      obtain ⟨hitems, hp⟩ := sharing_build hheld hbuild hothers.1
      obtain ⟨h, -, rfl, hslice⟩ := runs_onHeap_ok hadd
      unfold Heap.addSlice at hslice
      split at hslice
      · cases hslice
      · cases hslice
        exact Heap.SharingAll.addList hitems hp ⟨rfl, rfl⟩ (fun i p hs => by cases hs.1)
          (fun i p hs => by cases hs.1) SameButInnerItems.cons_item
    · cases he
  · cases he

/-- What a script makes otherwise is made by the heap. -/
theorem runs_make_of_ne_slice {run : RunId} {type : HostType} {args : List Value} {v : Value}
    (htype : ∀ elem, type ≠ .slice elem) (hruns : (make run type args).Runs s path (.ok v) t) :
    s.heap.make type args = .ok (v, t.heap) := by
  unfold make at hruns
  split at hruns
  · exact absurd rfl (htype _)
  · obtain ⟨h, -, rfl, hmake⟩ := runs_onHeap_ok hruns
    exact hmake

end Eval

open Eval in
/-- **What new values share.**  Zero values, what the heap makes, the padding of arrays, and what `new`
and `make` give to a script consist of new objects, and two positions hold the same object exactly if
they agree up to the numbers of items; in slices that a script makes they must agree in the first step,
too.  So a write shows only behind positions that agree with the one that is written to. -/
theorem fresh_values_share (h h' : Heap) (type : HostType) (args : List Value) (v : Value) :
    h.Sharing (h.zeroValue type).2 (h.zeroValue type).1 SameButItems ∧
    (h.make type args = .ok (v, h') → h.Sharing h' v SameButItems) ∧
    (∀ elem len id, type = .array elem len → h.convert (.list id) type = .ok (v, h') →
      v = .list id ∧ h' = h ∨ ∃ h₁, h.Grows h₁ ∧
        ∀ i j p q x y, (h.list id).items.size ≤ i → (h.list id).items.size ≤ j →
          h'.partAt? v (.item i :: p) = some x → h'.partAt? v (.item j :: q) = some y →
          x.isContainer = true → h₁.MadeBetween h' x ∧ (x = y ↔ SameButItems p q)) ∧
    (∀ (ev : Evaluator) scope typeExpr s path t,
      (ev.dispatchExpr scope (.new typeExpr)).Runs s path (.ok v) t →
      s.heap.Sharing t.heap v SameButItems) ∧
    (∀ run s path t xs, s.Holds (some xs) → (make run type args).Runs s path (.ok v) t →
      (make run type args s).Amid EngineState.LeavesBuilt path →
      (∀ elem, type = .slice elem → s.heap.Sharing t.heap v SameButInnerItems) ∧
        ((∀ elem, type ≠ .slice elem) → s.heap.Sharing t.heap v SameButItems)) ∧
    ∀ same, h.Sharing h' v same → ∀ p write, h'.partAt? v p = some write.target →
      ∀ q, (∀ q', q' <+: q → q' ≠ q → ¬same p q') → (h'.perform write).partAt? v q = h'.partAt? v q := by
  refine ⟨Heap.sharing_zeroValue type h, Heap.sharing_make, ?_,
    fun ev scope typeExpr s path t hruns => ?_,
    fun run s path t xs hheld hruns hothers => ⟨?_, fun htype => ?_⟩,
    fun same hv p write hp q hq => ?_⟩
  · rintro elem len id rfl
    exact Heap.sharing_padding
  · obtain ⟨first, rest, type, u, rfl, hresolve, hzero⟩ | ⟨e, -, he⟩ := runs_bind.mp hruns
    · obtain ⟨-, rfl, -⟩ := runs_tryHeap_ok hresolve
      obtain ⟨h, -, rfl, hnew⟩ := runs_onHeap_ok hzero
      exact Heap.sharing_zero hnew
    · cases he
  · rintro elem rfl
    exact sharing_makeSlice hheld hruns hothers
  · exact Heap.sharing_make (runs_make_of_ne_slice htype hruns)
  · refine Heap.partAt?_perform fun q' y hprefix hne hy htarget => hq q' hprefix hne ?_
    subst htarget
    refine (hv.shared p q' _ _ hp hy ?_).mp rfl
    cases write <;> rfl

/-- A task that holds nothing, and a run without limits. -/
def making : EngineState :=
  { EngineState.initial with
    held := ({} : Store (List Holding)).push []
    runs := ({} : Store Run).push ⟨0, ⟨0, 0, 0, 0⟩, 0, 0⟩ }

/-- The two items of a slice of slices that a script makes are different lists. -/
theorem fresh_values_share_made :
    ∃ v t x y, (Eval.make 0 (.slice (.slice .any)) [.int 2]).Runs making [] (.ok v) t ∧
      t.heap.partAt? v [.item 0] = some x ∧ t.heap.partAt? v [.item 1] = some y ∧ x ≠ y := by
  have hruns : (Eval.make 0 (.slice (.slice .any)) [.int 2]).Runs making [] (.ok (.list 2)) _ :=
    Eval.runs_of_gives (by decide +kernel)
  have hheld : making.Holds (some []) := rfl
  obtain ⟨-, -, -, -, hmade, -⟩ :=
    fresh_values_share making.heap making.heap (.slice (.slice .any)) [.int 2] (.list 2)
  obtain ⟨hslice, -⟩ := hmade _ _ _ _ _ hheld hruns (Step.amid_nil _)
  have hx : (Eval.make 0 (.slice (.slice .any)) [.int 2] making).state.heap.partAt? (.list 2) [.item 0] =
      some (.list 0) := by decide +kernel
  have hy : (Eval.make 0 (.slice (.slice .any)) [.int 2] making).state.heap.partAt? (.list 2) [.item 1] =
      some (.list 1) := by decide +kernel
  refine ⟨_, _, _, _, hruns, hx, hy, fun he => ?_⟩
  have hsame := ((hslice _ rfl).shared _ _ _ _ hx hy rfl).mp he
  cases hsame.1

/-- **The items of an array are one object.**  In a new `[2][1]int` both items are the same list, and
what is written to an item of the first is read at the second. -/
theorem array_items_are_one :
    let r := ({} : Heap).zeroValue (.array (.array (.int .int64) 1) 2)
    r.2.partAt? r.1 [.item 0] = some (.list 0) ∧ r.2.partAt? r.1 [.item 1] = some (.list 0) ∧
      r.2.partAt? r.1 [.item 1, .item 0] = some (.int 0) ∧
      (r.2.perform (.item 0 0 (.int 1))).partAt? r.1 [.item 1, .item 0] = some (.int 1) := by
  decide

end ScriptEngine
