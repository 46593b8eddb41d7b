import ScriptEngine.Evaluator.Expression
import ScriptEngine.Proofs.EngineState.Sweeping
import ScriptEngine.Proofs.Task.Law

/-! # Tasks that keep the heap sound

A task runs in stretches, from one wait to the next, and while it waits other tasks run.  It
**keeps** the heap sound (`Keeps`) if each of its stretches leads from a sound heap to a sound heap
that advances it, provided that the same is true of whatever the others do while it waits.

Two computations carry values over a wait before they put them where a type is declared: a send, and
the building of a slice.  Such a value was made to conform before; its object keeps its shape, unless
it is gone (`Heap.Fits`), and what is gone is neither accepted by a channel nor put into a slice.
-/
namespace ScriptEngine

/-! ## Values over time -/

namespace Store
variable {α β : Type} {shape : α → β} {s s' : Store α}

theorem Advances.shape_or_gone (ha : s.Advances shape s') {id : Nat} {x : β}
    (hx : (s.get? id).map shape = some x) :
    (s'.get? id).map shape = some x ∨ id < s'.next ∧ s'.get? id = none := by
  obtain ⟨a, hget, rfl⟩ := Option.map_eq_some_iff.mp hx
  have hlt := lt_next hget
  obtain hnone | hsame := ha.kept id hlt
  · exact .inr ⟨Nat.lt_of_lt_of_le hlt ha.next_le, hnone⟩
  · exact .inl (hsame.trans hx)

theorem Advances.gone
    (ha : s.Advances shape s') {id : Nat} (hlt : id < s.next) (hnone : s.get? id = none) :
    id < s'.next ∧ s'.get? id = none := by
  refine ⟨Nat.lt_of_lt_of_le hlt ha.next_le, ?_⟩
  obtain hnone' | hsame := ha.kept id hlt
  · exact hnone'
  · rw [hnone, Option.map_none, Option.map_eq_none_iff] at hsame
    exact hsame

end Store

namespace Heap
variable {h h' : Heap} {v : Value} {type : HostType}

/-- There was an object for this value, and it is gone. -/
def Lost (h : Heap) : Value → Prop
  | .list id => id < h.lists.next ∧ h.lists.get? id = none
  | .map id => id < h.maps.next ∧ h.maps.get? id = none
  | .handle id => id < h.handles.next ∧ h.handles.get? id = none
  | _ => False

/-- The value conforms to the type, or its object is gone. -/
def Fits (h : Heap) (v : Value) (type : HostType) : Prop :=
  Conforms h.shapes v type ∨ h.Lost v

theorem Fits.conforms (hf : h.Fits v type) (hv : h.has v = true) : Conforms h.shapes v type := by
  obtain hc | hlost := hf
  · exact hc
  · cases v with
    | list id | map id | handle id =>
      simp only [has] at hv
      rw [hlost.2] at hv
      cases hv
    | _ => exact hlost.elim

theorem Fits.advance (hf : h.Fits v type) (ha : h.Advances h') : h'.Fits v type := by
  obtain hc | hlost := hf
  · cases hc with
    | slice hs => exact (ha.lists.shape_or_gone hs).imp .slice id
    | plainSlice hs => exact (ha.lists.shape_or_gone hs).imp .plainSlice id
    | array hs => exact (ha.lists.shape_or_gone hs).imp .array id
    | map hs => exact (ha.maps.shape_or_gone hs).imp .map id
    | plainMap hs => exact (ha.maps.shape_or_gone hs).imp .plainMap id
    | struct hs => exact (ha.handles.shape_or_gone hs).imp .struct id
    | handle hs => exact (ha.handles.shape_or_gone hs).imp .handle id
    | structHandle hs => exact (ha.handles.shape_or_gone hs).imp .structHandle id
    | any => exact .inl .any
    | bool => exact .inl .bool
    | int hn => exact .inl (.int hn)
    | float => exact .inl .float
    | string => exact .inl .string
    | chan => exact .inl .chan
    | noChan => exact .inl .noChan
    | func => exact .inl .func
    | noFunc => exact .inl .noFunc
    | noHandle => exact .inl .noHandle
  · cases v with
    | list id => exact .inr (ha.lists.gone hlost.1 hlost.2)
    | map id => exact .inr (ha.maps.gone hlost.1 hlost.2)
    | handle id => exact .inr (ha.handles.gone hlost.1 hlost.2)
    | _ => exact hlost.elim

end Heap

/-! ## Tasks -/

variable {α β : Type}

/-- Sound heaps that follow one another. -/
theorem Heap.law_follows : Law Heap.Follows where
  trans hf hf' := hf.trans hf'
  stays hf := hf.sound.follows

/-- **The task keeps the heap sound**, from the heap `h` on; when it is done, `Q` holds of its
result and the heap. -/
abbrev Keeps (Q : α → Heap → Prop) (x : Step α) (h : Heap) : Prop :=
  Observes EngineState.heap Heap.Follows Q x h

/-- A task that keeps the heap sound, whatever its result. -/
abbrev KeepsOn (x : Step α) (h : Heap) : Prop := Keeps (fun _ _ => True) x h

variable {P : α → Heap → Prop} {Q : β → Heap → Prop} {h h' : Heap} {s : EngineState}

theorem Keeps.after (hf : h.Follows h') {x : Step α} (hx : Keeps P x h') : Keeps P x h :=
  Observes.after Heap.law_follows hf hx

/-- One task after the other. The second starts in a heap that advances the first one's. -/
theorem Keeps.bind {x : Step α} {f : α → EngineState → Step β} (hx : Keeps P x h)
    (hf : ∀ a (s : EngineState), h.Advances s.heap → s.heap.Sound → P a s.heap →
      Keeps Q (f a s) s.heap) : Keeps Q (x.bind f) h :=
  Observes.bind Heap.law_follows hx fun a s hs ha => hf a s hs.advances hs.sound ha

/-- Holding something and letting go of it does not matter. -/
theorem keeps_holding {m : Eval α} (x : Holding)
    (hm : ∀ s', s'.heap = s.heap → KeepsOn (m s') s'.heap) :
    KeepsOn (Eval.holding x m s) s.heap := by
  rw [Eval.holding_apply]
  exact (hm (s.hold x) rfl).bind fun r s' _ hs' _ =>
    ⟨EngineState.follows_letGoOf hs' s'.current, trivial⟩

/-- **The computation keeps every sound heap sound.** -/
structure Keeping (m : Eval α) : Prop where
  keeps : ∀ s, s.heap.Sound → KeepsOn (m s) s.heap

namespace Keeping

theorem of_done {m : Eval α} (next : EngineState → EngineState)
    (result : EngineState → Except EvalError α) (hm : ∀ s, m s = .done (next s) (result s))
    (hf : ∀ s : EngineState, s.heap.Sound → s.heap.Follows (next s).heap) : Keeping m := by
  refine ⟨fun s hs => ?_⟩
  rw [hm]
  exact ⟨hf s hs, trivial⟩

theorem pure (a : α) : Keeping (Pure.pure a : Eval α) :=
  of_done id _ (fun _ => rfl) fun _ hs => hs.follows

theorem bind {m : Eval α} {k : α → Eval β} (hm : Keeping m) (hk : ∀ a, Keeping (k a)) :
    Keeping (m >>= k) := by
  refine ⟨fun s hs => ?_⟩
  rw [Eval.bind_apply]
  refine (hm.keeps s hs).bind fun r s' _ hs' _ => ?_
  cases r with
  | ok a => exact (hk a).keeps s' hs'
  | error e => exact ⟨hs'.follows, trivial⟩

theorem holding (x : Holding) {m : Eval α} (hm : Keeping m) : Keeping (Eval.holding x m) :=
  ⟨fun _ hs => keeps_holding x fun s' hs' => hm.keeps s' (hs' ▸ hs)⟩

theorem located (p : Position) {m : Eval α} (hm : Keeping m) : Keeping (Eval.located p m) := by
  refine ⟨fun s hs => ?_⟩
  rw [Eval.located_apply]
  exact (hm.keeps s hs).bind fun r s' _ hs' _ => ⟨hs'.follows, trivial⟩

theorem attempt {m : Eval α} (hm : Keeping m) : Keeping (Eval.attempt m) := by
  refine ⟨fun s hs => ?_⟩
  rw [Eval.attempt_apply]
  exact (hm.keeps s hs).bind fun r s' _ hs' _ => ⟨hs'.follows, trivial⟩

theorem read (f : EngineState → α) : Keeping (Eval.read f) :=
  of_done id _ (fun s => Eval.read_apply f s) fun _ hs => hs.follows

theorem modify {f : EngineState → EngineState}
    (hf : ∀ s : EngineState, s.heap.Sound → s.heap.Follows (f s).heap) : Keeping (Eval.modify f) :=
  of_done f _ (fun s => Eval.modify_apply f s) hf

theorem update {f : EngineState → α × EngineState}
    (hf : ∀ s : EngineState, s.heap.Sound → s.heap.Follows (f s).2.heap) : Keeping (Eval.update f) :=
  of_done (fun s => (f s).2) _ (fun s => Eval.update_apply f s) hf

theorem alloc {f : Heap → α × Heap} (hf : ∀ h : Heap, h.Sound → h.Follows (f h).2) :
    Keeping (Eval.alloc f) :=
  of_done _ _ (fun s => Eval.alloc_apply f s) fun s hs => hf s.heap hs

theorem ofFailure (e : Failure) : Keeping (Eval.ofFailure e : Eval α) := by
  refine ⟨fun s hs => ?_⟩
  cases e with
  | fault f => exact ⟨hs.follows, trivial⟩
  | overflow => exact hs.follows

theorem ofOutcome (o : Outcome α) : Keeping (Eval.ofOutcome o) := by
  cases o with
  | ok a => exact .pure a
  | error e => exact .ofFailure e

theorem onHeap {f : Heap → Outcome (α × Heap)}
    (hf : ∀ {h : Heap} {a : α} {h' : Heap}, h.Sound → f h = .ok (a, h') → h.Follows h') :
    Keeping (Eval.onHeap f) := by
  refine ⟨fun s hs => ?_⟩
  cases hr : f s.heap with
  | ok r =>
    obtain ⟨a, h'⟩ := r
    rw [Eval.onHeap_ok hr]
    exact ⟨hf hs hr, trivial⟩
  | error e =>
    rw [Eval.onHeap_error hr]
    exact (ofFailure e).keeps s hs

theorem changeHeap {f : Heap → Outcome Heap}
    (hf : ∀ {h h' : Heap}, h.Sound → f h = .ok h' → h.Follows h') : Keeping (Eval.changeHeap f) := by
  refine ⟨fun s hs => ?_⟩
  cases hr : f s.heap with
  | ok h' =>
    rw [Eval.changeHeap_ok hr]
    exact ⟨hf hs hr, trivial⟩
  | error e =>
    rw [Eval.changeHeap_error hr]
    exact (ofFailure e).keeps s hs

theorem bindName (name : String) {f : Heap → Outcome Heap}
    (hf : ∀ {h h' : Heap}, h.Sound → f h = .ok h' → h.Follows h') : Keeping (Eval.bindName name f) := by
  refine ⟨fun s hs => ?_⟩
  cases hr : f s.heap with
  | ok h' =>
    rw [Eval.bindName_ok hr]
    exact ⟨hf hs hr, trivial⟩
  | error e =>
    rw [Eval.bindName_error hr]
    exact (ofFailure e).keeps (s.complain _) hs

/-- A write is carried out in the very heap that it was prepared in. -/
theorem store {f : Heap → Outcome (Write × Heap)}
    (hf : ∀ {h : Heap} {r : Write × Heap}, h.Sound → f h = .ok r → Heap.Prepared h r) : Keeping (Eval.store f) := by
  refine ⟨fun s hs => ?_⟩
  rw [Eval.store, Eval.bind_apply]
  cases hr : f s.heap with
  | ok r =>
    obtain ⟨w, h'⟩ := r
    rw [Eval.onHeap_ok hr]
    exact ⟨(hf hs hr).perform, trivial⟩
  | error e =>
    rw [Eval.onHeap_error hr]
    cases e with
    | fault f => exact ⟨hs.follows, trivial⟩
    | overflow => exact hs.follows

theorem checkWait (on : Wait) : Keeping (Eval.checkWait on) := by
  refine ⟨fun s hs => ?_⟩
  rw [Eval.checkWait_apply]
  split <;> exact ⟨hs.follows, trivial⟩

theorem await (on : Wait) : Keeping (Eval.await on) := by
  refine ⟨fun s hs => ?_⟩
  rw [Eval.await_apply]
  split
  · exact ⟨hs.follows, trivial⟩
  · exact ⟨hs.follows, fun s' hs' => (checkWait on).keeps s' hs'.sound⟩

/-- Asking for what has to be known anyway. -/
theorem awaitPickup (chan : ChanId) (ticket : Nat) (signal : SignalId) (rounds : Nat) :
    Keeping (Eval.awaitPickup chan ticket signal rounds) := by
  induction rounds with
  | zero => exact ⟨fun _ hs => hs.follows⟩
  | succ rounds ih =>
    refine .bind (.read _) fun settled => ?_
    cases settled with
    | true => exact .pure ()
    | false => exact .bind (.await _) fun _ => ih

end Keeping

/-! ## Sending -/

/-- The value may be accepted by the channel. -/
def Heap.Acceptable (h : Heap) (chan : ChanId) (v : Value) : Prop :=
  ∀ c, h.chans.get? chan = some c → ∀ type, c.elemType = some type → h.Fits v type

/-- What may be accepted by a channel that is there may be accepted later. -/
theorem Heap.Acceptable.advance {chan : ChanId} {v : Value} (hv : h.Acceptable chan v)
    (hchan : chan < h.chans.next) (ha : h.Advances h') : h'.Acceptable chan v := by
  intro c' hc' type htype
  obtain hnone | hsame := ha.chans.kept chan hchan
  · rw [hnone] at hc'
    cases hc'
  · rw [hc', Option.map_some] at hsame
    obtain ⟨c, hc, hshape⟩ := Option.map_eq_some_iff.mp hsame.symm
    have helem : c.elemType = c'.elemType := (ChanShape.mk.inj hshape).2
    exact (hv c hc type (helem.trans htype)).advance ha

/-- A channel that makes senders wait is there. -/
theorem Heap.lt_next_of_full {chan : ChanId} (hroom : (h.chan chan).hasRoom = false) :
    chan < h.chans.next := by
  cases hc : h.chans.get? chan with
  | some c => exact Store.lt_next hc
  | none =>
    rw [Heap.chan, hc] at hroom
    cases hroom

theorem keeps_offer {chan : ChanId} {v : Value} (hs : s.heap.Sound)
    (hv : s.heap.Acceptable chan v) :
    Keeps (fun r h' => r = .ok none → h'.Acceptable chan v ∧ chan < h'.chans.next)
      (Eval.offer chan v s) s.heap := by
  rw [Eval.offer, Eval.bind_apply]
  cases ho : s.heap.offer chan v with
  | error e =>
    rw [Eval.onHeap_error ho]
    cases e with
    | fault f => exact ⟨hs.follows, fun hnone => by cases hnone⟩
    | overflow => exact hs.follows
  | ok r =>
    obtain ⟨ticket, h'⟩ := r
    rw [Eval.onHeap_ok ho]
    obtain ⟨-, hhas, -, rfl, rfl⟩ | ⟨hroom, rfl, rfl⟩ := Heap.offer_cases ho
    · refine ⟨hs.accept fun c hc => ?_, fun hnone => by cases hnone⟩
      exact fun type htype => (hv c hc type htype).conforms hhas
    · exact ⟨hs.follows, fun _ => ⟨hv, Heap.lt_next_of_full hroom⟩⟩

theorem keeps_leave {chan : ChanId} {v : Value} {signal : SignalId} (rounds : Nat)
    (hs : s.heap.Sound) (hv : s.heap.Acceptable chan v) :
    KeepsOn (Eval.leave chan v signal rounds s) s.heap := by
  induction rounds generalizing s with
  | zero => exact hs.follows
  | succ rounds ih =>
    rw [Eval.leave, Eval.bind_apply]
    refine (keeps_offer hs hv).bind fun r s₁ _ hs₁ hr => ?_
    match r with
    | .error e => exact ⟨hs₁.follows, trivial⟩
    | .ok (some ticket) => exact ⟨hs₁.follows, trivial⟩
    | .ok none =>
      obtain ⟨hv₁, hchan⟩ := hr rfl
      show KeepsOn ((Eval.holdingValue v (Eval.await _) >>= fun _ => _) s₁) _
      rw [Eval.bind_apply]
      have hwait := (Keeping.holding (.value v) (Keeping.await (.room chan signal))).keeps s₁ hs₁
      refine hwait.bind fun r s₂ ha₂ hs₂ _ => ?_
      cases r with
      | error e => exact ⟨hs₂.follows, trivial⟩
      | ok _ => exact ih hs₂ (hv₁.advance hchan ha₂)

/-- A send converts before it waits, and what it leaves in the channel later still conforms. -/
theorem Keeping.send (rounds : Nat) (chan : ChanId) (v : Value) (signal : SignalId) :
    Keeping (Eval.send rounds chan v signal) := by
  refine .holding _ ⟨fun s hs => ?_⟩
  rw [Eval.bind_apply]
  cases hv : s.heap.chanValue chan v with
  | error e =>
    rw [Eval.onHeap_error hv]
    cases e with
    | fault f => exact ⟨hs.follows, trivial⟩
    | overflow => exact hs.follows
  | ok r =>
    obtain ⟨w, h'⟩ := r
    rw [Eval.onHeap_ok hv]
    obtain ⟨hf, hw⟩ := hs.convertTo hv
    -- The value was converted for this very channel, whose element type never changes.
    have hacceptable : h'.Acceptable chan w := by
      intro c hc type htype
      rw [Heap.get?_chan_convertTo hv hc] at hw
      exact .inl (hw type htype)
    refine .after hf ?_
    show KeepsOn ((Eval.leave chan w signal rounds >>= fun _ => _) _) _
    rw [Eval.bind_apply]
    refine (keeps_leave rounds hf.sound hacceptable).bind fun r s₁ _ hs₁ _ => ?_
    cases r with
    | error e => exact ⟨hs₁.follows, trivial⟩
    | ok ticket =>
      have hrest : Keeping (do
          if ← Eval.readHeap fun h => (h.chan chan).capacity == 0 then
            Eval.awaitPickup chan ticket signal rounds) := by
        refine .bind (.read _) fun unbuffered => ?_
        cases unbuffered with
        | true => exact .awaitPickup chan ticket signal rounds
        | false => exact .pure ()
      exact hrest.keeps s₁ hs₁

/-! ## Building in stretches -/

/-- The items that are built one by one have a property that lasts. -/
structure GoodItems (R : Value → Heap → Prop)
    (item : Nat → EngineState → Outcome Value × EngineState) : Prop where
  follows : ∀ i (s : EngineState), s.heap.Sound → s.heap.Follows (item i s).2.heap
  built : ∀ i s v, (item i s).1 = .ok v → R v (item i s).2.heap
  lasts : ∀ v h h', R v h → h.Advances h' → R v h'

variable {R : Value → Heap → Prop} {item : Nat → EngineState → Outcome Value × EngineState}

theorem follows_fill (hitem : GoodItems R item) (count index : Nat) (items : Array Value)
    (hs : s.heap.Sound) (hitems : ∀ v ∈ items, R v s.heap) :
    s.heap.Follows (Eval.fill item count index items s).2.heap ∧
      ∀ filled, (Eval.fill item count index items s).1 = .ok filled →
        ∀ v ∈ filled, R v (Eval.fill item count index items s).2.heap := by
  induction count generalizing index items s with
  | zero =>
    refine ⟨hs.follows, fun filled hfilled => ?_⟩
    cases hfilled
    exact hitems
  | succ count ih =>
    have hf := hitem.follows index s hs
    have hb := hitem.built index s
    unfold Eval.fill
    split
    · rename_i v s₁ heq
      rw [heq] at hf hb
      -- The items so far keep the property while the next one is made.
      have hpushed : ∀ x ∈ items.push v, R x s₁.heap := by
        intro x hx
        obtain hx | rfl := Array.mem_push.mp hx
        · exact hitem.lasts x _ _ (hitems x hx) hf.advances
        · exact hb x rfl
      obtain ⟨hrest, hfilled⟩ := ih (index + 1) (items.push v) hf.sound hpushed
      exact ⟨hf.trans hrest, hfilled⟩
    · rename_i e s₁ heq
      rw [heq] at hf
      exact ⟨hf, nofun⟩

/-- All the items in these stretches have the property. -/
def AllBuilt (R : Value → Heap → Prop) (built : List (Array Value)) (h : Heap) : Prop :=
  ∀ stretch ∈ built, ∀ v ∈ stretch, R v h

theorem AllBuilt.advance (hitem : GoodItems R item) {built : List (Array Value)}
    (hb : AllBuilt R built h) (ha : h.Advances h') : AllBuilt R built h' :=
  fun stretch hstretch v hv => hitem.lasts v _ _ (hb stretch hstretch v hv) ha

/-- An outcome carries nothing but items with the property. -/
def WhenOk {γ : Type} (S : γ → Heap → Prop) : Except EvalError γ → Heap → Prop
  | .ok a, h => S a h
  | .error _, _ => True

/-- What a pulse changes has nothing to do with the heap. -/
theorem Keeping.pulse (run : RunId) : Keeping (Eval.pulse run) := by
  have hcheck : Keeping (Eval.checkRun run) := by
    refine .bind (.read _) fun signal => .bind (.read _) fun cancelled => ?_
    cases cancelled with
    | true => exact ⟨fun _ hs => ⟨hs.follows, trivial⟩⟩
    | false => exact .pure ()
  have htick : Keeping (Eval.tick run) := by
    refine .bind (.update fun _ hs => hs.follows) fun pause => ?_
    cases pause with
    | some due => exact .bind (.read _) fun _ => .await _
    | none => exact .pure ()
  refine .bind hcheck fun _ => .bind ?_ fun _ => .bind (.await _) fun _ => htick
  exact .bind (.modify fun _ hs => hs.follows) fun _ => .read _

theorem keeps_buildStretches (hitem : GoodItems R item) (run : RunId) (length stretches size : Nat)
    (built : List (Array Value)) (hs : s.heap.Sound) (hb : AllBuilt R built s.heap) :
    Keeps (WhenOk (AllBuilt R)) (Eval.buildStretches run length item stretches size built s)
      s.heap := by
  induction stretches generalizing size built s with
  | zero => exact ⟨hs.follows, hb⟩
  | succ stretches ih =>
    have hnext (s : EngineState) (hs : s.heap.Sound) (hb : AllBuilt R built s.heap) :
        Keeps (WhenOk (AllBuilt R)) ((do
          let stretch ← Eval.ofOutcome
            (← Eval.update (Eval.fill item (min turnInterval (length - size)) size #[]))
          Eval.buildStretches run length item stretches
            (size + min turnInterval (length - size)) (stretch :: built) : Eval _) s) s.heap := by
      rw [Eval.bind_apply, Eval.update_apply, Step.bind_of_done, Eval.andThen_ok, Eval.bind_apply]
      obtain ⟨hf, hfilled⟩ := follows_fill hitem (min turnInterval (length - size)) size #[] hs
        (fun v hv => absurd hv (Array.not_mem_empty v))
      refine .after hf ?_
      cases hr : (Eval.fill item (min turnInterval (length - size)) size #[] s).1 with
      | error e =>
        cases e with
        | fault f => exact ⟨hf.sound.follows, trivial⟩
        | overflow => exact hf.sound.follows
      | ok stretch =>
        refine ih _ (stretch :: built) hf.sound fun x hx => ?_
        obtain rfl | hx := List.mem_cons.mp hx
        · exact hfilled x hr
        · exact hb.advance hitem hf.advances x hx
    unfold Eval.buildStretches
    split
    · exact hnext s hs hb
    · rw [Eval.bind_apply]
      have hpulse := (Keeping.holding (.stretches built) (.pulse run)).keeps s hs
      refine hpulse.bind fun r s₁ ha hs₁ _ => ?_
      cases r with
      | error e => exact ⟨hs₁.follows, trivial⟩
      | ok _ => exact hnext s₁ hs₁ (hb.advance hitem ha)

theorem mem_joined {v : Value} {built : List (Array Value)}
    (hv : v ∈ built.foldr (fun stretch items => items ++ stretch) #[]) :
    ∃ stretch ∈ built, v ∈ stretch := by
  induction built with
  | nil => exact absurd hv (Array.not_mem_empty v)
  | cons stretch rest ih =>
    obtain hv | hv := Array.mem_append.mp hv
    · obtain ⟨x, hx, hv⟩ := ih hv
      exact ⟨x, List.mem_cons_of_mem _ hx, hv⟩
    · exact ⟨stretch, List.mem_cons_self, hv⟩

/-- All items that were built have the property in the end. -/
theorem keeps_build (hitem : GoodItems R item) (run : RunId) (length : Nat) (hs : s.heap.Sound) :
    Keeps (WhenOk fun items h' => ∀ v ∈ items, R v h') (Eval.build run length item s) s.heap := by
  have hlength : Keeping (Eval.checkLength run length) := by
    refine .bind (.read _) fun limit => ?_
    split
    · refine .bind (.modify fun _ hs => hs.follows) fun _ => ?_
      exact ⟨fun _ hs => ⟨hs.follows, trivial⟩⟩
    · exact .pure ()
  rw [Eval.build, Eval.bind_apply]
  refine (hlength.keeps s hs).bind fun r s₁ _ hs₁ _ => ?_
  cases r with
  | error e => exact ⟨hs₁.follows, trivial⟩
  | ok _ =>
    rw [Eval.andThen_ok, Eval.bind_apply]
    refine (keeps_buildStretches hitem run length _ 0 [] hs₁ (fun x hx => by cases hx)).bind
      fun r s₂ _ hs₂ hb => ?_
    cases r with
    | error e => exact ⟨hs₂.follows, trivial⟩
    | ok built =>
      refine ⟨hs₂.follows, fun v hv => ?_⟩
      obtain ⟨stretch, hstretch, hv⟩ := mem_joined hv
      exact hb stretch hstretch v hv

theorem goodItems_zero (type : HostType) :
    GoodItems (fun v h => h.Fits v type) (Eval.zeroItem type) where
  follows i s hs := by
    unfold Eval.zeroItem
    split
    · exact Heap.follows_zeroValue hs type
    · exact hs.follows
  built i s v hv := by
    unfold Eval.zeroItem at hv ⊢
    split at hv
    · rename_i hzero
      rw [if_pos hzero]
      cases hv
      exact .inl (Heap.made_zeroValue type s.heap).conforms
    · cases hv
  lasts _ _ _ hv ha := hv.advance ha

/-- A slice is made of zero values that are still there. -/
theorem Keeping.make (run : RunId) (type : HostType) (args : List Value) :
    Keeping (Eval.make run type args) := by
  unfold Eval.make
  split
  · rename_i elem
    refine .bind (.bind (.read _) fun o => .ofOutcome o) fun length => ⟨fun s hs => ?_⟩
    rw [Eval.bind_apply]
    refine (keeps_build (goodItems_zero elem) run length hs).bind fun r s₁ _ hs₁ hb => ?_
    cases r with
    | error e => exact ⟨hs₁.follows, trivial⟩
    | ok items =>
      have hslice {v : Value} {h' : Heap} (hp : s₁.heap.addSlice elem items = .ok (v, h')) :
          s₁.heap.Follows h' := by
        unfold Heap.addSlice at hp
        split at hp
        · cases hp
        · rename_i hnone
          cases hp
          refine hs₁.addList fun v hv => ?_
          have hmem : v ∈ items := Array.mem_toList_iff.mp hv
          -- A slice is made only of items that are all still there.
          have hhas : s₁.heap.has v = true := by
            simpa using Array.find?_eq_none.mp hnone v hmem
          exact ((hb v hmem).conforms hhas).to
      rw [Eval.andThen_ok]
      cases hr : s₁.heap.addSlice elem items with
      | ok p =>
        obtain ⟨v, h'⟩ := p
        rw [Eval.onHeap_ok hr]
        exact ⟨hslice hr, trivial⟩
      | error e =>
        rw [Eval.onHeap_error hr]
        exact (Keeping.ofFailure e).keeps s₁ hs₁
  · exact .onHeap fun hs hp => Heap.follows_make hs hp

end ScriptEngine
