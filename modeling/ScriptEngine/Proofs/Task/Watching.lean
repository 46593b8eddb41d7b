import ScriptEngine.Evaluator.Expression
import ScriptEngine.Proofs.EngineState.Telling
import ScriptEngine.Proofs.Task.Paths

/-! # Tasks that look before they wait

A task may wait for a channel only if it has just looked at the channel and found it open, but without
what it needs (`Wait.Pends`); it holds the channel while it waits; and whatever it does to channels it
makes known.  Such a task **watches** (`Watches`).  This is what others can rely on, and what the task
itself relies on: if everyone watches, then a task that waits is told as soon as it has reason to look
again.

Nothing is assumed about what others do while the task waits, except that they leave its holdings
alone: a task that was woken looks anew.
-/
namespace ScriptEngine

/-! ## What a waiting task lacks -/

/-- What an operation on a channel needs. -/
inductive Need where
  /-- A value to receive. -/
  | value
  /-- Room for a value. -/
  | room
  /-- A receiver for the value with this ticket. -/
  | pickup (ticket : Nat)
  /-- Room for a value that must not wait there: on an unbuffered channel, a receiver that waits. -/
  | taker
deriving Repr, DecidableEq, Inhabited

namespace Need

/-- The channel is open and does not offer what is needed. -/
def IsUnmet (c : Channel) (n : Need) : Prop :=
  c.closed = false ∧ match n with
    | .value => c.buffer = []
    | .room => c.hasRoom = false
    | .pickup ticket => c.received < ticket
    | .taker => c.isReady = false

/-- A receiver that stops waiting meets no need. -/
theorem IsUnmet.calm {n : Need} {c c' : Channel} (hn : n.IsUnmet c) (hc : c.Calms c') :
    n.IsUnmet c' := by
  obtain ⟨heq, hle⟩ := hc
  obtain ⟨hopen, hn⟩ := hn
  rw [heq]
  refine ⟨hopen, ?_⟩
  cases n with
  | value | room | pickup ticket => exact hn
  | taker =>
    simp only [Channel.isReady] at hn ⊢
    split
    · rename_i hcap
      rw [if_pos hcap, decide_eq_false_iff_not] at hn
      exact decide_eq_false (by omega)
    · rename_i hcap
      rw [if_neg hcap] at hn
      exact hn

end Need

namespace Wait

/-- What the operations need that a task waits for. -/
def needs : Wait → List (ChanId × Need)
  | .recv chan _ => [(chan, .value)]
  | .room chan _ => [(chan, .room)]
  | .pickup chan ticket _ => [(chan, .pickup ticket)]
  | .cases ops _ => ops.map fun op => (op.1, if op.2.isSome then .taker else .value)
  | .turn | .time _ | .pause _ _ | .cancelled _ => []

theorem channels_eq (on : Wait) : on.channels = on.needs.map (·.1) := by
  cases on with
  | cases ops signal => simp [channels, needs, Function.comp_def]
  | _ => rfl

/-- None of the operations could be made: every channel is there, and its need is unmet. -/
def Pends (h : Heap) (on : Wait) : Prop :=
  ∀ p ∈ on.needs, ∃ c, h.chans.get? p.1 = some c ∧ p.2.IsUnmet c

theorem pends_of_channels {on : Wait} (hon : on.channels = []) (h : Heap) : on.Pends h := by
  rw [channels_eq, List.map_eq_nil_iff] at hon
  intro p hp
  rw [hon] at hp
  cases hp

theorem pends_singleton {on : Wait} {h : Heap} {id : ChanId} {n : Need} {c : Channel}
    (hon : on.needs = [(id, n)]) (hc : h.chans.get? id = some c) (hn : n.IsUnmet c) :
    on.Pends h := by
  intro p hp
  rw [hon] at hp
  cases List.mem_singleton.mp hp
  exact ⟨c, hc, hn⟩

end Wait

/-! ## What an operation that has to wait has seen -/

namespace Heap
variable {h h' : Heap} {id : ChanId}

/-- A channel that is open is there. -/
theorem get?_of_open (hopen : (h.chan id).closed = false) :
    h.chans.get? id = some (h.chan id) := by
  unfold chan at hopen ⊢
  cases hc : h.chans.get? id with
  | none =>
    rw [hc] at hopen
    cases hopen
  | some c => rfl

theorem unmet_of_offer {v : Value} (ho : h.offer id v = .ok (none, h')) :
    ∃ c, h.chans.get? id = some c ∧ Need.room.IsUnmet c := by
  simp only [offer] at ho
  split at ho
  · cases ho
  · rename_i hopen
    rw [Bool.not_eq_true] at hopen
    split at ho
    · cases ho
    · split at ho
      · cases ho
      · rename_i hroom
        rw [Bool.not_eq_true] at hroom
        exact ⟨_, get?_of_open hopen, hopen, hroom⟩

theorem unmet_of_tryRecv (hr : h.tryRecv id = .ok (none, h')) :
    ∃ c, h.chans.get? id = some c ∧ Need.value.IsUnmet c := by
  have hopen : (h.chan id).closed = false := by
    simp only [tryRecv] at hr
    split at hr
    · cases hr
    · split at hr
      · obtain ⟨⟨z, h₁⟩, -, he⟩ := Outcome.bind_eq_ok.mp hr
        cases he
      · rename_i hclosed
        exact Bool.not_eq_true _ ▸ hclosed
  have hc := get?_of_open hopen
  refine ⟨_, hc, hopen, ?_⟩
  rw [tryRecv_eq hc] at hr
  cases hb : (h.chan id).buffer with
  | nil => rfl
  | cons v rest =>
    rw [hb] at hr
    cases hr

theorem unmet_of_trySend {v : Value} (hs : h.trySend id v = .ok (false, h')) :
    ∃ c, h.chans.get? id = some c ∧ Need.taker.IsUnmet c := by
  obtain ⟨⟨w, h₁⟩, hw, hs⟩ := Outcome.bind_eq_ok.mp hs
  simp only at hs
  split at hs
  · cases hs
  · rename_i hopen
    rw [Bool.not_eq_true] at hopen
    split at hs
    · cases hs
    · rename_i hready
      rw [Bool.not_eq_true] at hready
      exact ⟨_, chanValue_chans hw ▸ get?_of_open hopen, hopen, hready⟩

theorem unmet_of_isSettled {ticket : Nat} (hs : (h.chan id).isSettled ticket = false) :
    ∃ c, h.chans.get? id = some c ∧ (Need.pickup ticket).IsUnmet c := by
  simp only [Channel.isSettled, Bool.or_eq_false_iff, decide_eq_false_iff_not, Nat.not_le] at hs
  exact ⟨_, get?_of_open hs.2, hs.2, hs.1⟩

/-! ## What an operation that is made changes -/

theorem get?_of_trySend {v : Value} (hs : h.trySend id v = .ok (true, h')) {other : ChanId}
    (hne : other ≠ id) : h'.chans.get? other = h.chans.get? other := by
  obtain ⟨⟨w, h₁⟩, hw, hs⟩ := Outcome.bind_eq_ok.mp hs
  simp only at hs
  split at hs
  · cases hs
  · split at hs
    · cases hs
      rw [← chanValue_chans hw]
      exact Store.get?_modify_of_ne hne
    · cases hs

theorem get?_of_tryRecv {v : Value} (hr : h.tryRecv id = .ok (some (v, true), h'))
    {other : ChanId} (hne : other ≠ id) : h'.chans.get? other = h.chans.get? other := by
  simp only [tryRecv] at hr
  split at hr
  · cases hr
    exact Store.get?_modify_of_ne hne
  · split at hr
    · obtain ⟨⟨z, h₁⟩, -, he⟩ := Outcome.bind_eq_ok.mp hr
      cases he
    · cases hr

/-- A receive that hands out nothing that was sent leaves the channels alone. -/
theorem spares_tryRecv {r : Option (Value × Bool)} (hr : h.tryRecv id = .ok (r, h'))
    (hnew : ∀ v, r ≠ some (v, true)) : h.Spares h' := by
  simp only [tryRecv] at hr
  split at hr
  · cases hr
    exact absurd rfl (hnew _)
  · split at hr
    · obtain ⟨⟨z, h₁⟩, hz, he⟩ := Outcome.bind_eq_ok.mp hr
      cases he
      exact (grows_convertTo hz).spares
    · cases hr
      exact .refl _

end Heap

/-! ## Tasks that watch -/

open EngineState

variable {α β : Type}

/-- **The task watches**, from the state `s` on.  It holds `keep` in the beginning and in the end,
when `Q` holds of its result and the state; meanwhile it may hold more. -/
def Watches (task : TaskId) (keep : List Holding) (Q : α → EngineState → Prop) :
    Step α → EngineState → Prop
  | .done s' a, s => Tells (some task) s s' ∧ s'.held.get? task = some keep ∧ Q a s'
  | .wait s' on resume, s => Tells (some task) s s' ∧ ∃ xs,
    s'.held.get? task = some (xs ++ keep) ∧ on.Pends s'.heap ∧
    (∀ id ∈ on.channels, HoldsChan (xs ++ keep) id) ∧
    ∀ s'', s''.current = task → s''.held.get? task = some (xs ++ keep) →
      Watches task keep Q (resume s'') s''
  | .stop s' _, s => Tells (some task) s s' ∧ ∃ xs, s'.held.get? task = some (xs ++ keep)

/-- The task watches, whatever its result. -/
abbrev WatchesOn (task : TaskId) (keep : List Holding) (x : Step α) (s : EngineState) : Prop :=
  Watches task keep (fun _ _ => True) x s

section
variable {task : TaskId} {keep : List Holding} {P : α → EngineState → Prop}
  {Q : β → EngineState → Prop} {s s₁ : EngineState}

theorem Watches.after (ht : Tells (some task) s s₁) {x : Step α} (hx : Watches task keep P x s₁) :
    Watches task keep P x s := by
  cases x with
  | done s' a => exact ⟨ht.trans hx.1, hx.2⟩
  | wait s' on resume => exact ⟨ht.trans hx.1, hx.2⟩
  | stop s' why => exact ⟨ht.trans hx.1, hx.2⟩

/-- One task after the other. -/
theorem Watches.bind {x : Step α} {f : α → EngineState → Step β} (hx : Watches task keep P x s)
    (hs : s.current = task)
    (hf : ∀ a s', s'.current = task → s'.held.get? task = some keep → P a s' →
      Watches task keep Q (f a s') s') : Watches task keep Q (x.bind f) s := by
  induction x generalizing s with
  | done s' a =>
    obtain ⟨ht, hx, hp⟩ := hx
    exact .after ht (hf a s' (ht.current_eq.trans hs) hx hp)
  | wait s' on resume ih =>
    obtain ⟨ht, xs, hx, hpends, hholds, hresume⟩ := hx
    exact ⟨ht, xs, hx, hpends, hholds, fun s'' hs'' hx'' =>
      ih s'' (hresume s'' hs'' hx'') hs''⟩
  | stop s' why => exact hx

theorem Watches.mono {P' : α → EngineState → Prop} {x : Step α} (hx : Watches task keep P x s)
    (hp : ∀ a s', P a s' → P' a s') : Watches task keep P' x s := by
  induction x generalizing s with
  | done s' a => exact ⟨hx.1, hx.2.1, hp a s' hx.2.2⟩
  | wait s' on resume ih =>
    obtain ⟨ht, xs, hx, hpends, hholds, hresume⟩ := hx
    exact ⟨ht, xs, hx, hpends, hholds, fun s'' hs'' hx'' => ih s'' (hresume s'' hs'' hx'')⟩
  | stop s' why => exact hx

/-- Where a task ends that watches, if the others leave its holdings alone: it holds what it held.  And
whenever it has waited on its way, it has held this, and perhaps more. -/
theorem Watches.along {R : EngineState → EngineState → Prop} {x : Step α} {path : List EngineState}
    {a : α} {t : EngineState} (hx : Watches task keep P x s) (hs : s.current = task)
    (hends : x.EndsAlong path a t) (hothers : x.Amid R path)
    (hR : ∀ w w', R w w' → w'.current = w.current ∧
      w'.held.get? w.current = w.held.get? w.current) :
    (t.current = task ∧ t.held.get? task = some keep ∧ P a t) ∧
      x.Amid (fun w w' => R w w' ∧ w.current = task ∧
        ∃ xs, w.held.get? task = some (xs ++ keep)) path := by
  induction hends generalizing s with
  | done s' a => exact ⟨⟨hx.1.current_eq.trans hs, hx.2⟩, trivial⟩
  | @wait w w' _ on resume _ _ _ ih =>
    obtain ⟨ht, xs, hheld, -, -, hresume⟩ := hx
    have hw : w.current = task := ht.current_eq.trans hs
    obtain ⟨hcurrent, hsame⟩ := hR w w' hothers.1
    rw [hw] at hcurrent hsame
    obtain ⟨hend, hrest⟩ := ih (hresume w' hcurrent (hsame.trans hheld)) hcurrent hothers.2
    exact ⟨hend, ⟨hothers.1, hw, xs, hheld⟩, hrest⟩

/-- A task that lets go in the end of what it has held all the time. -/
theorem Watches.release {y : Holding} {x : Step α} (hx : Watches task (y :: keep) P x s)
    (hs : s.current = task) :
    WatchesOn task keep (x.bind fun a s => .done s.letGo a) s := by
  have hmore (xs : List Holding) : xs ++ y :: keep = (xs ++ [y]) ++ keep := by simp
  induction x generalizing s with
  | done s' a =>
    obtain ⟨ht, hx, -⟩ := hx
    have hcurrent : s'.current = task := ht.current_eq.trans hs
    rw [Step.bind_of_done, letGo, hcurrent]
    exact ⟨ht.trans (tells_letGoOf s' task), held_letGoOf hx, trivial⟩
  | wait s' on resume ih =>
    obtain ⟨ht, xs, hx, hpends, hholds, hresume⟩ := hx
    simp only [hmore] at hx hholds hresume
    exact ⟨ht, xs ++ [y], hx, hpends, hholds, fun s'' hs'' hx'' =>
      ih s'' (hresume s'' hs'' hx'') hs''⟩
  | stop s' why =>
    obtain ⟨ht, xs, hx⟩ := hx
    exact ⟨ht, xs ++ [y], hmore xs ▸ hx⟩

/-- A task that breaks down lets go of what it has held since. -/
theorem Watches.catchBreakDown {x : Step α} (hx : Watches task keep P x s) (hs : s.current = task) :
    WatchesOn task keep (x.catchBreakDown keep.length) s := by
  induction x generalizing s with
  | done s' a => exact ⟨hx.1, hx.2.1, trivial⟩
  | wait s' on resume ih =>
    obtain ⟨ht, xs, hx, hpends, hholds, hresume⟩ := hx
    exact ⟨ht, xs, hx, hpends, hholds, fun s'' hs'' hx'' =>
      ih s'' (hresume s'' hs'' hx'') hs''⟩
  | stop s' why =>
    obtain ⟨ht, xs, hx⟩ := hx
    cases why with
    | outOfFuel => exact ⟨ht, xs, hx⟩
    | breakDown message =>
      rw [Step.catchBreakDown, show s'.current = task from ht.current_eq.trans hs]
      exact ⟨ht.trans (tells_unwind s' task _), held_unwind hx, trivial⟩

end

/-- **A computation that watches**, if these channels are held when it begins. -/
structure Watchful (ids : List ChanId) (m : EngineState → Step α) : Prop where
  watches : ∀ s keep, s.held.get? s.current = some keep → (∀ id ∈ ids, HoldsChan keep id) →
    WatchesOn s.current keep (m s) s

section
variable {s : EngineState} {keep : List Holding} {ids : List ChanId}

/-- Evaluation goes on after something that watches in this very state. -/
theorem Watches.andThen {m : Eval α} {k : α → Eval β} (hm : WatchesOn s.current keep (m s) s)
    (hids : ∀ id ∈ ids, HoldsChan keep id) (hk : ∀ a, Watchful ids (k a)) :
    WatchesOn s.current keep ((m >>= k) s) s := by
  rw [Eval.bind_apply]
  refine hm.bind rfl fun r s' hs' hx' _ => ?_
  cases r with
  | ok a =>
    rw [← hs'] at hx' ⊢
    exact (hk a).watches s' keep hx' hids
  | error e => exact ⟨.refl _ s', hx', trivial⟩

/-- Something is held meanwhile. -/
theorem watches_holding {y : Holding} {m : Eval α}
    (hm : WatchesOn s.current (y :: keep) (m (s.hold y)) (s.hold y)) :
    WatchesOn s.current keep (Eval.holding y m s) s := by
  rw [Eval.holding_apply]
  exact .after (tells_hold s y) (hm.release rfl)

end

namespace Watchful
variable {ids : List ChanId}

/-- A computation that is done at once, and leaves everybody's holdings alone. -/
theorem of_done {m : EngineState → Step α} (next : EngineState → EngineState)
    (result : EngineState → α) (hm : ∀ s, m s = .done (next s) (result s))
    (ht : ∀ s, Tells none s (next s)) : Watchful ids m := by
  refine ⟨fun s keep hx _ => ?_⟩
  rw [hm]
  exact ⟨(ht s).by_task hx, (ht s).own hx, trivial⟩

theorem pure (a : α) : Watchful ids (Pure.pure a : Eval α) :=
  of_done id _ (fun _ => rfl) (.refl none)

theorem throw (e : EvalError) : Watchful ids (MonadExcept.throw e : Eval α) :=
  of_done id _ (fun _ => rfl) (.refl none)

theorem stop (why : Halt) : Watchful ids (ExceptT.lift (Task.stop why) : Eval α) :=
  ⟨fun s _ hx _ => ⟨.refl _ s, [], hx⟩⟩

theorem bind {m : Eval α} {k : α → Eval β} (hm : Watchful ids m) (hk : ∀ a, Watchful ids (k a)) :
    Watchful ids (m >>= k) :=
  ⟨fun s keep hx hids => (hm.watches s keep hx hids).andThen hids hk⟩

theorem holding (y : Holding) {m : Eval α} (more : List ChanId) (hm : Watchful more m)
    (hmore : ∀ id ∈ more, id ∈ ids ∨ Object.chan id ∈ y.objects) :
    Watchful ids (Eval.holding y m) := by
  refine ⟨fun s keep hx hids => watches_holding ?_⟩
  refine hm.watches (s.hold y) (y :: keep) (held_hold hx y) fun id hid => ?_
  rcases hmore id hid with hid | hid
  · exact List.mem_append_right _ (hids id hid)
  · exact List.mem_append_left _ hid

theorem located (p : Position) {m : Eval α} (hm : Watchful ids m) :
    Watchful ids (Eval.located p m) := by
  refine ⟨fun s keep hx hids => ?_⟩
  rw [Eval.located_apply]
  exact (hm.watches s keep hx hids).bind rfl fun r s' _ hx' _ => ⟨.refl _ s', hx', trivial⟩

theorem attempt {m : Eval α} (hm : Watchful ids m) : Watchful ids (Eval.attempt m) := by
  refine ⟨fun s keep hx hids => ?_⟩
  rw [Eval.attempt_apply]
  exact (hm.watches s keep hx hids).bind rfl fun r s' _ hx' _ => ⟨.refl _ s', hx', trivial⟩

theorem read (f : EngineState → α) : Watchful ids (Eval.read f) :=
  of_done id _ (fun s => Eval.read_apply f s) (.refl none)

theorem modify {f : EngineState → EngineState} (hf : ∀ s, Tells none s (f s)) :
    Watchful ids (Eval.modify f) :=
  of_done f _ (fun s => Eval.modify_apply f s) hf

theorem update {f : EngineState → α × EngineState} (hf : ∀ s, Tells none s (f s).2) :
    Watchful ids (Eval.update f) :=
  of_done (fun s => (f s).2) _ (fun s => Eval.update_apply f s) hf

theorem alloc {f : Heap → α × Heap} (hf : ∀ h : Heap, h.Spares (f h).2) : Watchful ids (Eval.alloc f) :=
  of_done _ _ (fun s => Eval.alloc_apply f s) fun s => tells_heap (hf s.heap)

theorem ofFailure (e : Failure) : Watchful ids (Eval.ofFailure e : Eval α) := by
  cases e with
  | fault f => exact throw _
  | overflow => exact stop _

theorem ofOutcome (o : Outcome α) : Watchful ids (Eval.ofOutcome o) := by
  cases o with
  | ok a => exact .pure a
  | error e => exact .ofFailure e

theorem onHeap {f : Heap → Outcome (α × Heap)}
    (hf : ∀ {h : Heap} {a : α} {h' : Heap}, f h = .ok (a, h') → h.Spares h') :
    Watchful ids (Eval.onHeap f) := by
  refine ⟨fun s keep hx hids => ?_⟩
  cases hr : f s.heap with
  | ok r =>
    obtain ⟨a, h'⟩ := r
    rw [Eval.onHeap_ok hr]
    exact ⟨tells_heap (hf hr), hx, trivial⟩
  | error e =>
    rw [Eval.onHeap_error hr]
    exact (ofFailure e).watches s keep hx hids

theorem changeHeap {f : Heap → Outcome Heap} (hf : ∀ {h h' : Heap}, f h = .ok h' → h.Spares h') :
    Watchful ids (Eval.changeHeap f) := by
  refine ⟨fun s keep hx hids => ?_⟩
  cases hr : f s.heap with
  | ok h' =>
    rw [Eval.changeHeap_ok hr]
    exact ⟨tells_heap (hf hr), hx, trivial⟩
  | error e =>
    rw [Eval.changeHeap_error hr]
    exact (ofFailure e).watches s keep hx hids

theorem bindName (name : String) {f : Heap → Outcome Heap}
    (hf : ∀ {h h' : Heap}, f h = .ok h' → h.Spares h') : Watchful ids (Eval.bindName name f) := by
  refine ⟨fun s keep hx hids => ?_⟩
  cases hr : f s.heap with
  | ok h' =>
    rw [Eval.bindName_ok hr]
    exact ⟨tells_heap (hf hr), hx, trivial⟩
  | error e =>
    have hcomplain : Watchful ids (do Eval.modify (·.complain (.name name)); Eval.ofFailure e : Eval Unit) :=
      bind (modify fun _ => tells_elsewhere rfl rfl rfl (.refl _)) fun _ => ofFailure e
    rw [Eval.bindName_error hr]
    exact hcomplain.watches s keep hx hids

theorem store {f : Heap → Outcome (Write × Heap)}
    (hf : ∀ {h : Heap} {w : Write} {h' : Heap}, f h = .ok (w, h') → h.Spares h') :
    Watchful ids (Eval.store f) :=
  bind (onHeap hf) fun w => modify fun _ => tells_heap (Heap.spares_perform _ w)

end Watchful

/-! ## Waiting -/

/-- A task may wait for what it has found to be missing. -/
theorem watches_await {on : Wait} {s : EngineState} {keep : List Holding}
    (hx : s.held.get? s.current = some keep) (hpends : on.Pends s.heap)
    (hholds : ∀ id ∈ on.channels, HoldsChan keep id) :
    WatchesOn s.current keep (Eval.await on s) s := by
  rw [Eval.await_apply]
  split
  · exact ⟨.refl _ s, hx, trivial⟩
  · refine ⟨.refl _ s, [], hx, hpends, hholds, fun s' _ hx' => ?_⟩
    rw [Eval.checkWait_apply]
    split <;> exact ⟨.refl _ s', hx', trivial⟩

theorem Watchful.await {on : Wait} (hon : on.channels = []) : Watchful [] (Eval.await on) := by
  refine ⟨fun s keep hx _ => watches_await hx (Wait.pends_of_channels hon _) ?_⟩
  rw [hon]
  exact nofun

theorem Watchful.sleep (ms : Nat) :
    Watchful [] (ExceptT.lift (Task.sleep ms) : Eval Unit) := by
  refine ⟨fun s keep hx _ => ?_⟩
  show WatchesOn s.current keep
    (Step.bind (fun a s => .done s (Except.ok a)) (Task.sleepUntil (s.now + ms) s)) s
  unfold Task.sleepUntil
  split
  · exact ⟨.refl _ s, hx, trivial⟩
  · refine ⟨.refl _ s, [], hx, Wait.pends_of_channels rfl _, nofun, fun s' _ hx' => ?_⟩
    exact ⟨.refl _ s', hx', trivial⟩

/-! ## Operations on channels -/

section
variable {id : ChanId} {s : EngineState} {keep : List Holding}

theorem watches_ofFailure (hx : s.held.get? s.current = some keep) (e : Failure)
    {Q : Except EvalError α → EngineState → Prop} (hq : ∀ e, Q (.error e) s) :
    Watches s.current keep Q (Eval.ofFailure e s) s := by
  cases e with
  | fault f => exact ⟨.refl _ s, hx, hq _⟩
  | overflow => exact ⟨.refl _ s, [], hx⟩

/-- A channel changes, and the others are told. -/
theorem tells_notified {h : Heap} (hx : s.held.get? s.current = some keep)
    (hother : ∀ other, other ≠ id → h.chans.get? other = s.heap.chans.get? other) :
    Tells (some s.current) s ({ s with heap := h }.notify (.channel id)) :=
  have htells : Tells none s ({ s with heap := h }.notify (.channel id)) := tells_channel hother
  htells.by_task hx

/-- An offer that is not accepted has found no room. -/
theorem watches_offer (hx : s.held.get? s.current = some keep) (v : Value) :
    Watches s.current keep (fun r s' => r = .ok none → (Wait.room id 0).Pends s'.heap)
      (Eval.offer id v s) s := by
  rw [Eval.offer_apply]
  split
  · rename_i ticket h' ho
    refine ⟨tells_notified hx fun other hne => ?_, hx, nofun⟩
    obtain ⟨-, -, -, -, rfl⟩ | ⟨-, hr, -⟩ := Heap.offer_cases ho
    · exact Store.get?_modify_of_ne hne
    · cases hr
  · rename_i h' ho
    cases Heap.offer_eq_none ho
    obtain ⟨c, hc, hn⟩ := Heap.unmet_of_offer ho
    exact ⟨.refl _ s, hx, fun _ => Wait.pends_singleton rfl hc hn⟩
  · exact watches_ofFailure hx _ nofun

/-- A receive that is not answered has found nothing, and has changed nothing. -/
theorem watches_tryRecv (hx : s.held.get? s.current = some keep) :
    Watches s.current keep (fun r s' => r = .ok none →
        s'.heap.chans = s.heap.chans ∧ ∃ c, s.heap.chans.get? id = some c ∧ Need.value.IsUnmet c)
      (Eval.tryRecv id s) s := by
  rw [Eval.tryRecv_apply]
  split
  · rename_i v h' hr
    exact ⟨tells_notified hx fun other hne => Heap.get?_of_tryRecv hr hne, hx, nofun⟩
  · rename_i r h' hnew hr
    have hspares : s.heap.Spares h' := by
      refine Heap.spares_tryRecv hr fun v hv => ?_
      subst hv
      exact hnew v rfl
    refine ⟨tells_heap hspares, hx, fun hnone => ?_⟩
    cases hnone
    cases Heap.tryRecv_eq_none hr
    exact ⟨rfl, Heap.unmet_of_tryRecv hr⟩
  · exact watches_ofFailure hx _ nofun

/-- A send that does not wait and is not accepted has found no taker, and has changed no channel. -/
theorem watches_trySend (hx : s.held.get? s.current = some keep) (v : Value) :
    Watches s.current keep (fun r s' => r = .ok false →
        s'.heap.chans = s.heap.chans ∧ ∃ c, s.heap.chans.get? id = some c ∧ Need.taker.IsUnmet c)
      (Eval.trySend id v s) s := by
  rw [Eval.trySend_apply]
  split
  · rename_i h' hs
    refine ⟨tells_notified hx fun other hne => Heap.get?_of_trySend hs hne, hx, fun hunsent => ?_⟩
    cases hunsent
  · rename_i h' hs
    have hchans := Heap.trySend_eq_false hs
    have hspares : s.heap.Spares h' := by
      rw [Heap.Spares, hchans]
      exact .refl _
    exact ⟨tells_heap hspares, hx, fun _ => ⟨hchans, Heap.unmet_of_trySend hs⟩⟩
  · exact watches_ofFailure hx _ fun _ hunsent => by cases hunsent

theorem watches_close (hx : s.held.get? s.current = some keep) :
    WatchesOn s.current keep (Eval.close id s) s := by
  rw [Eval.close_apply]
  split
  · rename_i h' hc
    refine ⟨tells_notified hx fun other hne => ?_, hx, trivial⟩
    unfold Heap.closeChan at hc
    split at hc
    · cases hc
    · cases hc
      exact Store.get?_modify_of_ne hne
  · exact watches_ofFailure hx _ fun _ => trivial

end

namespace Watchful
variable {ids : List ChanId} {id : ChanId}

theorem trySend (id : ChanId) (v : Value) : Watchful ids (Eval.trySend id v) :=
  ⟨fun _ _ hx _ => (watches_trySend hx v).mono fun _ _ _ => trivial⟩

theorem tryRecv (id : ChanId) : Watchful ids (Eval.tryRecv id) :=
  ⟨fun _ _ hx _ => (watches_tryRecv hx).mono fun _ _ _ => trivial⟩

theorem close (id : ChanId) : Watchful ids (Eval.close id) := ⟨fun _ _ hx _ => watches_close hx⟩

/-- Waiting for room. -/
theorem leave (v : Value) (signal : SignalId) (rounds : Nat) :
    Watchful [id] (Eval.leave id v signal rounds) := by
  induction rounds with
  | zero => exact stop _
  | succ rounds ih =>
    refine ⟨fun s keep hx hids => ?_⟩
    rw [Eval.leave, Eval.bind_apply]
    refine (watches_offer hx v).bind rfl fun r s' hs' hx' hpends => ?_
    match r with
    | .error e => exact ⟨.refl _ s', hx', trivial⟩
    | .ok (some ticket) => exact ⟨.refl _ s', hx', trivial⟩
    | .ok none =>
      rw [← hs'] at hx' ⊢
      -- the value is not in the channel yet, so the task itself keeps it alive
      have hwait : WatchesOn s'.current keep
          (Eval.holdingValue v (Eval.await (.room id signal)) s') s' := by
        refine watches_holding (watches_await (held_hold hx' _) (hpends rfl) fun other hother => ?_)
        exact List.mem_append_right _ (hids other hother)
      exact hwait.andThen hids fun _ => ih

/-- Waiting for the receipt. -/
theorem awaitPickup (ticket : Nat) (signal : SignalId) (rounds : Nat) :
    Watchful [id] (Eval.awaitPickup id ticket signal rounds) := by
  induction rounds with
  | zero => exact stop _
  | succ rounds ih =>
    refine ⟨fun s keep hx hids => ?_⟩
    rw [Eval.awaitPickup, Eval.bind_apply, Eval.readHeap_apply, Step.bind_of_done, Eval.andThen_ok]
    cases hs : (s.heap.chan id).isSettled ticket with
    | true => exact ⟨.refl _ s, hx, trivial⟩
    | false =>
      obtain ⟨c, hc, hn⟩ := Heap.unmet_of_isSettled hs
      have hpends : (Wait.pickup id ticket signal).Pends s.heap := Wait.pends_singleton rfl hc hn
      exact (watches_await hx hpends hids).andThen hids fun _ => ih

theorem send (rounds : Nat) (id : ChanId) (v : Value) (signal : SignalId) :
    Watchful [] (Eval.send rounds id v signal) := by
  refine holding _ [id] ?_ fun other hother => .inr ?_
  · refine bind (onHeap fun hv => (Heap.grows_convertTo hv).spares) fun w => ?_
    refine bind (leave w signal rounds) fun ticket => bind (read _) fun unbuffered => ?_
    cases unbuffered with
    | true => exact awaitPickup ticket signal rounds
    | false => exact .pure ()
  · cases List.mem_singleton.mp hother
    exact List.mem_singleton_self _

/-- Waiting for a value. -/
theorem awaitValue (signal : SignalId) (rounds : Nat) :
    Watchful [id] (Eval.awaitValue id signal rounds) := by
  induction rounds with
  | zero => exact stop _
  | succ rounds ih =>
    refine ⟨fun s keep hx hids => ?_⟩
    rw [Eval.awaitValue, Eval.bind_apply]
    refine (watches_tryRecv hx).bind rfl fun r s' hs' hx' hnothing => ?_
    match r with
    | .error e => exact ⟨.refl _ s', hx', trivial⟩
    | .ok (some received) => exact ⟨.refl _ s', hx', trivial⟩
    | .ok none =>
      rw [← hs'] at hx' ⊢
      obtain ⟨hchans, c, hc, hn⟩ := hnothing rfl
      have hpends : (Wait.recv id signal).Pends s'.heap :=
        Wait.pends_singleton rfl (hchans ▸ hc) hn
      exact (watches_await hx' hpends hids).andThen hids fun _ => ih

theorem recv (rounds : Nat) (id : ChanId) (signal : SignalId) :
    Watchful [] (Eval.recv rounds id signal) := by
  refine holding _ [id] ?_ fun other hother => .inr ?_
  · refine bind (tryRecv id) fun received => ?_
    cases received with
    | some received => exact .pure _
    | none =>
      refine bind (modify fun s => tells_register s id) fun _ => ?_
      exact holding _ [id] (awaitValue signal rounds) fun _ hother => .inl hother
  · cases List.mem_singleton.mp hother
    exact List.mem_singleton_self _

end Watchful

/-- What an operation of a `select` needs. -/
def caseNeed (op : ChanId × Option Value) : ChanId × Need :=
  (op.1, if op.2.isSome then .taker else .value)

/-- If no operation of a `select` can be made, then none could have been made before. -/
theorem watches_tryCases {s : EngineState} {keep : List Holding}
    (hx : s.held.get? s.current = some keep) (ops : List (ChanId × Option Value)) (index : Nat) :
    Watches s.current keep (fun r s' => r = .ok none → s'.heap.chans = s.heap.chans ∧
        ∀ op ∈ ops, ∃ c, s.heap.chans.get? op.1 = some c ∧ (caseNeed op).2.IsUnmet c)
      (Eval.tryCases ops index s) s := by
  induction ops generalizing s index with
  | nil => exact ⟨.refl _ s, hx, fun _ => ⟨rfl, List.forall_mem_nil _⟩⟩
  | cons op rest ih =>
    -- the first operation was tried in the same channels as the others
    have hrest {s' : EngineState} (hx' : s'.held.get? s'.current = some keep)
        (hfirst : s'.heap.chans = s.heap.chans ∧
          ∃ c, s.heap.chans.get? op.1 = some c ∧ (caseNeed op).2.IsUnmet c) :
        Watches s'.current keep (fun r s' => r = .ok none → s'.heap.chans = s.heap.chans ∧
            ∀ o ∈ op :: rest, ∃ c, s.heap.chans.get? o.1 = some c ∧ (caseNeed o).2.IsUnmet c)
          (Eval.tryCases rest (index + 1) s') s' := by
      refine (ih hx' (index + 1)).mono fun r s'' hnone hr => ?_
      obtain ⟨hchans, hothers⟩ := hnone hr
      rw [hfirst.1] at hchans hothers
      exact ⟨hchans, List.forall_mem_cons.mpr ⟨hfirst.2, hothers⟩⟩
    obtain ⟨chan, outgoing⟩ := op
    cases outgoing with
    | some v =>
      rw [Eval.tryCases, Eval.bind_apply]
      refine (watches_trySend hx v).bind rfl fun r s' hs' hx' hfirst => ?_
      cases r with
      | error e => exact ⟨.refl _ s', hx', fun hnone => by cases hnone⟩
      | ok sent =>
        cases sent with
        | true => exact ⟨.refl _ s', hx', fun hnone => by cases hnone⟩
        | false =>
          rw [← hs'] at hx' ⊢
          exact hrest hx' (hfirst rfl)
    | none =>
      rw [Eval.tryCases, Eval.bind_apply]
      refine (watches_tryRecv hx).bind rfl fun r s' hs' hx' hfirst => ?_
      cases r with
      | error e => exact ⟨.refl _ s', hx', fun hnone => by cases hnone⟩
      | ok found =>
        cases found with
        | some received => exact ⟨.refl _ s', hx', fun hnone => by cases hnone⟩
        | none =>
          rw [← hs'] at hx' ⊢
          exact hrest hx' (hfirst rfl)

namespace Watchful

theorem awaitCase (ops : List (ChanId × Option Value)) (canSkip : Bool) (signal : SignalId)
    (rounds : Nat) : Watchful [] (Eval.awaitCase ops canSkip signal rounds) := by
  induction rounds with
  | zero => exact stop _
  | succ rounds ih =>
    have hcheck : Watchful [] (Eval.checkSignal signal) := by
      refine bind (read _) fun on => ?_
      cases on with
      | true => exact throw _
      | false => exact .pure ()
    refine bind hcheck fun _ => ⟨fun s keep hx hids => ?_⟩
    rw [Eval.bind_apply]
    refine (watches_tryCases hx ops 0).bind rfl fun r s' hs' hx' hnone => ?_
    match r with
    | .error e => exact ⟨.refl _ s', hx', trivial⟩
    | .ok (some chosen) => exact ⟨.refl _ s', hx', trivial⟩
    | .ok none =>
      cases canSkip with
      | true => exact ⟨.refl _ s', hx', trivial⟩
      | false =>
        rw [← hs'] at hx' ⊢
        -- All cases were tried in the same channels, so what they need is missing from all of them now.
        obtain ⟨hchans, hcases⟩ := hnone rfl
        have hpends : (Wait.cases ops signal).Pends s'.heap := by
          intro p hp
          obtain ⟨op, hop, rfl⟩ := List.mem_map.mp hp
          rw [hchans]
          exact hcases op hop
        -- The channels outlast the wait because the cases that are waited for are held.
        let held : Holding := .values (ops.flatMap Eval.caseValues)
        have hwait : WatchesOn s'.current keep
            (Eval.holding held (Eval.await (.cases ops signal)) s') s' := by
          refine watches_holding (watches_await (held_hold hx' _) hpends fun id hid => ?_)
          obtain ⟨op, hop, rfl⟩ := List.mem_map.mp hid
          refine List.mem_append_left _ (mem_objects (v := .chan op.1) ?_ rfl)
          exact List.mem_flatMap.mpr ⟨op, hop, List.mem_cons_self⟩
        exact hwait.andThen hids fun _ => ih

end Watchful
end ScriptEngine
