import ScriptEngine.Evaluator.Select
import ScriptEngine.Proofs.Channel.Cases
import ScriptEngine.Proofs.Channel.Operations
import ScriptEngine.Proofs.Task.Paths

/-! # What a `select` waits for

A `select` passes over its cases again and again until an operation has been made.  In between it waits, so
what it does consists of stretches: from where it begins, or is resumed, to where it waits next or has
ended.  `Chooses` says what every stretch of a choice comes to, whatever others do in between as long as
they leave alone what the task holds.

All the time a choice may be registered as a receiver.  Every registration is among the things that the task
holds, so how many it has can be read off the state (`EngineState.enrolled`), and that registrations come
and go with what is held is part of what `EngineState.Alters` says of a stretch: besides them, only the
operation that is made changes a channel.
-/
namespace ScriptEngine

/-! ## Registrations -/

/-- This is a registration as a receiver of the channel. -/
def Holding.enrols (chan : ChanId) : Holding → Bool
  | .receiver other => other = chan
  | _ => false

theorem Holding.countP_receiver (chan other : ChanId) (xs : List Holding) :
    (Holding.receiver chan :: xs).countP (·.enrols other) =
      xs.countP (·.enrols other) + if other = chan then 1 else 0 := by
  rw [List.countP_cons]
  congr 1
  exact if_congr (decide_eq_true_iff.trans eq_comm) rfl rfl

/-- Values that are held are no registrations. -/
theorem Holding.countP_values (vs : List Value) (chan : ChanId) (xs : List Holding) :
    (Holding.values vs :: xs).countP (·.enrols chan) = xs.countP (·.enrols chan) :=
  List.countP_cons_of_neg (by exact Bool.false_ne_true)

namespace EngineState
variable {s t : EngineState} {chan : ChanId} {xs : List Holding} {f : ChanId → Channel → Channel}

/-- How often the running task is registered as a receiver of the channel. -/
def enrolled (s : EngineState) (chan : ChanId) : Nat :=
  ((s.held.get? s.current).getD []).countP (·.enrols chan)

theorem enrolled_of_holds (hx : s.Holds (some xs)) (chan : ChanId) :
    s.enrolled chan = xs.countP (·.enrols chan) := by
  rw [enrolled, show s.held.get? s.current = some xs from hx]
  rfl

theorem enrolled_eq (hheld : t.held = s.held) (hcurrent : t.current = s.current) (chan : ChanId) :
    t.enrolled chan = s.enrolled chan := by
  rw [enrolled, hheld, hcurrent, enrolled]

theorem Holds.enrolled_hold (hx : s.Holds (some xs)) (vs : List Value) (chan : ChanId) :
    (s.hold (.values vs)).enrolled chan = s.enrolled chan := by
  rw [enrolled_of_holds (hx.hold _), enrolled_of_holds hx, Holding.countP_values]

/-- A task that holds the same is registered the same. -/
theorem enrolled_congr (hx : s.Holds (some xs)) (ht : t.Holds (some xs)) (chan : ChanId) :
    t.enrolled chan = s.enrolled chan := by
  rw [enrolled_of_holds ht, enrolled_of_holds hx]

end EngineState

/-- The channel if there are so many registrations instead of so many. -/
def Channel.recount (c : Channel) (before after : Nat) : Channel :=
  { c with waiting := c.waiting + after - before }

theorem Channel.recount_register (c : Channel) (before after : Nat) :
    c.register.recount (before + 1) after = c.recount before after := by
  unfold recount register
  rw [Nat.add_right_comm, Nat.add_sub_add_right]

theorem Channel.withdraw_recount (c : Channel) (before after : Nat) :
    (c.recount before (after + 1)).withdraw = c.recount before after := by
  unfold recount withdraw
  rw [Nat.sub_right_comm, ← Nat.add_assoc, Nat.add_sub_cancel]

/-- Registrations make no difference to what becomes of a channel, and are kept. -/
def KeepsWaiting (f : ChanId → Channel → Channel) : Prop :=
  ∀ chan c n, f chan { c with waiting := n } = { f chan c with waiting := n }

theorem KeepsWaiting.recount {f : ChanId → Channel → Channel} (hf : KeepsWaiting f) (chan : ChanId)
    (c : Channel) (before after : Nat) :
    (f chan c).recount before after = f chan (c.recount before after) := by
  have hwaiting : (f chan c).waiting = c.waiting := by
    rw [show f chan c = { f chan c with waiting := c.waiting } from hf chan c c.waiting]
  rw [Channel.recount, hwaiting]
  exact (hf chan c _).symm

theorem Heap.Makes.keepsWaiting {h : Heap} {op : ChanId × Option Value} {received : Option (Value × Bool)}
    {f : ChanId → Channel → Channel} (hm : h.Makes op received f) : KeepsWaiting f := by
  intro chan c n
  cases hm with
  | send | take =>
    unfold onlyAt
    split <;> rfl
  | drained => rfl

namespace EngineState
variable {s t : EngineState} {chan : ChanId} {xs : List Holding} {f : ChanId → Channel → Channel}

/-- **Every channel becomes what `f` makes of it**, but for the registrations that the running task has
made or withdrawn. -/
def Alters (s : EngineState) (f : ChanId → Channel → Channel) (t : EngineState) : Prop :=
  ∀ chan, t.heap.chans.get? chan =
    (s.heap.chans.get? chan).map fun c => (f chan c).recount (s.enrolled chan) (t.enrolled chan)

/-- A stretch on which the task was not registered anew. -/
theorem alters_iff (hsame : ∀ chan, t.enrolled chan = s.enrolled chan) :
    s.Alters f t ↔ s.heap.ChansBecome f t.heap := by
  have hmap (chan : ChanId) :
      (fun c => (f chan c).recount (s.enrolled chan) (t.enrolled chan)) = f chan := by
    funext c
    rw [hsame, Channel.recount, Nat.add_sub_cancel]
  refine forall_congr' fun chan => ?_
  rw [hmap]

/-- The state in which a receiver of the channel begins to wait. -/
def enlist (s : EngineState) (chan : ChanId) : EngineState :=
  (s.register chan).hold (.receiver chan)

theorem holds_enlist (hx : s.Holds (some xs)) (chan : ChanId) :
    (s.enlist chan).Holds (some (.receiver chan :: xs)) :=
  Holds.hold (s := s.register chan) hx _

theorem chans_enlist (s : EngineState) (chan other : ChanId) :
    (s.enlist chan).heap.chans.get? other =
      if other = chan then (s.heap.chans.get? chan).map Channel.register
      else s.heap.chans.get? other :=
  Store.get?_modify_eq _ _ _ _

/-- A task that has registered first. -/
theorem Alters.of_enlist (hx : s.Holds (some xs)) (hf : KeepsWaiting f)
    (ht : (s.enlist chan).Alters f t) : s.Alters f t := by
  intro other
  rw [ht other, chans_enlist, enrolled_of_holds (holds_enlist hx chan), enrolled_of_holds hx,
    Holding.countP_receiver]
  split
  · subst other
    rw [Option.map_map]
    congr 1
    funext c
    rw [Function.comp_apply, hf.recount, hf.recount, Channel.recount_register]
  · rfl

/-- A task that withdraws a registration in the end. -/
theorem Alters.letGo (hx : t.Holds (some (.receiver chan :: xs)))
    (ht : s.Alters f t) : s.Alters f t.letGo := by
  obtain ⟨hrest, hheap⟩ := letGo_receiver hx
  intro other
  rw [hheap]
  show (t.heap.chans.modify chan Channel.withdraw).get? other = _
  rw [Store.get?_modify_eq, enrolled_of_holds hrest]
  have hother := ht other
  rw [enrolled_of_holds hx, Holding.countP_receiver] at hother
  split
  · subst other
    rw [hother, if_pos rfl, Option.map_map]
    congr 1
    exact funext fun c => Channel.withdraw_recount _ _ _
  · rw [hother, if_neg ‹_›]
    rfl

end EngineState

/-! ## Choices -/

variable {ops : List (ChanId × Option Value)} {canSkip : Bool} {signal : SignalId}
  {s s' t : EngineState} {xs : List Holding} {path : List EngineState}
  {r : Except EvalError (Option (Nat × Option (Value × Bool)))}

/-- Nothing could be done: every operation had to wait, and no channel was changed. -/
structure Idles (ops : List (ChanId × Option Value)) (s t : EngineState) : Prop where
  declines : ∀ op ∈ ops, s.heap.Declines op
  alters : s.Alters (fun _ c => c) t

/-- **The stretch on which a choice ends**, and with what.  If its signal is on the choice is over at once; if
not, then what the operations come to in the state in which the stretch begins leaves one end only. -/
inductive Concludes (ops : List (ChanId × Option Value)) (canSkip : Bool) (signal : SignalId)
    (s t : EngineState) : Except EvalError (Option (Nat × Option (Value × Bool))) → Prop where
  /-- The first operation that need not wait has been made, and changed its channel. -/
  | made {i : Nat} {op : ChanId × Option Value} {received : Option (Value × Bool)}
      {f : ChanId → Channel → Channel} (hgoing : s.isCancelled signal = false)
      (hfirst : ∀ j < i, ∀ o, ops[j]? = some o → s.heap.Declines o) (hop : ops[i]? = some op)
      (hmakes : s.heap.Makes op received f) (halters : s.Alters f t) :
      Concludes ops canSkip signal s t (.ok (some (i, received)))
  /-- The first operation that need not wait is a send that fails. -/
  | refused {i : Nat} {op : ChanId × Option Value} {f : Fault} (hgoing : s.isCancelled signal = false)
      (hfirst : ∀ j < i, ∀ o, ops[j]? = some o → s.heap.Declines o) (hop : ops[i]? = some op)
      (hrejects : s.heap.Rejects op f) (halters : s.Alters (fun _ c => c) t) :
      Concludes ops canSkip signal s t (.error { fault := f })
  /-- All of them have to wait, and there is something else to do. -/
  | skipped (hgoing : s.isCancelled signal = false) (hskip : canSkip = true) (hidles : Idles ops s t) :
      Concludes ops canSkip signal s t (.ok none)
  | cancelled (hcancelled : s.isCancelled signal = true) (halters : s.Alters (fun _ c => c) t) :
      Concludes ops canSkip signal s t (.error { fault := .interrupt })

/-- **The task makes a choice**, from the state `s` on: it waits only if the signal is off, every operation has
to wait and there is nothing else to do, and it ends by doing what can be done first.  In the end it holds `xs`.
The task stops only for want of fuel, or over a value that is too large to be held. -/
def Chooses (ops : List (ChanId × Option Value)) (canSkip : Bool) (signal : SignalId)
    (xs : List Holding) :
    Step (Except EvalError (Option (Nat × Option (Value × Bool)))) → EngineState → Prop
  | .done t r, s => Concludes ops canSkip signal s t r ∧ t.Holds (some xs)
  | .wait w _ resume, s => (canSkip = false ∧ s.isCancelled signal = false ∧ Idles ops s w) ∧
    ∀ u, w.Undisturbed u → Chooses ops canSkip signal xs (resume u) u
  | .stop _ why, _ => why = .outOfFuel ∨ why = .breakDown (some Failure.overflowMessage)

/-- A stretch that begins in the one state might as well begin in the other. -/
structure BeginsAs (ops : List (ChanId × Option Value)) (s s' : EngineState) : Prop where
  cancelled : ∀ signal, s'.isCancelled signal = s.isCancelled signal
  declines : ∀ op ∈ ops, s'.heap.Declines op → s.heap.Declines op
  makes : ∀ op ∈ ops, ∀ received f, s'.heap.Makes op received f → s.heap.Makes op received f
  rejects : ∀ op ∈ ops, ∀ f, s'.heap.Rejects op f → s.heap.Rejects op f
  alters : ∀ f t, KeepsWaiting f → s'.Alters f t → s.Alters f t

namespace BeginsAs

/-- Holding something or not. -/
theorem of_heap (hheap : s'.heap = s.heap) (hsame : ∀ chan, s'.enrolled chan = s.enrolled chan)
    (hcancelled : ∀ signal, s'.isCancelled signal = s.isCancelled signal) : BeginsAs ops s s' where
  cancelled := hcancelled
  declines _ _ h := by rw [← hheap]; exact h
  makes _ _ _ _ h := by rw [← hheap]; exact h
  rejects _ _ _ h := by rw [← hheap]; exact h
  alters f t _ h := by
    intro chan
    rw [h chan, hheap, hsame]

/-- Being registered makes no difference to the operations, unless one of them is to send on that
channel. -/
theorem enlist {chan : ChanId} (hx : s.Holds (some xs)) (hfree : ∀ v, (chan, some v) ∉ ops) :
    BeginsAs ops s (s.enlist chan) := by
  have hother {other : ChanId} (hne : other ≠ chan) :
      (s.enlist chan).heap.chan other = s.heap.chan other := by
    rw [Heap.chan, EngineState.chans_enlist, if_neg hne, Heap.chan]
  have hparts (other : ChanId) :
      ∃ n, (s.enlist chan).heap.chan other = { s.heap.chan other with waiting := n } := by
    by_cases hne : other = chan
    · subst hne
      rw [Heap.chan, EngineState.chans_enlist, if_pos rfl, Heap.chan]
      cases s.heap.chans.get? other with
      | none => exact ⟨_, rfl⟩
      | some c => exact ⟨_, rfl⟩
    · exact ⟨_, hother hne⟩
  have hsend {other : ChanId} {v : Value} (hop : (other, some v) ∈ ops) :
      (s.enlist chan).heap.chan other = s.heap.chan other :=
    hother fun he => hfree v (he ▸ hop)
  refine ⟨fun _ => rfl, ?_, ?_, ?_, fun f t hf h => h.of_enlist hx hf⟩
  · rintro ⟨other, _ | v⟩ hop ⟨hready, hfits⟩
    · refine ⟨fun h => hready ?_, fun v hv => by cases hv⟩
      obtain ⟨n, hn⟩ := hparts other
      rw [Heap.Ready, hn]
      exact h
    · rw [Heap.Ready, hsend hop] at hready
      rw [hsend hop] at hfits
      exact ⟨hready, hfits⟩
  · intro op hop received f h
    cases h with
    | send hready hgrows hw =>
      rw [Heap.Ready, hsend hop] at hready
      rw [hsend hop] at hw
      exact .send hready hgrows hw
    | @take other _ _ hbuffer =>
      obtain ⟨n, hn⟩ := hparts other
      rw [hn] at hbuffer
      exact .take hbuffer
    | @drained other _ _ _ hbuffer hclosed hgrows hz =>
      obtain ⟨n, hn⟩ := hparts other
      rw [hn] at hbuffer hclosed hz
      exact .drained hbuffer hclosed hgrows hz
  · intro op hop f h
    cases h with
    | unfit hgrows hv => exact .unfit hgrows (hsend hop ▸ hv)
    | closed hgrows hw hclosed => exact .closed hgrows (hsend hop ▸ hw) (hsend hop ▸ hclosed)

end BeginsAs

theorem keepsWaiting_id : KeepsWaiting fun _ c => c := fun _ _ _ => rfl

theorem Idles.start (hs : BeginsAs ops s s') (h : Idles ops s' t) : Idles ops s t where
  declines op hop := hs.declines op hop (h.declines op hop)
  alters := hs.alters _ _ keepsWaiting_id h.alters

theorem BeginsAs.first (hs : BeginsAs ops s s') {i : Nat}
    (hfirst : ∀ j < i, ∀ o, ops[j]? = some o → s'.heap.Declines o) :
    ∀ j < i, ∀ o, ops[j]? = some o → s.heap.Declines o :=
  fun j hj o ho => hs.declines o (List.mem_of_getElem? ho) (hfirst j hj o ho)

theorem Concludes.start (hs : BeginsAs ops s s') (h : Concludes ops canSkip signal s' t r) :
    Concludes ops canSkip signal s t r := by
  cases h with
  | made hgoing hfirst hop hmakes halters =>
    exact .made (hs.cancelled signal ▸ hgoing) (hs.first hfirst) hop
      (hs.makes _ (List.mem_of_getElem? hop) _ _ hmakes) (hs.alters _ _ hmakes.keepsWaiting halters)
  | refused hgoing hfirst hop hrejects halters =>
    exact .refused (hs.cancelled signal ▸ hgoing) (hs.first hfirst) hop
      (hs.rejects _ (List.mem_of_getElem? hop) _ hrejects) (hs.alters _ _ keepsWaiting_id halters)
  | skipped hgoing hskip hidles => exact .skipped (hs.cancelled signal ▸ hgoing) hskip (hidles.start hs)
  | cancelled hcancelled halters =>
    exact .cancelled (hs.cancelled signal ▸ hcancelled) (hs.alters _ _ keepsWaiting_id halters)

/-- A registration is withdrawn in the end. -/
theorem Concludes.letGo {chan : ChanId} (hx : t.Holds (some (.receiver chan :: xs)))
    (h : Concludes ops canSkip signal s t r) : Concludes ops canSkip signal s t.letGo r := by
  cases h with
  | made hgoing hfirst hop hmakes halters => exact .made hgoing hfirst hop hmakes (halters.letGo hx)
  | refused hgoing hfirst hop hrejects halters =>
    exact .refused hgoing hfirst hop hrejects (halters.letGo hx)
  | skipped hgoing hskip hidles =>
    exact .skipped hgoing hskip ⟨hidles.declines, hidles.alters.letGo hx⟩
  | cancelled hcancelled halters => exact .cancelled hcancelled (halters.letGo hx)

namespace Chooses
variable {x : Step (Except EvalError (Option (Nat × Option (Value × Bool))))}

theorem start (hs : BeginsAs ops s s') (hx : Chooses ops canSkip signal xs x s') :
    Chooses ops canSkip signal xs x s := by
  cases x with
  | done t r => exact ⟨hx.1.start hs, hx.2⟩
  | wait w on resume =>
    obtain ⟨⟨hskip, hgoing, hidles⟩, hnext⟩ := hx
    exact ⟨⟨hskip, hs.cancelled signal ▸ hgoing, hidles.start hs⟩, hnext⟩
  | stop t why => exact hx

/-- In the end a registration is withdrawn. -/
theorem release {chan : ChanId} (hx : Chooses ops canSkip signal (.receiver chan :: xs) x s) :
    Chooses ops canSkip signal xs (x.bind fun r s => .done s.letGo r) s := by
  induction x generalizing s with
  | done t r => exact ⟨hx.1.letGo hx.2, (EngineState.letGo_receiver hx.2).1⟩
  | wait w on resume ih => exact ⟨hx.1, fun u hu => ih u (hx.2 u hu)⟩
  | stop t why => exact hx

/-- Where a choice ends. -/
theorem along (hx : Chooses ops canSkip signal xs x s) (hends : x.EndsAlong path r t)
    (hothers : x.Amid EngineState.Undisturbed path) :
    (canSkip = true → path = []) ∧ Concludes ops canSkip signal (path.getLastD s) t r ∧ t.Holds (some xs) := by
  induction hends generalizing s with
  | done t r => exact ⟨fun _ => rfl, hx⟩
  | @wait w u t on resume path r _ ih =>
    obtain ⟨-, hconcludes, ht⟩ := ih (hx.2 u hothers.1) hothers.2
    refine ⟨fun hskip => Bool.noConfusion (hskip.symm.trans hx.1.1), ?_, ht⟩
    rw [List.getLastD_cons]
    exact hconcludes

end Chooses

/-- A `select` that waits is registered on no channel that it is to send on. -/
theorem not_sending {ops : List (ChanId × Option Value)} {chan : ChanId}
    (hchan : chan ∈ receiverChannels ops) (v : Value) : (chan, some v) ∉ ops := by
  intro hmem
  obtain ⟨op, hop, rfl⟩ := List.mem_map.mp hchan
  obtain ⟨-, hfree⟩ := List.mem_filter.mp hop
  have hsends : op.1 ∈ (ops.filter (·.2.isSome)).map (·.1) :=
    List.mem_map_of_mem (f := (·.1)) (List.mem_filter.mpr ⟨hmem, rfl⟩)
  simp [hsends] at hfree

namespace Eval

/-- **A choice that is registered meanwhile** on channels on none of which it is to send. -/
theorem chooses_receivingAll {chans : List ChanId} {m : Eval (Option (Nat × Option (Value × Bool)))}
    (hfree : ∀ chan ∈ chans, ∀ v, (chan, some v) ∉ ops)
    (hm : ∀ {s xs}, s.Holds (some xs) → Chooses ops canSkip signal xs (m s) s) (hx : s.Holds (some xs)) :
    Chooses ops canSkip signal xs (receivingAll chans m s) s := by
  induction chans generalizing s xs with
  | nil => exact hm hx
  | cons chan rest ih =>
    obtain ⟨hchan, hrest⟩ := List.forall_mem_cons.mp hfree
    have hinside := (ih hrest (EngineState.holds_enlist hx chan)).release
    exact hinside.start (.enlist hx hchan)

/-- What follows a pass over the operations. -/
def afterPass (ops : List (ChanId × Option Value)) (canSkip : Bool) (signal : SignalId) (rounds : Nat) :
    Option (Nat × Option (Value × Bool)) → Eval (Option (Nat × Option (Value × Bool)))
  | some chosen => Pure.pure (some chosen)
  | none =>
    if canSkip then Pure.pure none
    else do
      holding (.values (ops.flatMap caseValues)) (await (.cases ops signal))
      awaitCase ops canSkip signal rounds

theorem awaitCase_succ (signal : SignalId) (rounds : Nat) (s : EngineState) :
    awaitCase ops canSkip signal (rounds + 1) s =
      if s.isCancelled signal then .done s (.error { fault := .interrupt })
      else (tryCases ops 0 s).bind (andThen (afterPass ops canSkip signal rounds)) := by
  rw [awaitCase, bind_apply, checkSignal_apply]
  by_cases hoff : s.isCancelled signal = true
  · rw [if_pos hoff, if_pos hoff]
    rfl
  · rw [if_neg hoff, if_neg hoff, Step.bind_of_done, andThen_ok, bind_apply]
    congr 2

/-- The operations are held while the task waits, and after the wait there is another round. -/
theorem afterPass_none (rounds : Nat) (hgoing : s.isCancelled signal = false) :
    let w := s.hold (.values (ops.flatMap caseValues))
    afterPass ops false signal rounds none s =
      .wait w (.cases ops signal) fun u =>
        if u.isCancelled signal then .done u.letGo (.error { fault := .interrupt })
        else awaitCase ops false signal rounds u.letGo := by
  intro w
  have hwait : await (.cases ops signal) w =
      if s.isCancelled signal then .done w (.error { fault := .interrupt })
      else .wait w (.cases ops signal) (checkWait (.cases ops signal)) := await_apply _ w
  rw [hgoing, if_neg Bool.false_ne_true] at hwait
  rw [afterPass, if_neg Bool.false_ne_true, bind_apply, holding_apply, hwait]
  refine congrArg (Step.wait w (.cases ops signal)) (funext fun u => ?_)
  show ((checkWait (.cases ops signal) u).bind fun r s => .done s.letGo r).bind
    (andThen fun _ => awaitCase ops false signal rounds) = _
  rw [checkWait_apply]
  show ((if u.isCancelled signal = true then _ else _ : Step _).bind _).bind _ = _
  split <;> rfl

theorem letGo_values {vs : List Value} (hx : s.Holds (some (.values vs :: xs))) :
    s.letGo.Holds (some xs) ∧ s.letGo.heap = s.heap ∧
      (∀ chan, s.letGo.enrolled chan = s.enrolled chan) ∧
      ∀ signal, s.letGo.isCancelled signal = s.isCancelled signal := by
  have hrest : s.letGo.Holds (some xs) ∧ s.letGo.heap = s.heap ∧
      ∀ signal, s.letGo.isCancelled signal = s.isCancelled signal := by
    rw [EngineState.letGo_eq hx]
    exact ⟨EngineState.holds_set hx, rfl, fun _ => rfl⟩
  refine ⟨hrest.1, hrest.2.1, fun chan => ?_, hrest.2.2⟩
  rw [EngineState.enrolled_of_holds hrest.1, EngineState.enrolled_of_holds hx,
    Holding.countP_values]

/-- After a pass that has found nothing, the choice is over, or goes on after a wait. -/
theorem chooses_afterPass {rounds : Nat} {u : EngineState} (hgoing : s.isCancelled signal = false)
    (hnone : ∀ op ∈ ops, s.heap.Declines op) (hx : s.Holds (some xs)) (hu : u.Holds (some xs))
    (hchans : u.heap.chans = s.heap.chans) (hstill : u.isCancelled signal = false)
    (hnext : ∀ {s}, s.Holds (some xs) →
      Chooses ops canSkip signal xs (awaitCase ops canSkip signal rounds s) s) :
    Chooses ops canSkip signal xs (afterPass ops canSkip signal rounds none u) s := by
  have hidle {w : EngineState} (hw : w.heap.chans = s.heap.chans)
      (hsame : ∀ chan, w.enrolled chan = u.enrolled chan) : s.Alters (fun _ c => c) w := by
    refine (EngineState.alters_iff fun chan => ?_).mpr (.of_eq hw)
    rw [hsame, EngineState.enrolled_congr hx hu]
  have hhold := hu.hold (.values (ops.flatMap caseValues))
  have hwait := hu.enrolled_hold (ops.flatMap caseValues)
  cases canSkip with
  | true => exact ⟨.skipped hgoing rfl ⟨hnone, hidle hchans fun _ => rfl⟩, hu⟩
  | false =>
    rw [afterPass_none rounds hstill]
    refine ⟨⟨rfl, hgoing, hnone, hidle hchans hwait⟩, fun w hw => ?_⟩
    -- The task is resumed, and lets go of the operations before the next round.
    obtain ⟨hheld, hheap, hsame, hsignal⟩ := letGo_values (hw.holds hhold)
    beta_reduce
    split
    · refine ⟨.cancelled ‹_› ?_, hheld⟩
      exact (EngineState.alters_iff hsame).mpr (.of_eq (congrArg Heap.chans hheap))
    · exact (hnext hheld).start (.of_heap hheap hsame hsignal)

/-- Waiting for the first operation that can be made. -/
theorem chooses_awaitCase (signal : SignalId) (rounds : Nat) (hx : s.Holds (some xs)) :
    Chooses ops canSkip signal xs (awaitCase ops canSkip signal rounds s) s := by
  induction rounds generalizing s with
  | zero => exact .inl rfl
  | succ rounds ih =>
    have hidle {h : Heap} (hgrows : s.heap.Grows h) :
        s.Alters (fun _ c => c) { s with heap := h } :=
      (EngineState.alters_iff (s := s) (t := { s with heap := h }) fun _ => rfl).mpr
        (.of_eq hgrows.chans)
    rw [awaitCase_succ]
    split
    · exact ⟨.cancelled ‹_› (hidle (.refl _)), hx⟩
    · rename_i hon
      have hgoing : s.isCancelled signal = false := Bool.not_eq_true _ ▸ hon
      have hpass := pass_tryCases ops 0 s
      generalize tryCases ops 0 s = x at hpass
      cases hpass with
      | made hfirst hop hmakes hchans hheld hcurrent _ =>
        have halters := (EngineState.alters_iff (EngineState.enrolled_eq hheld hcurrent)).mpr hchans
        rw [Nat.zero_add]
        refine ⟨.made hgoing hfirst hop hmakes halters, ?_⟩
        rw [EngineState.Holds, hheld, hcurrent]
        exact hx
      | nothing hnone hgrows => exact chooses_afterPass hgoing hnone hx hx hgrows.chans hgoing ih
      | failed hfirst hop hrejects hgrows =>
        exact ⟨.refused hgoing hfirst hop hrejects (hidle hgrows), hx⟩
      | stopped hgrows => exact .inr rfl

end Eval
end ScriptEngine
