import ScriptEngine.Proofs.EngineState.Signals
import ScriptEngine.Proofs.Task.Rules

/-! # Tasks that heed signals

Nobody stops the tasks of a run that is cancelled: each of them looks at the signal of the run when it
comes to a checkpoint, and whenever it waits on account of the signal.  A task **heeds** signals
(`HeedsOn`) if it waits on account of a signal only while the signal is off, if it makes known which
signals it turns on, and if it passes no checkpoint of a run that was cancelled when the task began, and
at most one of any other run.  While it waits, others may do what they like as long as runs keep their
signals, signals that are on stay on, and nobody passes checkpoints in its name.

The one checkpoint is that at which the task waits when the run is cancelled.  Therefore a checkpoint is
looked at as a whole: its parts put nothing on record, they are **still**, and only then the
checkpoint is passed.
-/
namespace ScriptEngine

open EngineState

variable {α β : Type}

/-- **The task heeds signals** from `base` on, having begun in `start`: it waits only on account of
certain signals, and only while they are off; and what it ends with satisfies `Q`. -/
def HeedsOn (who : TaskId) (still : Prop) (signals : SignalId → Prop) (start : EngineState)
    (Q : α → Prop) : Step α → EngineState → Prop
  | .done s a, base => base.Acts who s ∧ start.Since still who s ∧ Q a
  | .stop s _, base => base.Acts who s ∧ start.Since still who s
  | .wait s on resume, base => base.Acts who s ∧ start.Since still who s ∧
    (∀ id, on.signal? = some id → signals id ∧ s.isCancelled id = false) ∧
    ∀ s', s'.current = who → s.Bides who s' → HeedsOn who still signals start Q (resume s') s'

namespace HeedsOn
variable {who : TaskId} {still still' : Prop} {signals : SignalId → Prop}
  {start base s : EngineState} {P : α → Prop} {Q : β → Prop} {x : Step α}

/-- The task began earlier. -/
theorem since (hstart : start.Since still who s) (hx : HeedsOn who still signals s P x base) :
    HeedsOn who still signals start P x base := by
  induction x generalizing base with
  | done t a => exact ⟨hx.1, hstart.trans hx.2.1, hx.2.2⟩
  | wait t on resume ih =>
    exact ⟨hx.1, hstart.trans hx.2.1, hx.2.2.1, fun s' hs' hb => ih s' (hx.2.2.2 s' hs' hb)⟩
  | stop t why => exact ⟨hx.1, hstart.trans hx.2⟩

/-- The stretch that the task is in began earlier. -/
theorem after (hbase : base.Acts who s) (hx : HeedsOn who still signals start P x s) :
    HeedsOn who still signals start P x base := by
  cases x with
  | done t a => exact ⟨hbase.trans hx.1, hx.2⟩
  | wait t on resume => exact ⟨hbase.trans hx.1, hx.2⟩
  | stop t why => exact ⟨hbase.trans hx.1, hx.2⟩

/-- **One task after the other.**  The first one may be still even if the second is not. -/
theorem bind {f : α → EngineState → Step β} (hstill : still' → still)
    (hx : HeedsOn who still signals start P x base)
    (hf : ∀ a s, s.current = who → start.Since still who s → P a →
      HeedsOn who still' signals start Q (f a s) s) :
    HeedsOn who still' signals start Q (x.bind f) base := by
  induction x generalizing base with
  | done t a => exact .after hx.1 (hf a t hx.1.current hx.2.1 hx.2.2)
  | wait t on resume ih =>
    exact ⟨hx.1, hx.2.1.weaken hstill, hx.2.2.1, fun s' hs' hb => ih s' (hx.2.2.2 s' hs' hb)⟩
  | stop t why => exact ⟨hx.1, hx.2.weaken hstill⟩

/-- Something is done at once before the task. -/
theorem preceded (hacts : s.Acts who base) (hsince : s.Since still who base)
    (hx : HeedsOn who still signals base P x base) : HeedsOn who still signals s P x s :=
  .after hacts (.since hsince hx)

/-- A task that breaks down lets go of what it holds. -/
theorem catchBreakDown (keep : Nat) (hx : HeedsOn who still signals start P x base) :
    HeedsOn who still signals start (fun _ => True) (x.catchBreakDown keep) base := by
  induction x generalizing base with
  | done t a => exact ⟨hx.1, hx.2.1, trivial⟩
  | wait t on resume ih =>
    exact ⟨hx.1, hx.2.1, hx.2.2.1, fun s' hs' hb => ih s' (hx.2.2.2 s' hs' hb)⟩
  | stop t why =>
    cases why with
    | breakDown message =>
      have hunwind := (apart_unwind t t.current keep).aloof
      exact ⟨hx.1.trans (hunwind.acts hx.1.current), hx.2.trans (hunwind.since hx.2.orderly), trivial⟩
    | outOfFuel => exact hx

/-- Something that has nothing to do with signals is done at once. -/
theorem aloof {a : α} (ho : start.Orderly who) (hwho : start.current = who) (ha : start.Aloof s)
    (hP : P a) : HeedsOn who still signals start P (.done s a) start :=
  ⟨ha.acts hwho, ha.since ho, hP⟩

end HeedsOn

theorem HeedsOn.ofFailure {who : TaskId} {still : Prop} {signals : SignalId → Prop}
    {start s : EngineState} {P : α → Prop} (ho : start.Orderly who) (hwho : start.current = who)
    (ha : start.Aloof s) (e : Failure) :
    HeedsOn who still signals start (Ends (fun _ => True) P) (Eval.ofFailure e s) start := by
  cases e with
  | fault f => exact .aloof ho hwho ha (error_in_all _)
  | overflow => exact ⟨ha.acts hwho, ha.since ho⟩

/-! ## Checkpoints -/

namespace Eval

theorem checkpoint_apply (run : RunId) (s : EngineState) :
    checkpoint run s =
      if s.isCancelled (s.run run).signal then .done s (.error { fault := .interrupt })
      else (step run s).bind (andThen fun _ => modify (·.pass run)) := by
  rw [checkpoint, bind_apply, checkRun, bind_apply, signalOf, read_apply, Step.bind_of_done,
    andThen_ok, checkSignal_apply]
  split
  · rfl
  · rw [Step.bind_of_done, andThen_ok, bind_apply]

/-- A checkpoint of a cancelled run returns at once, and nothing has changed. -/
theorem checkpoint_of_cancelled {s : EngineState} {run : RunId}
    (hrun : s.runCancelled run = true) :
    checkpoint run s = .done s (.error { fault := .interrupt }) := by
  obtain ⟨r, hr, hon⟩ := runCancelled_iff.mp hrun
  have hsignal : (s.run run).signal = r.signal := by
    rw [EngineState.run, hr]
    rfl
  rw [checkpoint_apply, hsignal, if_pos hon]

end Eval

/-! ## Computations -/

/-- **The computation heeds signals** if it is begun by an orderly task when the runs are there. -/
structure Heeds (still : Prop) (runs : RunId → Prop) (signals : SignalId → Prop) (P : α → Prop)
    (m : Eval α) : Prop where
  heeds : ∀ s, s.Orderly s.current → s.Places runs signals →
    HeedsOn s.current still signals s (Ends (fun _ => True) P) (m s) s

namespace Heeds
variable {still : Prop} {runs : RunId → Prop} {signals : SignalId → Prop} {P : α → Prop}
  {Q : β → Prop}

/-! ## Putting computations together -/

/-- What is done at once and has nothing to do with signals. -/
theorem of_aloof {m : Eval α} (hm : ∀ s, s.Places runs signals →
    ∃ s' r, m s = .done s' r ∧ s.Aloof s' ∧ Ends (fun _ => True) P r) :
    Heeds still runs signals P m := by
  refine ⟨fun s ho hp => ?_⟩
  obtain ⟨s', r, heq, ha, hr⟩ := hm s hp
  rw [heq]
  exact .aloof ho rfl ha hr

theorem pure {a : α} (ha : P a) : Heeds still runs signals P (Pure.pure a : Eval α) :=
  .of_aloof fun s _ => ⟨s, .ok a, rfl, .refl s, ha⟩

theorem throw (e : EvalError) : Heeds still runs signals P (MonadExcept.throw e : Eval α) :=
  .of_aloof fun s _ => ⟨s, .error e, rfl, .refl s, error_in_all e⟩

theorem stop (why : Halt) : Heeds still runs signals P (ExceptT.lift (Task.stop why) : Eval α) :=
  ⟨fun s ho _ => ⟨(Aloof.refl s).acts rfl, .refl ho⟩⟩

theorem ofFailure (e : Failure) : Heeds still runs signals P (Eval.ofFailure e : Eval α) :=
  ⟨fun s ho _ => .ofFailure ho rfl (.refl s) e⟩

theorem bind {m : Eval α} {k : α → Eval β} (hm : Heeds still runs signals P m)
    (hk : ∀ a, P a → Heeds still runs signals Q (k a)) : Heeds still runs signals Q (m >>= k) := by
  refine ⟨fun s ho hp => ?_⟩
  rw [Eval.bind_apply]
  refine (hm.heeds s ho hp).bind id fun r s' hs' hsince hr => .since hsince ?_
  have ho' := hsince.orderly
  rw [← hs'] at ho' ⊢
  cases r with
  | ok a => exact (hk a hr).heeds s' ho' (hp.onward hsince.toOnward)
  | error e => exact .aloof ho' rfl (.refl s') (error_in_all e)

/-- What is done with the outcome at once has nothing to do with signals. -/
theorem map {m : Eval α} {g : Except EvalError α → Except EvalError β}
    (hm : Heeds still runs signals P m)
    (hg : ∀ r, Ends (fun _ => True) P r → Ends (fun _ => True) Q (g r)) :
    Heeds still runs signals Q (fun s => (m s).bind fun r s => .done s (g r)) := by
  refine ⟨fun s ho hp => (hm.heeds s ho hp).bind id fun r s' hs' hsince hr => .since hsince ?_⟩
  exact .aloof hsince.orderly hs' (.refl s') (hg r hr)

theorem weaken {P' : α → Prop} {m : Eval α} (hm : Heeds still runs signals P m)
    (hP : ∀ a, P a → P' a) : Heeds still runs signals P' m := by
  have hsame : m = fun s => (m s).bind fun r s => .done s r := by
    funext s
    exact (Step.bind_done (m s)).symm
  rw [hsame]
  refine hm.map (g := id) fun r hr => ?_
  cases r with
  | ok a => exact hP a hr
  | error e => exact hr

theorem located (p : Position) {m : Eval α} (hm : Heeds still runs signals P m) :
    Heeds still runs signals P (Eval.located p m) :=
  hm.map fun r hr => by
    cases r with
    | ok a => exact hr
    | error e => exact error_in_all _

theorem attempt {m : Eval α} (hm : Heeds still runs signals P m) :
    Heeds still runs signals (Ends (fun _ => True) P) (Eval.attempt m) :=
  hm.map fun _ hr => hr

theorem holding (x : Holding) {m : Eval α} (hm : Heeds still runs signals P m) :
    Heeds still runs signals P (Eval.holding x m) := by
  refine ⟨fun s ho hp => ?_⟩
  have hhold := (apart_hold s x).aloof
  have hbody := hm.heeds (s.hold x) (hhold.orderly ho) (hp.onward hhold.onward)
  rw [Eval.holding_apply]
  refine .preceded (hhold.acts rfl) (hhold.since ho)
    (hbody.bind id fun r s' hs' hsince hr => .since hsince ?_)
  exact .aloof hsince.orderly hs' (apart_letGoOf s' _).aloof hr

/-! ## Looking and changing -/

theorem read {f : EngineState → α} (hP : ∀ s, s.Places runs signals → P (f s)) :
    Heeds still runs signals P (Eval.read f) :=
  .of_aloof fun s hp => ⟨s, _, rfl, .refl s, hP s hp⟩

theorem modify {f : EngineState → EngineState} (hf : ∀ s : EngineState, s.Aloof (f s)) :
    Heeds still runs signals (fun _ => True) (Eval.modify f) :=
  .of_aloof fun s _ => ⟨f s, _, rfl, hf s, trivial⟩

theorem update {f : EngineState → α × EngineState}
    (hf : ∀ s : EngineState, s.Aloof (f s).2 ∧ P (f s).1) :
    Heeds still runs signals P (Eval.update f) :=
  .of_aloof fun s _ => ⟨(f s).2, _, rfl, (hf s).1, (hf s).2⟩

theorem onHeap {f : Heap → Outcome (α × Heap)} (hP : ∀ h a h', f h = .ok (a, h') → P a) :
    Heeds still runs signals P (Eval.onHeap f) := by
  refine ⟨fun s ho _ => ?_⟩
  cases hr : f s.heap with
  | ok r =>
    obtain ⟨a, h'⟩ := r
    rw [Eval.onHeap_ok hr]
    exact .aloof ho rfl (apart_heap s h').aloof (hP _ _ _ hr)
  | error e =>
    rw [Eval.onHeap_error hr]
    exact .ofFailure ho rfl (.refl s) e

theorem alloc {f : Heap → α × Heap} (hP : ∀ h, P (f h).1) :
    Heeds still runs signals P (Eval.alloc f) :=
  .of_aloof fun s _ => ⟨_, _, Eval.alloc_apply f s, (s.apart_heap _).aloof, hP s.heap⟩

theorem changeHeap (f : Heap → Outcome Heap) :
    Heeds still runs signals (fun _ => True) (Eval.changeHeap f) := by
  refine ⟨fun s ho _ => ?_⟩
  cases hr : f s.heap with
  | ok h' =>
    rw [Eval.changeHeap_ok hr]
    exact .aloof ho rfl (apart_heap s h').aloof trivial
  | error e =>
    rw [Eval.changeHeap_error hr]
    exact .ofFailure ho rfl (.refl s) e

theorem bindName (name : String) (f : Heap → Outcome Heap) :
    Heeds still runs signals (fun _ => True) (Eval.bindName name f) := by
  refine ⟨fun s ho _ => ?_⟩
  cases hr : f s.heap with
  | ok h' =>
    rw [Eval.bindName_ok hr]
    exact .aloof ho rfl (apart_heap s h').aloof trivial
  | error e =>
    rw [Eval.bindName_error hr]
    exact .ofFailure ho rfl (aloof_complain s _) e

theorem tryHeap {f : Heap → Outcome α} (hP : ∀ h a, f h = .ok a → P a) :
    Heeds still runs signals P (Eval.tryHeap f) := by
  refine ⟨fun s ho _ => ?_⟩
  rw [Eval.tryHeap_apply]
  cases hr : f s.heap with
  | ok a => exact .aloof ho rfl (.refl s) (hP _ _ hr)
  | error e => exact .ofFailure ho rfl (.refl s) e

theorem openScope (parent : ScopeId) :
    Heeds still runs signals (fun _ => True) (Eval.openScope parent) := by
  refine ⟨fun s ho _ => ?_⟩
  have hadd := (apart_addChild s parent).aloof
  rw [Eval.openScope_apply]
  cases (s.addChild parent).1 with
  | ok scope => exact .aloof ho rfl hadd trivial
  | error e => exact .ofFailure ho rfl (hadd.trans (aloof_refuse _ _)) e

/-! ## Waiting -/

theorem checkSignal (signal : SignalId) :
    Heeds still runs signals (fun _ => True) (Eval.checkSignal signal) :=
  .of_aloof fun s _ => by
    rw [Eval.checkSignal_apply]
    split
    · exact ⟨s, _, rfl, .refl s, error_in_all _⟩
    · exact ⟨s, _, rfl, .refl s, trivial⟩

/-- A task begins to wait only while the signal is off. -/
theorem await {on : Wait} (hon : ∀ signal, on.signal? = some signal → signals signal) :
    Heeds still runs signals (fun _ => True) (Eval.await on) := by
  refine ⟨fun s ho _ => ?_⟩
  rw [Eval.await_apply]
  split
  · exact .aloof ho rfl (.refl s) (error_in_all _)
  · rename_i hoff
    refine ⟨(Aloof.refl s).acts rfl, .refl ho, fun id hid => ⟨hon id hid, ?_⟩, fun s' hs' hb => ?_⟩
    · rw [hid] at hoff
      exact Bool.eq_false_of_not_eq_true hoff
    · have hsince : s.Since still s.current s' := (Since.refl ho).bides hb
      rw [Eval.checkWait_apply]
      split
      · exact ⟨(Aloof.refl s').acts hs', hsince, error_in_all _⟩
      · exact ⟨(Aloof.refl s').acts hs', hsince, trivial⟩

theorem sleep (ms : Nat) :
    Heeds still runs signals (fun _ => True) (ExceptT.lift (Task.sleep ms) : Eval Unit) := by
  refine ⟨fun s ho _ => ?_⟩
  rw [Eval.sleep_apply]
  split
  · exact .aloof ho rfl (.refl s) trivial
  · exact ⟨(Aloof.refl s).acts rfl, .refl ho, nofun,
      fun s' hs' hb => ⟨(Aloof.refl s').acts hs', (Since.refl ho).bides hb, trivial⟩⟩

/-! ## The limits of a run -/

theorem signalOf {run : RunId} (hrun : runs run) :
    Heeds still runs signals signals (Eval.signalOf run) :=
  read fun s hp => by
    obtain ⟨r, hr, hsignal⟩ := hp run hrun
    rw [EngineState.run, hr]
    exact hsignal

theorem tick {run : RunId} (hrun : runs run) :
    Heeds still runs signals (fun _ => True) (Eval.tick run) := by
  have hlimiter : Heeds still runs signals (fun _ => True) (Eval.tickLimiter run) :=
    update fun s => ⟨s.aloof_modifyRun run fun _ => rfl, trivial⟩
  refine hlimiter.bind fun pause _ => ?_
  cases pause with
  | none => exact pure trivial
  | some due =>
    refine (signalOf hrun).bind fun signal hsignal => await fun other hother => ?_
    cases hother
    exact hsignal

/-- **Whatever a run is in for between two checkpoints heeds signals**, and may even be still. -/
theorem runRules : RunRules (.all runs signals)
    (fun P m => Heeds still runs signals P m) where
  bind := bind
  signalOf := signalOf
  cyclesOf _ _ hP := read fun _ _ => hP _
  checkSignal _ := checkSignal _
  await := await
  spend _ _ := modify fun s => s.aloof_modifyRun _ fun _ => rfl
  tick := tick

/-- **A checkpoint heeds signals**: it is passed if the run was not cancelled when it was reached. -/
theorem checkpoint {run : RunId} (hrun : runs run) :
    Heeds False runs signals (fun _ => True) (Eval.checkpoint run) := by
  refine ⟨fun s ho hp => ?_⟩
  cases hon : s.runCancelled run with
  | true =>
    rw [Eval.checkpoint_of_cancelled hon]
    exact .aloof ho rfl (.refl s) (error_in_all _)
  | false =>
    rw [Eval.checkpoint_apply]
    split
    · exact .aloof ho rfl (.refl s) (error_in_all _)
    · -- Until it is passed, the checkpoint is still, so that nothing is on record of it.
      have hstep : Heeds True runs signals (fun _ => True) (Eval.step run) := runRules.step hrun
      refine (hstep.heeds s ho hp).bind False.elim fun r t ht hsince hr => ?_
      cases r with
      | ok _ => exact ⟨acts_pass ht run, since_pass hon hsince ht ho, trivial⟩
      | error e => exact ⟨(Aloof.refl t).acts ht, hsince.weaken False.elim, hr⟩

/-! ## All of evaluation -/

theorem cancel (signal : SignalId) :
    Heeds still runs signals (fun _ => True) (Eval.modify (·.cancel signal)) :=
  ⟨fun _ ho _ => ⟨acts_cancel rfl signal, since_cancel ho signal, trivial⟩⟩

theorem start {run : RunId} (hrun : runs run) (callee : Value) (args : List Value) (spread : Bool) :
    Heeds still runs signals (fun _ => True)
      (Eval.update (·.start (.call run callee args spread))) := by
  refine ⟨fun s ho hp => ?_⟩
  obtain ⟨r, hr, -⟩ := hp run hrun
  exact ⟨acts_start rfl ⟨r, hr⟩, since_start ho _, trivial⟩

theorem checkLength (run : RunId) (length : Nat) :
    Heeds still runs signals (fun _ => True) (Eval.checkLength run length) :=
  .of_aloof fun s _ => by
    rw [Eval.checkLength_apply]
    split
    · exact ⟨_, _, rfl, s.aloof_refuse _, error_in_all _⟩
    · exact ⟨s, _, rfl, .refl s, trivial⟩

theorem inFrame {m : FrameId → Eval α} (hm : ∀ frame, Heeds still runs signals P (m frame)) :
    Heeds still runs signals P (Eval.inFrame m) :=
  (update (P := fun _ => True) fun s => ⟨(s.apart_frames _).aloof, trivial⟩).bind fun frame _ =>
    holding _ (hm frame)

/-- **Heeding signals follows the rules of evaluation.** -/
theorem rules (runs : RunId → Prop) (signals : SignalId → Prop) : Rules (.all runs signals)
    (fun P m => Heeds False runs signals P m) (Heeds False runs signals fun _ => True) where
  toRunRules := runRules
  zone_of_writable := id
  frames_of_bodies := id
  pure := pure
  throw _ := throw _
  breakDown _ := stop _
  outOfFuel := stop _
  weaken := weaken
  located := located
  attempt := attempt
  misfit _ := (modify fun s => s.aloof_complain _).bind fun _ _ => throw _
  holding _ := holding _
  readHeap hP := read fun _ _ => hP _ (Heap.encloses_all _)
  callee _ := read fun _ _ => ⟨fun _ _ => trivial, Function.in_all _⟩
  deferred _ := read fun _ _ _ _ => ⟨value_in_all _, fun _ _ => value_in_all _⟩
  sleep := sleep
  checkpoint := checkpoint
  checkLength _ := checkLength _
  cancel _ := cancel _
  onHeap hf := onHeap fun h a h' hr => (hf h a h' h.encloses_all hr).2
  alloc hf := alloc fun h => (hf h h.encloses_all).1.2
  changeHeap _ := changeHeap _
  store _ := (onHeap (P := fun _ => True) fun _ _ _ _ => trivial).bind fun _ _ =>
    modify fun s => (s.apart_heap _).aloof
  notify chan := modify fun s => s.aloof_notify chan
  register _ := modify fun s => (s.apart_heap _).aloof.trans (aloof_notify _ _)
  capture _ _ := modify fun s => (s.apart_capture _).aloof
  closure _ _ _ := (modify fun s => (s.apart_capture _).aloof).bind fun _ _ =>
    alloc fun _ => value_in_all _
  openScope _ := openScope _
  holdingOpens _ := holding _
  thenOpens := bind
  inside hm hk := hm.bind fun scope _ => holding _ (hk scope trivial)
  define _ _ _ _ := bindName _ _
  assign _ _ _ _ := bindName _ _
  revise _ _ _ _ _ := by
    have htry {f : Heap → Outcome Value} : Heeds False runs signals (fun _ => True) (Eval.tryHeap f) :=
      tryHeap fun _ _ _ => trivial
    exact htry.bind fun _ _ => htry.bind fun _ _ => (bindName _ _).bind fun _ _ =>
      pure (value_in_all _)
  packageNamed _ _ := read fun _ _ _ _ => trivial
  definePackage _ _ _ _ _ := bindName _ _
  inFrame hm := inFrame fun frame => hm frame trivial
  defer _ _ _ := modify fun s => (s.apart_defer _ _).aloof
  dropDeferred _ := modify fun s => (s.apart_frames _).aloof
  start spread hrun _ _ _ := start hrun _ _ spread

end Heeds

end ScriptEngine
