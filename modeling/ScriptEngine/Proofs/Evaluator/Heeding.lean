import ScriptEngine.Engine
import ScriptEngine.Proofs.Evaluator.Families
import ScriptEngine.Proofs.Evaluator.Scripts
import ScriptEngine.Proofs.Task.Heeding
import ScriptEngine.Proofs.Task.Paths

/-! # Every script heeds the signal of its run

Heeding signals follows the rules of evaluation, so whatever is evaluated for a run heeds the signal of
the run, and no other one (`heeds_ofFuel`); so does every task of the run (`TaskOf.heeds`), and so does
whatever else a host asks for (`Errand`).

Besides, every statement and every round of a loop begins with a checkpoint.  If the run is cancelled,
nothing of the statement or the round is carried out (`Evaluator.barred_of_cancelled`).
-/
namespace ScriptEngine

open EngineState

variable {α β : Type}

/-! ## Statements and rounds of a cancelled run -/

theorem Store.set_modify {s : Store α} {id : Nat} {a : α} (ha : s.get? id = some a) (f : α → α) :
    (s.modify id f).set id a = s := by
  have hslots : ((s.slots.modify id (·.map f)).setIfInBounds id (some a)) = s.slots := by
    refine Array.ext_getElem? fun i => ?_
    rw [Array.getElem?_setIfInBounds, Array.getElem?_modify, Array.size_modify]
    by_cases hi : id = i
    · subst hi
      unfold Store.get? at ha
      cases hs : s.slots[id]? with
      | none =>
        rw [hs] at ha
        cases ha
      | some o =>
        rw [hs] at ha
        have ho : o = some a := ha
        have hlt : id < s.slots.size := (Array.getElem?_eq_some_iff.mp hs).1
        rw [if_pos rfl, if_pos hlt, ho]
    · rw [if_neg hi, if_neg hi]
  exact congrArg Store.mk hslots

theorem Store.modify_of_none {s : Store α} {id : Nat} (ha : s.get? id = none) (f : α → α) :
    s.modify id f = s := by
  have hslots : s.slots.modify id (·.map f) = s.slots := by
    refine Array.ext_getElem? fun i => ?_
    rw [Array.getElem?_modify]
    split
    · subst i
      unfold Store.get? at ha
      cases hs : s.slots[id]? with
      | none => rfl
      | some o =>
        rw [hs] at ha
        have ho : o = none := ha
        rw [ho]
        rfl
    · rfl
  exact congrArg Store.mk hslots

/-- Two changes of one thing, one after the other. -/
theorem Store.modify_modify (s : Store α) (id : Nat) (f g : α → α) :
    (s.modify id f).modify id g = s.modify id fun a => g (f a) := by
  refine congrArg Store.mk (Array.ext_getElem? fun i => ?_)
  simp only [Store.modify, Array.getElem?_modify]
  split
  · rcases s.slots[i]? with _ | _ | a <;> rfl
  · rfl

/-- What is held and let go of leaves no trace, unless giving it back does. -/
theorem EngineState.letGo_hold (s : EngineState) {x : Holding}
    (hx : ∀ t : EngineState, t.giveBack x = t) : (s.hold x).letGo = s := by
  unfold letGo letGoOf
  cases hheld : s.held.get? s.current with
  | none =>
    have hsame : s.hold x = s := by
      rw [hold, Store.modify_of_none hheld]
    rw [hsame, hheld]
  | some xs =>
    have hmore : (s.hold x).held.get? (s.hold x).current = some (x :: xs) := by
      show (s.held.modify s.current _).get? s.current = _
      rw [Store.get?_modify_self, hheld]
      rfl
    rw [hmore]
    show ({ s with held := (s.held.modify s.current (x :: ·)).set s.current xs }).giveBack x = s
    rw [Store.set_modify hheld, hx]

namespace Evaluator

/-- Nothing is carried out of what begins with a checkpoint: neither a statement nor a round of a loop,
of a loop with clauses or of an iteration. -/
structure Barred (ev : Evaluator) (s : EngineState) : Prop where
  checkpoint : Eval.checkpoint ev.run s = .done s (.error { fault := .interrupt })
  stmt : ∀ stmt scope frame,
    ev.evalStmt stmt scope frame s = .done s (.error { fault := .interrupt })
  conditional : ∀ condition body scope frame,
    ev.conditional condition body scope frame s = .done s (.error { fault := .interrupt })
  clauseRound : ∀ condition post body scope frame,
    ev.clauseRound condition post body scope frame s = .done s (.error { fault := .interrupt })
  iteration : ∀ vars body scope frame row,
    ev.iteration vars body scope frame row s = .done s (.error { fault := .interrupt })

/-- **Nothing is carried out for a run that is cancelled.** -/
theorem barred_of_cancelled {ev : Evaluator} {s : EngineState}
    (hrun : s.runCancelled ev.run = true) : ev.Barred s := by
  have hconditional : ∀ condition body scope frame,
      ev.conditional condition body scope frame s = .done s (.error { fault := .interrupt }) := by
    intro condition body scope frame
    rw [Evaluator.conditional, Eval.bind_apply, Eval.checkpoint_of_cancelled hrun]
    rfl
  refine ⟨Eval.checkpoint_of_cancelled hrun, fun stmt scope frame => ?_, hconditional,
    fun condition post body scope frame => ?_, fun vars body scope frame row => ?_⟩
  · rw [evalStmt, Eval.bind_apply, Eval.checkpoint_of_cancelled hrun]
    rfl
  · rw [Evaluator.clauseRound, Eval.bind_apply, hconditional]
    rfl
  · -- The row is held while the round lasts, and let go of when it ends.
    have hheld : (s.hold (.values row)).runCancelled ev.run = true :=
      (apart_hold s _).aloof.onward.runCancelled hrun
    rw [Evaluator.iteration, Eval.bind_apply, Eval.holding_apply, Eval.bind_apply,
      Eval.checkpoint_of_cancelled hheld]
    show Step.done (s.hold (.values row)).letGo _ = _
    rw [letGo_hold s fun _ => rfl]

end Evaluator

/-! ## Scripts, calls and jobs -/

/-- **Every evaluation heeds the signal of its run**, with any fuel. -/
theorem heeds_ofFuel (run : RunId) (signal : SignalId) (fuel : Nat) :
    (Evaluator.ofFuel run fuel).Obedient (.all (· = run) (· = signal))
      (fun P m => Heeds False (· = run) (· = signal) P m) :=
  (Heeds.rules (· = run) (· = signal)).obedient rfl fuel

theorem heeds_node (run : RunId) (signal : SignalId) (fuel : Nat) (node : Node α) :
    Heeds False (· = run) (· = signal) (fun _ => True) (node.eval (Evaluator.ofFuel run fuel)) := by
  have hev := heeds_ofFuel run signal fuel
  have hany {α : Type} {P : α → Prop} {m : Eval α} (hm : Heeds False (· = run) (· = signal) P m) :
      Heeds False (· = run) (· = signal) (fun _ => True) m := hm.weaken fun _ _ => trivial
  cases node with
  | expr e scope => exact hany (hev.expr e.in_all trivial)
  | stmt stmt scope frame => exact hany (hev.stmt stmt.in_all trivial trivial)
  | inner block scope frame => exact hany (hev.inner (Block.in_all block) trivial trivial)
  | body block scope => exact hany (hev.body (Block.in_all block) trivial)
  | call callee args spread =>
    exact hany (hev.call spread (value_in_all callee) fun v _ => value_in_all v)
  | program script scope => exact hany (hev.program (Heeds.rules _ _) trivial (Block.in_all script))

/-! ## Sends and receives -/

section
variable (rounds : Nat) (chan : ChanId) (signal : SignalId)

theorem heeds_send (v : Value) : Heeds False (fun _ => False) (· = signal) (fun _ => True)
    (Eval.send rounds chan v signal) :=
  (Heeds.rules (fun _ => False) (· = signal)).send trivial rfl (value_in_all v) rounds

theorem heeds_recv : Heeds False (fun _ => False) (· = signal) (fun _ => True)
    (Eval.recv rounds chan signal) :=
  ((Heeds.rules (fun _ => False) (· = signal)).recv trivial rfl rounds).weaken fun _ _ => trivial

end

/-! ## Tasks -/

section
variable {s : EngineState} (ho : s.Orderly s.current)
include ho

/-- What a computation heeds, it heeds as a task. -/
theorem Heeds.task {runs : RunId → Prop} {signals : SignalId → Prop} {P : α → Prop} {m : Eval α}
    (hm : Heeds False runs signals P m) (hp : s.Places runs signals) :
    HeedsOn s.current False signals s (fun _ => True) (m s) s := by
  have hends := (hm.heeds s ho hp).bind (f := fun r t => .done t r) id fun r t ht hsince _ =>
    .since hsince (.aloof (P := fun _ => True) hsince.orderly ht (.refl t) trivial)
  rwa [Step.bind_done] at hends

/-- A job lets go of what it refers to, and then makes a computation and deals with its outcome. -/
theorem HeedsOn.job {runs : RunId → Prop} {signals : SignalId → Prop} {P : α → Prop} {m : Eval α}
    (hm : Heeds False runs signals P m) (hp : s.Places runs signals)
    {f : Except EvalError α → EngineState → Step β}
    (hf : ∀ r t, ∃ t' b, f r t = .done t' b ∧ t.Aloof t') :
    HeedsOn s.current False signals s (fun _ => True) ((m s.letGo).bind f) s := by
  have hgo := (apart_letGoOf s s.current).aloof
  have hbody := hm.heeds s.letGo (hgo.current ▸ hgo.orderly ho) (hp.onward hgo.onward)
  have hcurrent : s.letGo.current = s.current := hgo.current
  rw [hcurrent] at hbody
  refine .preceded (hgo.acts rfl) (hgo.since ho)
    (hbody.bind id fun r t ht hsince _ => .since hsince ?_)
  obtain ⟨t', b, heq, ha⟩ := hf r t
  rw [heq]
  exact .aloof hsince.orderly ht ha trivial

/-- A script heeds the signal of its run, also if it breaks down. -/
theorem heeds_execute (fuel : Nat) (e : Engine) {run : RunId} {signal : SignalId}
    (hp : s.Places (· = run) (· = signal)) (script : Block) :
    HeedsOn s.current False (· = signal) s (fun _ => True) (e.execute fuel run script s) s := by
  have hprogram := (heeds_node run signal fuel (.program script e.scope)).heeds s ho hp
  have hguarded := hprogram.catchBreakDown (s.holdCount s.current)
  refine HeedsOn.bind id hguarded fun result t ht hsince _ => .since hsince ?_
  match result with
  | .ok (.ok v) | .ok (.error error) | .error message =>
    exact .aloof hsince.orderly ht (.refl t) trivial

end

/-- **The tasks of a run**: a script, a call, and a task that was started to make a call. -/
inductive TaskOf (run : RunId) : {α : Type} → Task α → Prop where
  | script (fuel : Nat) (e : Engine) (script : Block) : TaskOf run (e.execute fuel run script)
  | call (fuel : Nat) (callee : Value) (args : List Value) (spread : Bool) :
      TaskOf run ((Evaluator.ofFuel run fuel).call callee args spread)
  | started (fuel : Nat) (task : TaskId) (callee : Value) (args : List Value) (spread : Bool) :
      TaskOf run ((Job.call run callee args spread).program fuel task)

/-- **Every task of a run heeds the signal of the run**, and no other one. -/
theorem TaskOf.heeds {run : RunId} {m : Task α} (hm : TaskOf run m) {s : EngineState}
    (ho : s.Orderly s.current) {signal : SignalId} (hp : s.Places (· = run) (· = signal)) :
    HeedsOn s.current False (· = signal) s (fun _ => True) (m s) s := by
  cases hm with
  | script fuel e script => exact heeds_execute ho fuel e hp script
  | call fuel callee args spread =>
    exact (heeds_node run signal fuel (.call callee args spread)).task ho hp
  | started fuel task callee args spread =>
    exact .job ho (heeds_node run signal fuel (.call callee args spread)) hp fun _ t =>
      ⟨t, (), rfl, .refl t⟩

theorem places_run {s : EngineState} {run : RunId} {r : Run} (hr : s.runs.get? run = some r) :
    s.Places (· = run) (· = r.signal) := by
  rintro _ rfl
  exact ⟨r, hr, rfl⟩

/-- What a job does heeds signals. -/
theorem heeds_program {s : EngineState} (ho : s.Orderly s.current) (fuel : Nat) (task : TaskId)
    {job : Job} (hjob : s.Serves job) :
    ∃ signals, HeedsOn s.current False signals s (fun _ => True) (job.program fuel task s) s := by
  have hreport {m : Eval (Option (Value × Bool))} {signal : SignalId}
      (hm : Heeds False (fun _ => False) (· = signal) (fun _ => True) m) :
      HeedsOn s.current False (· = signal) s (fun _ => True) (Job.report task m s.letGo) s :=
    .job ho hm (fun _ => False.elim) fun _ t => ⟨_, _, rfl, { Aloof.refl t with }⟩
  cases job with
  | call run callee args spread =>
    obtain ⟨r, hr⟩ := hjob
    exact ⟨_, (TaskOf.started fuel task callee args spread).heeds ho (places_run hr)⟩
  | send chan v signal =>
    exact ⟨_, hreport ((heeds_send fuel chan signal v).bind fun _ _ => .pure trivial)⟩
  | recv chan signal =>
    exact ⟨_, hreport ((heeds_recv fuel chan signal).bind fun _ _ => .pure trivial)⟩

/-! ## What a host may ask for -/

/-- What a host may ask for: a script or a call, for a run that is there; progress of such a run; that
something is sent or received, or a signal turned on; or that time passes. -/
inductive Errand (s : EngineState) : {α : Type} → Task α → Prop where
  | script {run : RunId} {r : Run} (hr : s.runs.get? run = some r) (fuel : Nat) (e : Engine)
      (script : Block) : Errand s (e.execute fuel run script)
  | call {run : RunId} {r : Run} (hr : s.runs.get? run = some r) (fuel : Nat) (callee : Value)
      (args : List Value) (spread : Bool) :
      Errand s ((Evaluator.ofFuel run fuel).call callee args spread)
  | checkpoint {run : RunId} {r : Run} (hr : s.runs.get? run = some r) :
      Errand s (Eval.checkpoint run)
  | step {run : RunId} {r : Run} (hr : s.runs.get? run = some r) : Errand s (Eval.step run)
  | pulse {run : RunId} {r : Run} (hr : s.runs.get? run = some r) : Errand s (Eval.pulse run)
  | send (rounds : Nat) (chan : ChanId) (v : Value) (signal : SignalId) :
      Errand s (Eval.send rounds chan v signal)
  | recv (rounds : Nat) (chan : ChanId) (signal : SignalId) :
      Errand s (Eval.recv rounds chan signal)
  | close (chan : ChanId) : Errand s (Eval.close chan)
  | cancel (signal : SignalId) : Errand s (Eval.modify (·.cancel signal))
  | sleep (ms : Nat) : Errand s (ExceptT.lift (Task.sleep ms) : Eval Unit)

theorem Errand.onward {s s' : EngineState} {m : Task α} (hm : Errand s m) (hs : s.Onward s') :
    Errand s' m := by
  have hthere {run : RunId} {r : Run} (hr : s.runs.get? run = some r) :
      ∃ r', s'.runs.get? run = some r' := (hs.runs run r hr).imp fun _ => And.left
  cases hm with
  | script hr fuel e script =>
    obtain ⟨r', hr'⟩ := hthere hr
    exact .script hr' fuel e script
  | call hr fuel callee args spread =>
    obtain ⟨r', hr'⟩ := hthere hr
    exact .call hr' fuel callee args spread
  | checkpoint hr =>
    obtain ⟨r', hr'⟩ := hthere hr
    exact .checkpoint hr'
  | step hr =>
    obtain ⟨r', hr'⟩ := hthere hr
    exact .step hr'
  | pulse hr =>
    obtain ⟨r', hr'⟩ := hthere hr
    exact .pulse hr'
  | send rounds chan v signal => exact .send rounds chan v signal
  | recv rounds chan signal => exact .recv rounds chan signal
  | close chan => exact .close chan
  | cancel signal => exact .cancel signal
  | sleep ms => exact .sleep ms

/-- **Whatever a host asks for heeds signals.** -/
theorem Errand.heeds {s : EngineState} {m : Task α} (hm : Errand s m) (ho : s.Orderly s.current) :
    ∃ signals, HeedsOn s.current False signals s (fun _ => True) (m s) s := by
  have hnone (signals : SignalId → Prop) : s.Places (fun _ => False) signals := fun _ => False.elim
  cases hm with
  | script hr fuel e script =>
    exact ⟨_, (TaskOf.script fuel e script).heeds ho (places_run hr)⟩
  | call hr fuel callee args spread =>
    exact ⟨_, (TaskOf.call fuel callee args spread).heeds ho (places_run hr)⟩
  | @checkpoint run r hr =>
    have hm : Heeds False (· = run) (· = r.signal) _ (Eval.checkpoint run) := .checkpoint rfl
    exact ⟨_, hm.task ho (places_run hr)⟩
  | @step run r hr =>
    have hm : Heeds False (· = run) (· = r.signal) _ (Eval.step run) := Heeds.runRules.step rfl
    exact ⟨_, hm.task ho (places_run hr)⟩
  | @pulse run r hr =>
    have hm : Heeds False (· = run) (· = r.signal) _ (Eval.pulse run) := Heeds.runRules.pulse rfl
    exact ⟨_, hm.task ho (places_run hr)⟩
  | send rounds chan v signal => exact ⟨_, (heeds_send rounds chan signal v).task ho (hnone _)⟩
  | recv rounds chan signal => exact ⟨_, (heeds_recv rounds chan signal).task ho (hnone _)⟩
  | close chan =>
    exact ⟨_, ((Heeds.rules (fun _ => False) fun _ => False).close trivial).task ho (hnone _)⟩
  | cancel signal => exact ⟨_, (Heeds.cancel signal).task ho (hnone fun _ => False)⟩
  | sleep ms => exact ⟨_, (Heeds.sleep ms).task ho (hnone fun _ => False)⟩

/-- **What a task waits for on account of a signal**, it waits for on account of a signal that it is to
heed, and only while that is off. -/
theorem HeedsOn.names {who : TaskId} {still : Prop} {signals : SignalId → Prop}
    {start base t : EngineState} {P : α → Prop} {x : Step α} {path : List EngineState} {on : Wait}
    {resume : EngineState → Step α} (hx : HeedsOn who still signals start P x base)
    (hothers : x.Amid (fun s s' => s'.current = who ∧ s.Bides who s') path)
    (hwait : x.follow path = .wait t on resume) {id : SignalId} (hid : on.signal? = some id) :
    signals id ∧ t.isCancelled id = false := by
  induction path generalizing x base with
  | nil =>
    rw [Step.follow_nil] at hwait
    subst hwait
    exact hx.2.2.1 id hid
  | cons s' path ih =>
    cases x with
    | done s a => cases hwait
    | stop s why => cases hwait
    | wait s on' resume' => exact ih (hx.2.2.2 s' hothers.1.1 hothers.1.2) hothers.2 hwait

end ScriptEngine
