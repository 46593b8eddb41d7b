import ScriptEngine.Proofs.Scheduler.Heeding

/-! # Cancellation stops every task

A run is cancelled by turning on its signal; nobody stops its tasks.  Whatever tasks do, in whatever
order they take their turns, and whenever the signal is turned on (`Later`), every task of the run comes
to an end of its own: it passes at most one more checkpoint, nothing is carried out for it after that,
and when no task can run any more, none is left that waits on account of the signal
(`cancelled_tasks_stop`).

The one checkpoint is there because a checkpoint looks at the signal first, and may wait before it is
passed.
-/
namespace ScriptEngine

open EngineState

/-! ## What can happen -/

theorem Errand.request {α : Type} {s : EngineState} {m : Task α} (hm : Errand s m) : Request m := by
  cases hm with
  | script _ fuel e script => exact .script fuel e _ script
  | call _ fuel callee args spread => exact .call fuel _ callee args spread
  | checkpoint _ => exact .evaluate inferInstance
  | step _ => exact .evaluate inferInstance
  | pulse _ => exact .evaluate inferInstance
  | send rounds chan v signal => exact .evaluate inferInstance
  | recv rounds chan signal => exact .evaluate (.recv rfl rounds chan signal)
  | close chan => exact .evaluate inferInstance
  | cancel signal => exact .evaluate inferInstance
  | sleep ms => exact .evaluate inferInstance

/-- **The states that tasks can come to** from a state with or without a foreground task.  Any task that
can run may be the next to run; time may pass at any moment; and the host may act at any moment, above
all by turning on a signal. -/
inductive Later {α₀ : Type} (sch₀ : Scheduler) (main₀ : Option (Foreground α₀)) :
    {α : Type} → Scheduler → Option (Foreground α) → Prop where
  | refl : Later sch₀ main₀ sch₀ main₀
  /-- The host does something that changes no channel that is there, and turns on no signal that a task
  waits for. -/
  | host {α : Type} {sch : Scheduler} {main : Option (Foreground α)} {s : EngineState}
      (hl : Later sch₀ main₀ sch main) (hcurrent : s.current = sch.state.current)
      (hheld : s.held = sch.state.held) (hnotices : s.notices = sch.state.notices)
      (hchans : sch.state.heap.Spares s.heap) (honward : sch.state.Onward s)
      (hoverruns : s.overruns = sch.state.overruns)
      (hsignals : ∀ on ∈ waits sch main, ∀ id, on.signal? = some id → s.isCancelled id = true →
        sch.state.isCancelled id = true) : Later sch₀ main₀ { sch with state := s } main
  | collect {α : Type} {sch : Scheduler} {main : Option (Foreground α)}
      (hl : Later sch₀ main₀ sch main) :
      Later sch₀ main₀ { sch with state := sch.state.collect } main
  /-- The host turns on a signal. -/
  | cancel {α : Type} {sch : Scheduler} {main : Option (Foreground α)}
      (hl : Later sch₀ main₀ sch main) (signal : SignalId) :
      Later sch₀ main₀ { sch with state := sch.state.cancel signal } main
  /-- The host starts a task in the background. -/
  | job {α : Type} {sch : Scheduler} {main : Option (Foreground α)}
      (hl : Later sch₀ main₀ sch main) {job : Job} (hjob : sch.state.Serves job) :
      Later sch₀ main₀ { sch with state := (sch.state.start job).2 } main
  /-- The host starts a task in the foreground. -/
  | begin {α β : Type} {sch : Scheduler} {m : Task β}
      (hl : Later sch₀ main₀ sch (none : Option (Foreground α))) (hm : Errand sch.state m) :
      Later sch₀ main₀ sch (some { on := .turn, resume := m, woken := true })
  /-- A task in the background takes a turn. -/
  | turn {α : Type} {sch : Scheduler} {main : Option (Foreground α)}
      (hl : Later sch₀ main₀ sch main) (fuel : Nat) (before after : List (Suspended Unit))
      {t : Suspended Unit} (hready : sch.ready = before ++ t :: after)
      {r : Scheduler × List Notice}
      (hturn : { sch with ready := before ++ after }.turn fuel t = .ok r) :
      Later sch₀ main₀ r.1 (main.map (·.settle r.2))
  /-- The foreground task takes a turn, and waits again. -/
  | pause {α : Type} {sch : Scheduler} {main : Foreground α} (hl : Later sch₀ main₀ sch (some main))
      (hwoken : main.woken = true) (fuel : Nat) {s : EngineState} {on : Wait}
      {resume : EngineState → Step α}
      (hturn : main.resume { sch.state with current := 0 } = .wait s on resume) :
      Later sch₀ main₀ (sch.settle fuel s).1 (some { on, resume })
  /-- The foreground task takes its last turn. -/
  | finish {α β : Type} {sch : Scheduler} {main : Foreground α}
      (hl : Later sch₀ main₀ sch (some main)) (hwoken : main.woken = true) (fuel : Nat)
      {s : EngineState} {a : α}
      (hturn : main.resume { sch.state with current := 0 } = .done s a) :
      Later sch₀ main₀ (sch.settle fuel s).1 (none : Option (Foreground β))
  /-- The foreground task cannot go on. -/
  | stop {α β : Type} {sch : Scheduler} {main : Foreground α}
      (hl : Later sch₀ main₀ sch (some main)) (hwoken : main.woken = true) (fuel : Nat)
      {s : EngineState} {why : Halt}
      (hturn : main.resume { sch.state with current := 0 } = .stop s why) :
      Later sch₀ main₀ (sch.settle fuel (s.unwind 0 0)).1 (none : Option (Foreground β))
  /-- The foreground task gives up. -/
  | giveUp {α β : Type} {sch : Scheduler} {main : Foreground α}
      (hl : Later sch₀ main₀ sch (some main)) :
      Later sch₀ main₀ { sch with state := sch.state.unwind 0 0 } (none : Option (Foreground β))
  /-- Nobody goes on with the foreground task. -/
  | abandon {α β : Type} {sch : Scheduler} {main : Foreground α}
      (hl : Later sch₀ main₀ sch (some main)) : Later sch₀ main₀ sch (none : Option (Foreground β))
  /-- Those that let others go first can run again. -/
  | giveWay {α : Type} {sch : Scheduler} {main : Option (Foreground α)}
      (hl : Later sch₀ main₀ sch main) :
      Later sch₀ main₀ { sch with ready := sch.ready ++ sch.yielded, yielded := [] }
        (main.map fun f => { f with woken := f.woken || f.on.isTurn })
  /-- Time passes. -/
  | pass {α : Type} {sch : Scheduler} {main : Option (Foreground α)} {s : EngineState} (now : Nat)
      (hl : Later sch₀ main₀ sch main) (hnow : sch.state.now ≤ now)
      (hs : s = { sch.state with now }) :
      Later sch₀ main₀
        { sch with
          state := s
          ready := sch.ready ++ (sch.parked.partition (·.on.isDue s)).1
          parked := (sch.parked.partition (·.on.isDue s)).2 }
        (main.map (·.wakeDue s))

namespace Later
variable {α₀ α β : Type} {sch₀ sch : Scheduler} {main₀ : Option (Foreground α₀)}
  {main : Option (Foreground α)}

/-- **Whatever the scheduler does, it comes to later states.** -/
theorem turnsKeep : TurnsKeep fun _ => Later sch₀ main₀ where
  turn hl fuel before after _ _ hready hturn := hl.turn fuel before after hready hturn
  pause hl hwoken fuel _ _ _ hturn := hl.pause hwoken fuel hturn
  finish hl hwoken fuel _ _ hturn := hl.finish hwoken fuel hturn
  stop hl hwoken fuel _ _ hturn := hl.stop hwoken fuel hturn
  giveUp := giveUp
  abandon := abandon
  giveWay := giveWay
  pass := pass

/-- **What holds at one time holds later on**, one case for each thing that can happen. -/
theorem kept (hl : Later sch₀ main₀ sch main) {origin : EngineState}
    (hw₀ : Watched sch₀.state.notices.toList sch₀ main₀)
    (hh₀ : Heeded origin sch₀.state.notices.toList sch₀ main₀) :
    Watched sch.state.notices.toList sch main ∧
      Heeded sch₀.state sch.state.notices.toList sch main := by
  have hsettled (sch : Scheduler) (fuel : Nat) (s : EngineState) :
      (sch.settle fuel s).1.state.notices = #[] := by rw [Scheduler.settle_state]
  induction hl with
  | refl => exact ⟨hw₀, { hh₀ with onward := .refl _ }⟩
  | @host _ sch main s _ hcurrent hheld hnotices hchans honward hoverruns hsignals ih =>
    have hbides (task : TaskId) : sch.state.Bides task s :=
      ⟨honward, fun run => by rw [overrunsOf, overrunsOf, hoverruns]⟩
    refine ⟨ih.1.host (tells_elsewhere hcurrent hheld hnotices hchans), ?_⟩
    refine ih.2.advance (fun task _ => hbides task) (fun _ => hbides 0)
      (fun task => (ih.2.orderly task).bides (hbides task)) honward (fun _ hn => hnotices ▸ hn)
      (fun _ _ hn => .inl (hnotices ▸ hn)) fun on hon id hid hcancelled => ?_
    exact .inl (hsignals on hon id hid hcancelled)
  | collect _ ih => exact ⟨ih.1.host (tells_collect _), ih.2.aloof (apart_collect _).aloof⟩
  | @cancel _ sch main _ signal ih =>
    have honward := onward_cancel sch.state signal
    have hacts := acts_cancel (s := sch.state) rfl signal
    refine ⟨ih.1.host (tells_cancel _ _), ?_⟩
    exact ih.2.advance (fun _ _ => ⟨honward, fun _ => rfl⟩) (fun _ => ⟨honward, fun _ => rfl⟩)
      (fun task => (ih.2.orderly task).bides ⟨honward, fun _ => rfl⟩) honward hacts.notices hacts.jobs
      fun _ _ id _ hid => hacts.told id hid
  | @job _ sch main _ job hjob ih =>
    have hacts := acts_start (s := sch.state) rfl hjob
    have honward := hacts.toOnward
    refine ⟨ih.1.host (tells_start _ job fun _ hnone => absurd hnone.symm (Option.some_ne_none _)), ?_⟩
    exact ih.2.advance (fun _ _ => ⟨honward, fun _ => rfl⟩) (fun _ => ⟨honward, fun _ => rfl⟩)
      (fun task => (ih.2.orderly task).bides ⟨honward, fun _ => rfl⟩) honward hacts.notices hacts.jobs
      fun _ _ id _ hid => hacts.told id hid
  | begin _ hm ih => exact ⟨ih.1.begin hm.request.watchful, ih.2.begin hm⟩
  | turn _ fuel _ _ hready hturn ih =>
    have hn := Scheduler.notices_turn hturn
    exact ⟨(ih.1.turn fuel hready hturn).of_settled hn,
      (ih.2.turn ih.1 fuel hready hturn).of_settled hn⟩
  | pause _ _ fuel hturn ih =>
    exact ⟨(ih.1.pause fuel hturn).of_settled (hsettled _ _ _),
      (ih.2.pause ih.1 fuel hturn).of_settled (hsettled _ _ _)⟩
  | finish _ _ fuel hturn ih =>
    exact ⟨(ih.1.finish fuel hturn).of_settled (hsettled _ _ _),
      (ih.2.finish ih.1 fuel hturn).of_settled (hsettled _ _ _)⟩
  | stop _ _ fuel hturn ih =>
    exact ⟨(ih.1.stop fuel hturn).of_settled (hsettled _ _ _),
      (ih.2.stop ih.1 fuel hturn).of_settled (hsettled _ _ _)⟩
  | giveUp _ ih => exact ⟨ih.1.giveUp, ih.2.giveUp⟩
  | abandon _ ih => exact ⟨ih.1.drop, ih.2.drop⟩
  | giveWay _ ih => exact ⟨ih.1.wakeYielded.wakeMain _, ih.2.wakeYielded.wakeMain _⟩
  | pass now _ hnow hs ih =>
    subst hs
    exact ⟨(ih.1.wake _ now).wakeMain _, ih.2.pass hnow⟩

end Later

/-! ## The law -/

theorem watched_empty : Watched [] ({} : Scheduler) noMain where
  nodup := List.nodup_cons.mpr ⟨nofun, .nil⟩
  held_zero := ⟨[], rfl⟩
  started := nofun
  rests := nofun
  parked := nofun
  foreground := nofun

theorem heeded_empty : Heeded EngineState.initial [] ({} : Scheduler) noMain where
  onward := .refl _
  orderly _ := ⟨fun _ => Nat.zero_le _, fun _ _ => rfl⟩
  serves := nofun
  bides := nofun
  parked := nofun
  foreground := nofun

section
variable {α α₀ : Type} {sch₀ sch : Scheduler} {main₀ : Option (Foreground α₀)}
  {main : Option (Foreground α)}

/-- A task that waits on account of a signal that is on has a notice of it, so it is not quiet. -/
theorem Heeded.off_of_quiet {origin : EngineState}
    (hh : Heeded origin sch.state.notices.toList sch main) (hq : Quiet sch main) {on : Wait}
    (hon : on ∈ waits sch main) {signal : SignalId} (hsignal : on.signal? = some signal) :
    sch.state.isCancelled signal = false := by
  have hoff (hw : Warned sch.state.notices.toList sch.state on) :
      sch.state.isCancelled signal = false := by
    refine Bool.eq_false_iff.mpr fun hcancelled => ?_
    have hn := hw signal hsignal hcancelled
    rw [hq.notices] at hn
    cases hn
  rcases List.mem_append.mp hon with hon | hon
  · obtain ⟨t, ht, rfl⟩ := List.mem_map.mp hon
    exact hoff (hh.parked t ht)
  · obtain ⟨f, hf, rfl⟩ := List.mem_map.mp hon
    have hmem : f ∈ main := Option.mem_toList.mp hf
    rcases (hh.foreground f hmem).2 with hwoken | hw
    · rw [hq.foreground f hmem] at hwoken
      cases hwoken
    · exact hoff hw

/-- **Cancellation stops every task.**  Take a run that is there at some time.  Whenever a task of the
run waits on account of a signal, it is that of the run, and the signal is off as the task begins to
wait.  And once the signal is on, at any later time:

* each task has passed at most one checkpoint of the run since;
* whatever state the run is in, no checkpoint, no statement and no round of a loop that begins for it
  does anything but to return `interrupt`; and
* if no task can run, none waits on account of the signal. -/
theorem cancelled_tasks_stop {run : RunId} {r : Run} (h₀ : Later {} noMain sch₀ main₀)
    (hr : sch₀.state.runs.get? run = some r) :
    (∀ (β : Type) (m : Task β) (who : TaskId) (path : List EngineState) (t : EngineState) (on : Wait)
        (resume : EngineState → Step β), TaskOf run m →
      (m { sch₀.state with current := who }).Amid
        (fun s s' => s'.current = who ∧ s.Bides who s') path →
      (m { sch₀.state with current := who }).follow path = .wait t on resume →
      ∀ signal, on.signal? = some signal → signal = r.signal ∧ t.isCancelled signal = false) ∧
    ∀ (α α' : Type) (sch sch' : Scheduler) (main : Option (Foreground α))
        (main' : Option (Foreground α')),
      Later sch₀ main₀ sch main → sch.state.isCancelled r.signal = true →
      Later sch main sch' main' →
      (∀ who, sch'.state.overrunsOf who run ≤ 1) ∧
      (∀ (ev : Evaluator) (s : EngineState), ev.run = run → sch'.state.Onward s → ev.Barred s) ∧
      (Quiet sch' main' → ∀ on ∈ waits sch' main', on.signal? ≠ some r.signal) := by
  obtain ⟨hw₀, hh₀⟩ := h₀.kept watched_empty heeded_empty
  refine ⟨fun β m who path t on resume hm hothers hwait signal hsignal => ?_,
    fun α α' sch sch' main main' hl hon hl' => ?_⟩
  · have ho : Orderly who { sch₀.state with current := who } :=
      ⟨(hh₀.orderly who).most, (hh₀.orderly who).none⟩
    have hheeds := hm.heeds (s := { sch₀.state with current := who }) ho (places_run hr)
    exact hheeds.names hothers hwait hsignal
  · obtain ⟨hw, hh⟩ := hl.kept hw₀ hh₀
    obtain ⟨-, hh'⟩ := hl'.kept hw hh
    obtain ⟨r', hr', heq⟩ := hh.onward.runs run r hr
    have hcancelled : sch'.state.runCancelled run = true :=
      hh'.onward.runCancelled (runCancelled_iff.mpr ⟨r', hr', heq ▸ hon⟩)
    refine ⟨fun who => (hh'.orderly who).most run, ?_, fun hq on hmem hsignal => ?_⟩
    · rintro ev s rfl hs
      exact Evaluator.barred_of_cancelled (hs.runCancelled hcancelled)
    · have hoff := hh'.off_of_quiet hq hmem hsignal
      rw [hh'.onward.signals _ hon] at hoff
      cases hoff

end

/-! ## A script that is cancelled at a checkpoint -/

/-- The root scope with a number and a channel, a function that writes to the number three times, one
that receives from the channel, and two runs, each with a signal of its own; the first run is one cycle
from its next turn. -/
def twoRuns : Scheduler :=
  let script (name : String) (body : Block) : Function :=
    .script (.mk (some name) [] false body) 0 false
  let assigns : Block := [1, 2, 3].map fun n => .assignTo "x" (.int n)
  { state := { EngineState.initial with
      heap := {
        chans := Store.push {} { capacity := 0, elemType := none }
        funcs := (Store.push {} (script "f" assigns)).push (script "g" [.expr (.recv (.ident "c"))])
        scopes := Store.push {} { vars := ⟨[("x", .int 0), ("c", .chan 0)]⟩ } }
      governors := Store.push {} { limit := 0 }
      signals := (Store.push {} {}).push {}
      runs := (Store.push {} ⟨0, ⟨0, 0, 0, 0⟩, 0, 511⟩).push ⟨1, ⟨0, 0, 0, 0⟩, 0, 0⟩
      pinned := [0] } }

/-- A function is called in the background. -/
def Scheduler.calling (sch : Scheduler) (run : RunId) (f : FuncId) : Scheduler :=
  { sch with state := (sch.state.start (.call run (.func f) [] false)).2 }

/-- So many turns, each of the task that comes next. -/
def Scheduler.turns : Nat → Scheduler → Scheduler
  | 0, sch => sch
  | count + 1, sch =>
    match sch.ready with
    | [] => sch
    | t :: rest =>
      match { sch with ready := rest }.turn 20 t with
      | .ok r => turns count r.1
      | .error _ => sch

/-- The first run writes in one task and receives in another one; the second run receives. -/
def threeCalls : Scheduler :=
  (((twoRuns.calling 0 0).calling 0 1).calling 1 1).run 20 (ExceptT.lift (Task.sleep 0) : Eval Unit)
    |>.1.turns 4

/-- The first run has been cancelled. -/
def firstCancelled : Scheduler :=
  { threeCalls with state := threeCalls.state.cancel 0 }

/-- A millisecond later. -/
def firstStopped : Scheduler :=
  (firstCancelled.run 20 (ExceptT.lift (Task.sleep 1) : Eval Unit)).1

section
variable {α : Type} {sch₀ sch : Scheduler} {main₀ : Option (Foreground α)}

theorem Later.turns (count : Nat) (hl : Later sch₀ main₀ sch noMain) :
    Later sch₀ main₀ (sch.turns count) noMain := by
  induction count generalizing sch with
  | zero => exact hl
  | succ count ih =>
    unfold Scheduler.turns
    split
    · exact hl
    · rename_i t rest hready
      split
      · rename_i r hturn
        exact ih (hl.turn 20 [] rest hready hturn)
      · exact hl

theorem Later.calling (hl : Later sch₀ main₀ sch noMain) (run : RunId) (f : FuncId)
    (hr : ∃ r, sch.state.runs.get? run = some r) :
    Later sch₀ main₀ (sch.calling run f) noMain := .job hl hr

theorem Later.run {β : Type} (hl : Later sch₀ main₀ sch noMain) (fuel : Nat) {m : Task β}
    (hm : Errand sch.state m) : Later sch₀ main₀ (sch.run fuel m).1 noMain :=
  turnsKeep.drive fuel (hl.begin hm)

end

theorem later_twoRuns : Later {} noMain twoRuns noMain := by
  refine .host .refl rfl rfl rfl ⟨Nat.zero_le _, fun id hid => ?_⟩ ⟨nofun, fun id hid => ?_⟩ rfl nofun
  · exact absurd hid (Nat.not_lt_zero id)
  · cases hid

theorem later_threeCalls : Later twoRuns noMain threeCalls noMain := by
  have hcalls : Later twoRuns noMain (((twoRuns.calling 0 0).calling 0 1).calling 1 1) noMain :=
    ((Later.refl.calling 0 0 ⟨_, rfl⟩).calling 0 1 ⟨_, rfl⟩).calling 1 1 ⟨_, rfl⟩
  exact (hcalls.run 20 (.sleep 0)).turns 4

/-- The task that writes is at a checkpoint when its run is cancelled: it writes once, but not a second
time; and of those that receive only the one of the other run still waits. -/
theorem cancelled_tasks_stop_writing :
    threeCalls.yielded.map (·.task) = [1] ∧
    waits threeCalls noMain = [.recv 0 1, .recv 0 0] ∧
    Later firstCancelled noMain firstStopped noMain ∧ Quiet firstStopped noMain ∧
    waits firstStopped noMain = [.recv 0 1] ∧
    firstStopped.state.heap.lookup? 0 "x" = some (.int 1) ∧
    firstStopped.state.overrunsOf 1 0 = 1 ∧
    (∀ who, firstStopped.state.overrunsOf who 0 ≤ 1) ∧
    (Evaluator.ofFuel 0 20).Barred firstStopped.state ∧
    ∀ on ∈ waits firstStopped noMain, on.signal? ≠ some 0 := by
  have hstopped : Later firstCancelled noMain firstStopped noMain := Later.run .refl 20 (.sleep 1)
  have hquiet : Quiet firstStopped noMain := quiet_of_empty (by decide +kernel)
  have hrun : twoRuns.state.runs.get? 0 = some ⟨0, ⟨0, 0, 0, 0⟩, 0, 511⟩ := rfl
  have hlaw := (cancelled_tasks_stop later_twoRuns hrun).2 Unit Unit firstCancelled firstStopped
    noMain noMain (later_threeCalls.cancel 0) (by decide +kernel) hstopped
  exact ⟨by decide +kernel, by decide +kernel, hstopped, hquiet, by decide +kernel,
    by decide +kernel, by decide +kernel, hlaw.1,
    hlaw.2.1 _ _ rfl (.refl _), hlaw.2.2 hquiet⟩

end ScriptEngine
