import ScriptEngine.Proofs.Evaluator.Scripts
import ScriptEngine.Proofs.Scheduler.Turns
import ScriptEngine.Proofs.Scheduler.Wakeups
import ScriptEngine.Proofs.Task.Impartiality

/-! # Schedulers in lockstep

Scripts are their own twins (`Likeness.Robust.parallel_execute`), and so are the jobs that they start.
If moreover neither side pauses where the other goes on, and the time and the notices are the same on
both sides (`Likeness.InStep`), then two schedulers with the same tasks stay in **lockstep**
(`Scheduler.Twins`): they give the same turns, and every turn is taken by twins.  So a run has the
same outcome on both sides, unless the first one is lost or runs out of fuel (`Scheduler.Twins.run`).
It may begin in any state that tasks can come to, since those under way are impartial
(`Scheduler.IsImpartial.twins`).
-/

/-! ## Impartial tasks in the background

What runs in the background began as a job, and jobs are impartial (`Likeness.InStep.program`).  Turns
keep it so: in any state that tasks can come to, the tasks under way in the background are impartial
towards any likeness that keeps schedulers in lockstep (`Reachable.impartial`), so each of them is its
own twin.
-/
namespace ScriptEngine

variable {α β : Type} {L : Likeness}

/-! ## Jobs -/

namespace Likeness.InStep
variable (hL : L.InStep)
include hL

/-- A task that reports how it ended. -/
theorem reporting {P : Option (Value × Bool) → Prop} {m : Eval (Option (Value × Bool))}
    (hm : ImpartialEval L P m) (task : TaskId) :
    Impartial L (fun _ => True) fun s => Job.report task m s.letGo := by
  have hreport : Impartial L (fun _ => True) (Job.report task m) :=
    hm.bind fun _ _ => .done (hL.report _)
      (fun s => ⟨Nat.le_refl _, fun _ => id, List.suffix_refl _, (hL.valid s).signal⟩) trivial
  exact hreport.preceded hL.letGo hL.accrues_letGo

/-- **Jobs are impartial.** -/
theorem program (fuel : Nat) (task : TaskId) (job : Job) :
    Impartial L (fun _ => True) (job.program fuel task) := by
  have hR := hL.rulesOfImpartiality
  cases job with
  | call run callee args spread =>
    have hcall : ImpartialEval L _ ((Evaluator.ofFuel run fuel).call callee args spread) :=
      (hR.obedient (hL.all_runs run) fuel).call spread (value_in_all callee)
        fun v _ => value_in_all v
    exact (hcall.preceded hL.letGo hL.accrues_letGo).bind fun _ _ => .done id hL.valid trivial
  | send chan v signal =>
    have hsend : ImpartialEval L _ (Eval.send fuel chan v signal) :=
      hR.send trivial (hL.all_signals signal) (value_in_all v) fuel
    exact hL.reporting (P := fun _ => True) (hR.after hsend fun _ => hR.pure trivial) task
  | recv chan signal =>
    have hrecv : ImpartialEval L _ (Eval.recv fuel chan signal) :=
      hR.recv trivial (hL.all_signals signal) fuel
    exact hL.reporting (P := fun _ => True) (hR.after hrecv fun _ => hR.pure trivial) task

end Likeness.InStep

/-! ## Schedulers -/

/-- The task is impartial, whatever it waits for. -/
abbrev Suspended.IsImpartial (L : Likeness) (t : Suspended Unit) : Prop :=
  Impartial L (fun _ => True) t.resume

namespace Scheduler

/-- **The tasks under way in the background are impartial.** -/
structure IsImpartial (L : Likeness) (sch : Scheduler) : Prop where
  ready : ∀ t ∈ sch.ready, t.IsImpartial L
  parked : ∀ t ∈ sch.parked, t.IsImpartial L
  yielded : ∀ t ∈ sch.yielded, t.IsImpartial L

namespace IsImpartial
variable {sch : Scheduler}

theorem withState (hi : sch.IsImpartial L) (s : EngineState) :
    Scheduler.IsImpartial L { sch with state := s } :=
  ⟨hi.ready, hi.parked, hi.yielded⟩

/-- Some of the parked tasks can run again. -/
theorem wake (hi : sch.IsImpartial L) (p : Suspended Unit → Bool) :
    Scheduler.IsImpartial L
      { sch with
        ready := sch.ready ++ (sch.parked.partition p).1
        parked := (sch.parked.partition p).2 } := by
  simp only [List.partition_eq_filter_filter]
  exact { hi with
    ready := List.forall_mem_append.mpr
      ⟨hi.ready, fun t ht => hi.parked t (List.mem_filter.mp ht).1⟩
    parked := fun t ht => hi.parked t (List.mem_filter.mp ht).1 }

theorem wakeYielded (hi : sch.IsImpartial L) :
    Scheduler.IsImpartial L { sch with ready := sch.ready ++ sch.yielded, yielded := [] } :=
  { hi with
    ready := List.forall_mem_append.mpr ⟨hi.ready, hi.yielded⟩
    yielded := List.forall_mem_nil _ }

theorem suspend (hi : sch.IsImpartial L) {t : Suspended Unit} (ht : t.IsImpartial L) :
    (sch.suspend t).IsImpartial L := by
  unfold Scheduler.suspend
  split
  · exact { hi with yielded := List.forall_mem_cons.mpr ⟨ht, hi.yielded⟩ }
  · exact { hi with
      parked := List.forall_mem_append.mpr ⟨hi.parked, List.forall_mem_singleton.mpr ht⟩ }

variable (hL : L.InStep)
include hL

theorem notice (hi : sch.IsImpartial L) (fuel : Nat) (n : Notice) :
    (sch.notice fuel n).IsImpartial L := by
  cases n with
  | started task job =>
    have hjob : Suspended.IsImpartial L ⟨task, .turn, job.program fuel task⟩ :=
      hL.program fuel task job
    exact { hi with
      ready := List.forall_mem_append.mpr ⟨hi.ready, List.forall_mem_singleton.mpr hjob⟩ }
  | channel chan => exact hi.wake _
  | signal id => exact hi.wake _

theorem settle (hi : sch.IsImpartial L) (fuel : Nat) (s : EngineState) :
    (sch.settle fuel s).1.IsImpartial L := by
  have hfold (ns : List Notice) {sch : Scheduler} (hi : sch.IsImpartial L) :
      (ns.foldl (Scheduler.notice fuel) sch).IsImpartial L := by
    induction ns generalizing sch with
    | nil => exact hi
    | cons n rest ih => exact ih (hi.notice hL fuel n)
  exact hfold _ (hi.withState _)

/-- **A turn leaves impartial tasks behind.** -/
theorem turn (hi : sch.IsImpartial L) {fuel : Nat} {t : Suspended Unit} (ht : t.IsImpartial L)
    {r : Scheduler × List Notice} (hr : sch.turn fuel t = .ok r) : r.1.IsImpartial L := by
  have hturn := ht.even { sch.state with current := t.task }
  unfold Scheduler.turn at hr
  split at hr
  · cases hr
    exact hi.settle hL fuel _
  · rename_i s on resume heq
    rw [heq] at hturn
    cases hr
    exact (hi.settle hL fuel s).suspend (.of_wait hturn)
  · cases hr
    exact hi.settle hL fuel _
  · cases hr

end IsImpartial
end Scheduler

/-- **In any state that tasks can come to, those in the background are impartial.** -/
theorem Reachable.impartial (hL : L.InStep) {sch : Scheduler} {main : Option (Foreground α)}
    (hr : Reachable sch main) : sch.IsImpartial L := by
  induction hr with
  | start => exact ⟨List.forall_mem_nil _, List.forall_mem_nil _, List.forall_mem_nil _⟩
  | host _ _ _ _ _ ih | collect _ ih | job _ _ ih | giveUp _ ih => exact ih.withState _
  | begin _ _ ih | abandon _ ih => exact ih
  | @turn α sch main _ fuel before after t hready r hturn ih =>
    have hall := ih.ready
    rw [hready, List.forall_mem_append, List.forall_mem_cons] at hall
    obtain ⟨hbefore, ht, hafter⟩ := hall
    have hothers : Scheduler.IsImpartial L { sch with ready := before ++ after } :=
      { ih with ready := List.forall_mem_append.mpr ⟨hbefore, hafter⟩ }
    exact hothers.turn hL ht hturn
  | pause _ _ fuel _ ih | finish _ _ fuel _ ih | stop _ _ fuel _ ih => exact ih.settle hL fuel _
  | giveWay _ ih => exact ih.wakeYielded
  | pass now _ _ ih => exact (ih.wake _).withState _

end ScriptEngine

namespace ScriptEngine

variable {α β : Type}

/-! ## Scripts -/

namespace Likeness.Robust
variable {L : Likeness} (hL : L.Robust) {s s' : EngineState}
include hL

/-- A step that breaks down lets go of the same on both sides. -/
theorem catchBreakDown {Q : α → Prop} {x y : Step α} (keep : Nat) (hxy : Parallel L Q x y) :
    Parallel L (fun _ => True) (x.catchBreakDown keep) (y.catchBreakDown keep) := by
  induction hxy with
  | done hs _ => exact .done hs trivial
  | @stop t t' why hs =>
    cases why with
    | outOfFuel => exact .stop hs
    | breakDown message =>
      simp only [Step.catchBreakDown]
      rw [hL.current_eq hs]
      exact .done (hL.unwind t.current keep hs) trivial
  | wait hs hon _ ih => exact .wait hs hon ih
  | pause hp hsignal hs _ ih => exact .pause hp hsignal hs ih
  | lag hp hsignal hs _ ih => exact .lag hp hsignal hs ih
  | lost hk hx =>
    exact .lost hk (.catchBreakDown habits_accrues.letGo keep (hx.on habits_accrues.toLaw))

/-- **Scripts are their own twins**, also if they break down. -/
theorem parallel_execute (fuel : Nat) (e : Engine) {run : RunId} (hrun : L.runs run)
    (script : Block) (hs : L.states s s') :
    Parallel L (fun _ => True) (e.execute fuel run script s) (e.execute fuel run script s') := by
  have hprogram : Twin L _ ((Evaluator.ofFuel run fuel).program script e.scope) :=
    (hL.rules.obedient hrun fuel).program hL.rules trivial (Block.in_all script)
  have hkeep : s'.holdCount s'.current = s.holdCount s.current := by
    unfold EngineState.holdCount
    rw [hL.held_eq hs, hL.current_eq hs]
  have hguarded : Parallel L (fun _ => True)
      (Task.guarded ((Evaluator.ofFuel run fuel).program script e.scope).run s)
      (Task.guarded ((Evaluator.ofFuel run fuel).program script e.scope).run s') := by
    unfold Task.guarded
    rw [hkeep]
    exact hL.catchBreakDown _ (hprogram.parallel hs)
  refine hguarded.bind (fun r t t' ht _ => ?_) fun r t ht _ => ?_
  · match r with
    | .ok (.ok v) | .ok (.error error) | .error message => exact .done ht trivial
  · match r with
    | .ok (.ok v) | .ok (.error error) | .error message => exact ⟨ht, trivial⟩

end Likeness.Robust

/-! ## Lockstep -/

/-- Resumed in states that are alike, the tasks run in parallel. -/
def ResumeTwins (L : Likeness) (resume resume' : EngineState → Step α) : Prop :=
  ∀ {s s'}, L.states s s' → Parallel L (fun _ => True) (resume s) (resume' s')

/-- A task and its twin. -/
structure Suspended.Twins (L : Likeness) (t t' : Suspended α) : Prop where
  task : t'.task = t.task
  on : t'.on = t.on
  resume : ResumeTwins L t.resume t'.resume

/-- The tasks in the foreground. -/
structure Foreground.Twins (L : Likeness) (main main' : Foreground α) : Prop where
  on : main'.on = main.on
  woken : main'.woken = main.woken
  resume : ResumeTwins L main.resume main'.resume

/-- Tasks and their twins, in the same order. -/
abbrev AllTwins (L : Likeness) : List (Suspended Unit) → List (Suspended Unit) → Prop :=
  List.Forall₂ (Suspended.Twins L)

/-- **Schedulers in lockstep**: the states are alike, and so are the tasks. -/
structure Scheduler.Twins (L : Likeness) (sch sch' : Scheduler) : Prop where
  state : L.states sch.state sch'.state
  ready : AllTwins L sch.ready sch'.ready
  parked : AllTwins L sch.parked sch'.parked
  yielded : AllTwins L sch.yielded sch'.yielded

/-- What came of something on both sides: the first one is lost, or the sides are still in lockstep.
Nothing is said if the first one has run out of fuel. -/
def Abreast (L : Likeness) (R : β → β → Prop) (x y : Except Halt (Scheduler × β)) : Prop :=
  ∀ r, x = .ok r → L.lost r.1.state ∨ ∃ r', y = .ok r' ∧ r.1.Twins L r'.1 ∧ R r.2 r'.2

theorem Foreground.Twins.sameWait {L : Likeness} {main main' : Foreground α}
    (hm : main.Twins L main') : main.SameWait main' := ⟨hm.on, hm.woken⟩

/-- The foreground tasks are still twins after a change that leaves them waiting for the same. -/
theorem Foreground.Twins.of_sameWait {L : Likeness} {main main' wait wait' : Foreground α}
    (hm : main.Twins L main') (hw : wait.SameWait wait') (hresume : wait.resume = main.resume)
    (hresume' : wait'.resume = main'.resume) : wait.Twins L wait' :=
  ⟨hw.on, hw.woken, by
    rw [hresume, hresume']
    exact hm.resume⟩

namespace Scheduler.Twins
variable {L : Likeness} {sch sch' : Scheduler} {main main' : Foreground α}

theorem paired (h : sch.Twins L sch') : sch.Paired L.states (Suspended.Twins L) sch' :=
  ⟨h.state, h.ready, h.parked, h.yielded⟩

theorem of_paired (h : sch.Paired L.states (Suspended.Twins L) sch') : sch.Twins L sch' :=
  ⟨h.state, h.ready, h.parked, h.yielded⟩

theorem suspend (h : sch.Twins L sch') {t t' : Suspended Unit} (ht : t.Twins L t') :
    (sch.suspend t).Twins L (sch'.suspend t') := of_paired (h.paired.suspend (fun ht => ht.on) ht)

variable (hL : L.InStep)
include hL

theorem settle (h : sch.Twins L sch') (fuel : Nat) {s s' : EngineState} (hs : L.states s s') :
    (sch.settle fuel s).1.Twins L (sch'.settle fuel s').1 ∧
      (sch'.settle fuel s').2 = (sch.settle fuel s).2 := by
  obtain ⟨hsettled, hns⟩ := h.paired.settle (fun ht => ht.on) fuel
    (fun task job => ⟨rfl, rfl, (hL.program fuel task job).parallel⟩) (hL.notices_eq hs) (hL.notices hs)
  exact ⟨of_paired hsettled, hns⟩

/-! ## Turns -/

omit hL in
/-- What a turn leads to is not taken back when its notices take effect. -/
theorem accrues_settle {k s : EngineState} (hs : L.accrues k s) (sch : Scheduler) (fuel : Nat) :
    L.accrues k (sch.settle fuel s).1.state :=
  develops_settle habits_accrues.discipline sch fuel hs

/-- **A turn that is taken by twins.** -/
theorem turn (h : sch.Twins L sch') (fuel : Nat) {t t' : Suspended Unit} (ht : t.Twins L t') :
    Abreast L (fun ns ns' => ns' = ns) (sch.turn fuel t) (sch'.turn fuel t') := by
  have hxy := ht.resume (hL.current t.task h.state)
  unfold Scheduler.turn
  rw [ht.task]
  generalize t.resume { sch.state with current := t.task } = x at hxy
  generalize t'.resume { sch'.state with current := t.task } = y at hxy
  intro r hr
  cases hxy with
  | done hs _ =>
    cases hr
    exact .inr ⟨_, rfl, h.settle hL fuel hs⟩
  | wait hs hon hresume =>
    cases hr
    cases hL.waits_eq hon
    obtain ⟨hsettled, hns⟩ := h.settle hL fuel hs
    exact .inr ⟨_, rfl, hsettled.suspend ⟨rfl, rfl, fun hs => hresume _ _ hs⟩, hns⟩
  | stop hs =>
    rename_i why
    cases why with
    | outOfFuel => cases hr
    | breakDown message =>
      cases hr
      exact .inr ⟨_, rfl, h.settle hL fuel (hL.unwind t.task 0 hs)⟩
  | pause hp | lag hp => exact absurd hp hL.steady
  | lost hk hx =>
    refine .inl (hL.lost_stays ?_ hk)
    match x, hr with
    | .done s (), rfl => exact accrues_settle hx.1 sch fuel
    | .wait s on resume, rfl =>
      rw [suspend_state]
      exact accrues_settle hx.1 sch fuel
    | .stop s (.breakDown message), rfl =>
      exact accrues_settle (habits_accrues.discipline.unwind t.task 0 hx) sch fuel

/-! ## Time -/

theorem idle (h : sch.Twins L sch') (hm : main.Twins L main') (deadline : Nat) :
    (sch.idle main deadline).1.Twins L (sch'.idle main' deadline).1 ∧
      (sch.idle main deadline).2.Twins L (sch'.idle main' deadline).2 := by
  obtain ⟨hidle, hw⟩ := h.paired.idle (fun ht => ht.on) hm.sameWait
    (fun hs => ⟨hL.now_eq hs, hL.signals_eq hs⟩) hL.now deadline
  exact ⟨of_paired hidle, hm.of_sameWait hw (idle_resume _ _ _) (idle_resume _ _ _)⟩

/-! ## Runs in the foreground -/

omit hL in
/-- What the first side does accrues. -/
theorem discipline : Discipline id L.accrues := habits_accrues.discipline

/-- Turns of tasks in the background, however many there are. -/
theorem batch {fuel deadline : Nat} (turns : Nat) (h : sch.Twins L sch')
    (hsafe : sch.Safe id L.accrues) (hm : main.Twins L main') :
    Abreast L (Foreground.Twins L) (sch.batch fuel deadline turns main)
      (sch'.batch fuel deadline turns main') := by
  induction turns generalizing sch sch' main main' with
  | zero =>
    intro r hr
    cases hr
    exact .inr ⟨_, rfl, of_paired (h.paired.wakeYielded main main'),
      hm.of_sameWait (hm.sameWait.wake Wait.isTurn) rfl rfl⟩
  | succ turns ih =>
    intro r hr
    have hready := h.ready
    cases hl : sch.ready with
    | nil =>
      rw [hl] at hready
      have hl' : sch'.ready = [] := List.forall₂_nil_left_iff.mp hready
      rw [Scheduler.batch, hl] at hr
      rw [Scheduler.batch, hl']
      cases hr
      exact .inr ⟨_, rfl, h.idle hL hm deadline⟩
    | cons t rest =>
      rw [hl] at hready
      obtain ⟨t', rest', ht, hrest, hl'⟩ := List.forall₂_cons_left_iff.mp hready
      rw [batch_cons hl] at hr
      rw [batch_cons hl']
      have hothers : Scheduler.Twins L { sch with ready := rest } { sch' with ready := rest' } :=
        ⟨h.state, hrest, h.parked, h.yielded⟩
      have hsafe' : { sch with ready := rest }.Safe id L.accrues :=
        { hsafe with ready := fun x hx => hsafe.ready x (hl ▸ List.mem_cons_of_mem t hx) }
      have hturn := hothers.turn hL fuel ht
      cases heq : { sch with ready := rest }.turn fuel t with
      | error why =>
        rw [heq] at hr
        cases hr
      | ok p =>
        rw [heq] at hr
        have hlead := hsafe'.turn discipline (hsafe.ready t (hl ▸ List.mem_cons_self)) heq
        obtain hlost | ⟨p', heq', hp, hns⟩ := hturn p heq
        · have hrest := (hlead.safe.batch discipline turns hr).1
          exact .inl (hL.lost_stays hrest.develops hlost)
        · rw [heq']
          have hsettled : (main.settle p.2).Twins L (main'.settle p'.2) := by
            rw [hns]
            exact hm.of_sameWait (hm.sameWait.wake fun on => p.2.any on.endedBy) rfl rfl
          exact ih hp hlead.safe hsettled r hr

omit hL in
/-- Only running out of fuel stops more than one task. -/
theorem batch_error {fuel deadline turns : Nat} {why : Halt}
    (hr : sch.batch fuel deadline turns main = .error why) : why = .outOfFuel := by
  induction turns generalizing sch main with
  | zero => cases hr
  | succ turns ih =>
    cases hl : sch.ready with
    | nil =>
      rw [Scheduler.batch, hl] at hr
      cases hr
    | cons t rest =>
      rw [batch_cons hl] at hr
      cases heq : { sch with ready := rest }.turn fuel t with
      | ok p =>
        rw [heq] at hr
        exact ih hr
      | error e =>
        rw [heq] at hr
        cases hr
        unfold Scheduler.turn at heq
        split at heq <;> cases heq
        rfl

/-- **A run has the same outcome on both sides**, unless the first one is lost or runs out of fuel.
Whatever the scheduler does next, it does with twins, so the induction is on its turns. -/
theorem drive {fuel deadline : Nat} (turns : Nat) (h : sch.Twins L sch')
    (hsafe : sch.Safe id L.accrues) (hm : main.Twins L main')
    (hmain : SafeToResume id L.accrues sch.state main.resume)
    (hfuel : (sch.drive fuel deadline turns main).2 ≠ .stopped .outOfFuel) :
    L.lost (sch.drive fuel deadline turns main).1.state ∨
      (sch.drive fuel deadline turns main).1.Twins L (sch'.drive fuel deadline turns main').1 ∧
      (sch'.drive fuel deadline turns main').2 = (sch.drive fuel deadline turns main).2 := by
  induction turns generalizing sch sch' main main' with
  | zero => exact absurd rfl hfuel
  | succ turns ih =>
    have hresumed := hmain.resume discipline hsafe.valid 0
    have hxy := hm.resume (hL.current 0 h.state)
    by_cases hwoken : main.woken = true
    · rw [drive_woken hwoken] at hfuel ⊢
      rw [drive_woken (hm.woken.trans hwoken)]
      generalize main.resume { sch.state with current := 0 } = x at hxy hresumed hfuel ⊢
      generalize main'.resume { sch'.state with current := 0 } = y at hxy ⊢
      cases hxy with
      | done hs _ => exact .inr ⟨(h.settle hL fuel hs).1, rfl⟩
      | stop hs => exact .inr ⟨(h.settle hL fuel (hL.unwind 0 0 hs)).1, rfl⟩
      | wait hs hon hresume =>
        cases hL.waits_eq hon
        have hsettled := hsafe.settle discipline fuel hresumed.1
        refine ih (h.settle hL fuel hs).1 hsettled.safe ⟨rfl, rfl, fun hs => hresume _ _ hs⟩
          (fun s' hs' => hresumed.2 s' ?_) hfuel
        exact (accrues_settle hresumed.1.stays sch fuel).trans hs'
      | pause hp | lag hp => exact absurd hp hL.steady
      | lost hk hx =>
        exact .inl (hL.lost_stays (hsafe.proceed discipline hresumed (hx.on discipline.toLaw)) hk)
    · unfold Scheduler.drive at hfuel ⊢
      rw [hm.woken, hL.now_eq h.state, if_neg hwoken]
      rw [if_neg hwoken] at hfuel
      split
      · exact .inr ⟨of_paired (h.paired.withState (hL.unwind 0 0 h.state)), rfl⟩
      · rename_i hearly
        rw [if_neg hearly] at hfuel
        have hbatch : Abreast L _ (sch.batch fuel deadline batchSize main)
            (sch'.batch fuel deadline batchSize main') := h.batch hL batchSize hsafe hm
        cases heq : sch.batch fuel deadline batchSize main with
        | error why =>
          rw [heq, batch_error heq] at hfuel
          exact absurd rfl hfuel
        | ok r =>
          rw [heq] at hfuel
          obtain ⟨hleads, hresume⟩ := hsafe.batch discipline batchSize heq
          have hmain' : SafeToResume id L.accrues r.1.state r.2.resume := by
            rw [hresume]
            exact hmain.advance discipline.toLaw hleads.develops
          obtain hlost | ⟨r', heq', hr, hm'⟩ := hbatch r heq
          · exact .inl (hL.lost_stays (hleads.safe.drive discipline turns hmain').develops hlost)
          · rw [heq']
            exact ih hr hleads.safe hm' hmain' hfuel

/-- **Requests of the host have the same outcome on both sides**, unless the first one is lost or runs
out of fuel. -/
theorem run (h : sch.Twins L sch') (hsafe : sch.Safe id L.accrues) (fuel : Nat) {m : Task α}
    (hm : ResumeTwins L m m) (hmain : SafeToResume id L.accrues sch.state m)
    (hfuel : (sch.run fuel m).2 ≠ .stopped .outOfFuel) :
    L.lost (sch.run fuel m).1.state ∨
      (sch.run fuel m).1.Twins L (sch'.run fuel m).1 ∧ (sch'.run fuel m).2 = (sch.run fuel m).2 := by
  unfold Scheduler.run at hfuel ⊢
  rw [hL.now_eq h.state]
  exact h.drive hL fuel hsafe ⟨rfl, rfl, hm⟩ hmain hfuel

end Scheduler.Twins

/-! ## The same tasks in states that are alike -/

namespace Scheduler.IsImpartial
variable {L : Likeness} {sch : Scheduler} (hi : sch.IsImpartial L)
include hi

/-- What impartial tasks do accrues. -/
theorem safe (hL : L.InStep) : sch.Safe id L.accrues where
  valid := hL.valid sch.state
  ready t ht s _ := ((hi.ready t ht).observes s).on habits_accrues.toLaw
  parked t ht s _ := ((hi.parked t ht).observes s).on habits_accrues.toLaw
  yielded t ht s _ := ((hi.yielded t ht).observes s).on habits_accrues.toLaw

/-- **Impartial tasks are in lockstep with themselves** from states that are alike. -/
theorem twins {s : EngineState} (hs : L.states sch.state s) :
    sch.Twins L { sch with state := s } := by
  have hall {ts : List (Suspended Unit)} (hts : ∀ t ∈ ts, t.IsImpartial L) : AllTwins L ts ts :=
    List.forall₂_same.mpr fun t ht => ⟨rfl, rfl, (hts t ht).parallel⟩
  exact ⟨hs, hall hi.ready, hall hi.parked, hall hi.yielded⟩

end Scheduler.IsImpartial
end ScriptEngine
