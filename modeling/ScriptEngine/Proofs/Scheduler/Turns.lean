import Mathlib.Data.List.Forall2
import ScriptEngine.Proofs.Task.Law
import ScriptEngine.Scheduler

/-! # Tasks that take turns

The scheduler lets many tasks run, one at a time.  If each of them observes a law while the others do,
then so does the whole: a scheduler is **safe** for a law (`Scheduler.Safe`) if every task that it may
resume observes the law, and whatever the scheduler does keeps it safe and obeys the law
(`Scheduler.Leads`).  The law must allow what the scheduler itself writes (the clock, the notices,
which task runs), must allow a task to let go of what it holds, and must be observed by every job that
there is a notice about (`Discipline`).
-/
namespace ScriptEngine

variable {κ : Type}

variable {α : Type} {view : EngineState → κ} {G : κ → κ → Prop} {k k' : κ}

/-- Resumed at any later moment, the task observes the law. -/
def SafeToResume (view : EngineState → κ) (G : κ → κ → Prop) (k : κ)
    (resume : EngineState → Step α) : Prop :=
  ∀ s, G k (view s) → ObservesOn view G (resume s) (view s)

theorem SafeToResume.advance (hG : Law G) {resume : EngineState → Step α}
    (hr : SafeToResume view G k resume) (hk : G k k') : SafeToResume view G k' resume :=
  fun s hs => hr s (hG.trans hk hs)

/-- A law that the scheduler itself obeys, and that every job which was started observes. -/
structure Discipline (view : EngineState → κ) (G : κ → κ → Prop) : Prop extends Law G where
  current : ∀ {k s} task, G k (view s) → G k (view { s with current := task })
  notices : ∀ {k s}, G k (view s) → G k (view { s with notices := #[] })
  now : ∀ {k s} t, G k (view s) → G k (view { s with now := t })
  letGo : ∀ {k s} task, G k (view s) → G k (view (s.letGoOf task))
  program : ∀ {k s} fuel task job, G k (view s) → .started task job ∈ s.notices →
    SafeToResume view G (view s) (Job.program fuel task job)

/-- Who may let go of one thing after the other may let go of everything. -/
theorem develops_unwind (hgo : ∀ {k s} task, G k (view s) → G k (view (s.letGoOf task)))
    {s : EngineState} (task : TaskId) (keep : Nat) (hs : G k (view s)) :
    G k (view (s.unwind task keep)) := by
  unfold EngineState.unwind
  induction s.holdCount task - keep with
  | zero => exact hs
  | succ n ih => exact hgo task ih

theorem Discipline.unwind (hG : Discipline view G) {s : EngineState} (task : TaskId) (keep : Nat)
    (hs : G k (view s)) : G k (view (s.unwind task keep)) :=
  develops_unwind hG.letGo task keep hs

/-- A task that breaks down lets go of what it holds. -/
theorem Observes.catchBreakDown (hgo : ∀ {k s} task, G k (view s) → G k (view (s.letGoOf task)))
    {x : Step α} (keep : Nat) (hx : ObservesOn view G x k) :
    ObservesOn view G (x.catchBreakDown keep) k := by
  induction x generalizing k with
  | done s a => exact hx
  | wait s on resume ih => exact ⟨hx.1, fun s' hs' => ih s' (hx.2 s' hs')⟩
  | stop s why =>
    cases why with
    | breakDown message => exact ⟨develops_unwind hgo s.current keep hx, trivial⟩
    | outOfFuel => exact hx

/-- A task gets its turn. -/
theorem SafeToResume.resume (hG : Discipline view G) {resume : EngineState → Step α}
    {s : EngineState} (hr : SafeToResume view G (view s) resume) (hs : G (view s) (view s))
    (task : TaskId) : ObservesOn view G (resume { s with current := task }) (view s) :=
  have hturn := hG.current task hs
  (hr _ hturn).after hG.toLaw hturn

namespace Scheduler

/-- **The scheduler is safe**: every task that it may resume observes the law. -/
structure Safe (view : EngineState → κ) (G : κ → κ → Prop) (sch : Scheduler) : Prop where
  valid : G (view sch.state) (view sch.state)
  ready : ∀ t ∈ sch.ready, SafeToResume view G (view sch.state) t.resume
  parked : ∀ t ∈ sch.parked, SafeToResume view G (view sch.state) t.resume
  yielded : ∀ t ∈ sch.yielded, SafeToResume view G (view sch.state) t.resume

/-- What leads from one safe scheduler to the next. -/
structure Leads (view : EngineState → κ) (G : κ → κ → Prop) (sch sch' : Scheduler) : Prop where
  safe : sch'.Safe view G
  develops : G (view sch.state) (view sch'.state)

variable {sch sch' : Scheduler}

theorem Safe.leads (hs : sch.Safe view G) : Leads view G sch sch := ⟨hs, hs.valid⟩

theorem Leads.trans (hG : Law G) {sch'' : Scheduler} (hl : Leads view G sch sch')
    (hl' : Leads view G sch' sch'') : Leads view G sch sch'' :=
  ⟨hl'.safe, hG.trans hl.develops hl'.develops⟩

/-- The host or a task has changed the state. -/
theorem Safe.withState (hG : Law G) (hs : sch.Safe view G) {s : EngineState}
    (hk : G (view sch.state) (view s)) : Leads view G sch { sch with state := s } where
  safe :=
    { valid := hG.stays hk
      ready := fun t ht => (hs.ready t ht).advance hG hk
      parked := fun t ht => (hs.parked t ht).advance hG hk
      yielded := fun t ht => (hs.yielded t ht).advance hG hk }
  develops := hk

theorem Safe.enqueue (hs : sch.Safe view G) {t : Suspended Unit}
    (ht : SafeToResume view G (view sch.state) t.resume) : (sch.enqueue t).Safe view G :=
  { hs with
    ready := fun x hx => by
      obtain hx | hx := List.mem_append.mp hx
      · exact hs.ready x hx
      · cases List.mem_singleton.mp hx
        exact ht }

/-- Some of the parked tasks can run again. -/
theorem Safe.wake (hs : sch.Safe view G) (p : Suspended Unit → Bool) :
    { sch with ready := sch.ready ++ (sch.parked.partition p).1,
               parked := (sch.parked.partition p).2 }.Safe view G :=
  { hs with
    ready := fun t ht => by
      obtain ht | ht := List.mem_append.mp ht
      · exact hs.ready t ht
      · rw [List.partition_eq_filter_filter] at ht
        exact hs.parked t (List.mem_filter.mp ht).1
    parked := fun t ht => by
      rw [List.partition_eq_filter_filter] at ht
      exact hs.parked t (List.mem_filter.mp ht).1 }

/-- The scheduler hears of something, and the jobs it hears of observe the law. -/
theorem Safe.notice (hs : sch.Safe view G) (fuel : Nat) {n : Notice}
    (hn : ∀ task job, n = .started task job →
      SafeToResume view G (view sch.state) (Job.program fuel task job)) :
    (sch.notice fuel n).Safe view G := by
  cases n with
  | started task job => exact hs.enqueue (hn task job rfl)
  | channel id => exact hs.wake _
  | signal id => exact hs.wake _

theorem notice_state (sch : Scheduler) (fuel : Nat) (n : Notice) :
    (sch.notice fuel n).state = sch.state := by
  cases n <;> rfl

/-- Notices change only which tasks can run. -/
theorem settle_state (sch : Scheduler) (fuel : Nat) (s : EngineState) :
    (sch.settle fuel s).1.state = { s with notices := #[] } := by
  have hfold (ns : List Notice) (sch : Scheduler) :
      (ns.foldl (Scheduler.notice fuel) sch).state = sch.state := by
    induction ns generalizing sch with
    | nil => rfl
    | cons n rest ih => exact (ih _).trans (notice_state sch fuel n)
  exact hfold _ _

/-- The state that the scheduler goes on with is one that the law allows. -/
theorem develops_settle (hG : Discipline view G) (sch : Scheduler) (fuel : Nat) {s : EngineState}
    (hk : G k (view s)) : G k (view (sch.settle fuel s).1.state) := by
  rw [settle_state]
  exact hG.notices hk

theorem Safe.settle (hG : Discipline view G) (hs : sch.Safe view G) (fuel : Nat) {s : EngineState}
    (hk : G (view sch.state) (view s)) : Leads view G sch (sch.settle fuel s).1 := by
  -- Every job among the notices observes the law from where the notices are taken away.
  have hjobs : ∀ n ∈ s.notices.toList, ∀ task job, n = .started task job →
      SafeToResume view G (view { s with notices := #[] }) (Job.program fuel task job) := by
    rintro n hn task job rfl
    have hjob := hG.program fuel task job hk (Array.mem_toList_iff.mp hn)
    exact hjob.advance hG.toLaw (hG.notices (hG.stays hk))
  have hfold (ns : List Notice) (sch : Scheduler) (hs : sch.Safe view G)
      (hns : ∀ n ∈ ns, ∀ task job, n = .started task job →
        SafeToResume view G (view sch.state) (Job.program fuel task job)) :
      (ns.foldl (Scheduler.notice fuel) sch).Safe view G := by
    induction ns generalizing sch with
    | nil => exact hs
    | cons n rest ih =>
      refine ih _ (hs.notice fuel (hns n List.mem_cons_self)) ?_
      rw [notice_state]
      exact fun x hx => hns x (List.mem_cons_of_mem n hx)
  exact ⟨hfold _ _ (hs.withState hG.toLaw (hG.notices hk)).safe hjobs, develops_settle hG sch fuel hk⟩

theorem suspend_state (sch : Scheduler) (t : Suspended Unit) :
    (sch.suspend t).state = sch.state := by
  unfold Scheduler.suspend
  split <;> rfl

theorem Safe.suspend (hs : sch.Safe view G) {t : Suspended Unit}
    (ht : SafeToResume view G (view sch.state) t.resume) : Leads view G sch (sch.suspend t) := by
  unfold Scheduler.suspend
  split
  · refine ⟨{ hs with yielded := fun x hx => ?_ }, hs.valid⟩
    obtain rfl | hx := List.mem_cons.mp hx
    · exact ht
    · exact hs.yielded x hx
  · refine ⟨{ hs with parked := fun x hx => ?_ }, hs.valid⟩
    obtain hx | hx := List.mem_append.mp hx
    · exact hs.parked x hx
    · cases List.mem_singleton.mp hx
      exact ht

/-- **One turn keeps the scheduler safe.** -/
theorem Safe.turn (hG : Discipline view G) (hs : sch.Safe view G) {fuel : Nat}
    {t : Suspended Unit} (ht : SafeToResume view G (view sch.state) t.resume)
    {r : Scheduler × List Notice} (hr : sch.turn fuel t = .ok r) : Leads view G sch r.1 := by
  have hturn := ht.resume hG hs.valid t.task
  unfold Scheduler.turn at hr
  split at hr
  · rename_i s heq
    rw [heq] at hturn
    cases hr
    exact hs.settle hG fuel hturn.1
  · rename_i s on resume heq
    rw [heq] at hturn
    cases hr
    have hsettle := hs.settle hG fuel hturn.1
    refine hsettle.trans hG.toLaw (hsettle.safe.suspend fun s' hs' => hturn.2 s' ?_)
    exact hG.trans (develops_settle hG sch fuel (hG.stays hturn.1)) hs'
  · rename_i s message heq
    rw [heq] at hturn
    cases hr
    exact hs.settle hG fuel (hG.unwind t.task 0 hturn)
  · cases hr

/-! ## Runs in the foreground -/

/-- Tasks that let others go first can run again. -/
theorem Safe.giveWay (hs : sch.Safe view G) :
    Leads view G sch { sch with ready := sch.ready ++ sch.yielded, yielded := [] } := by
  refine ⟨{ hs with ready := fun t ht => ?_, yielded := fun t ht => by cases ht }, hs.valid⟩
  obtain ht | ht := List.mem_append.mp ht
  · exact hs.ready t ht
  · exact hs.yielded t ht

theorem Safe.jump (hG : Discipline view G) (hs : sch.Safe view G) (main : Foreground α)
    (deadline : Nat) : Leads view G sch (sch.jump main deadline).1 := by
  have hstate := hs.withState hG.toLaw
    (hG.now (max sch.state.now (sch.nextMoment main.on deadline)) hs.valid)
  exact ⟨hstate.safe.wake _, hstate.develops⟩

theorem Safe.idle (hG : Discipline view G) (hs : sch.Safe view G) (main : Foreground α)
    (deadline : Nat) : Leads view G sch (sch.idle main deadline).1 := by
  unfold Scheduler.idle
  split
  · exact hs.giveWay
  · split
    · exact hs.leads
    · exact hs.jump hG main deadline

/-- The foreground task is only woken while others run. -/
theorem idle_resume (sch : Scheduler) (main : Foreground α) (deadline : Nat) :
    (sch.idle main deadline).2.resume = main.resume := by
  unfold Scheduler.idle
  split
  · rfl
  · split <;> rfl

/-- Turns of tasks in the background keep the scheduler safe, however many there are. -/
theorem Safe.batch (hG : Discipline view G) {fuel deadline : Nat} (turns : Nat)
    (hs : sch.Safe view G) {main : Foreground α} {r : Scheduler × Foreground α}
    (hr : sch.batch fuel deadline turns main = .ok r) :
    Leads view G sch r.1 ∧ r.2.resume = main.resume := by
  induction turns generalizing sch main with
  | zero =>
    cases hr
    exact ⟨hs.giveWay, rfl⟩
  | succ turns ih =>
    unfold Scheduler.batch at hr
    split at hr
    · cases hr
      exact ⟨hs.idle hG main deadline, idle_resume sch main deadline⟩
    · rename_i t rest hready
      -- The task that takes the turn is no longer among those that wait for theirs.
      have hrest : { sch with ready := rest }.Safe view G :=
        { hs with ready := fun x hx => hs.ready x (hready ▸ List.mem_cons_of_mem t hx) }
      cases hturn : { sch with ready := rest }.turn fuel t with
      | error why =>
        rw [hturn] at hr
        cases hr
      | ok p =>
        rw [hturn] at hr
        have hlead := hrest.turn hG (hs.ready t (hready ▸ List.mem_cons_self)) hturn
        obtain ⟨hbatch, hresume⟩ := ih hlead.safe hr
        exact ⟨⟨hbatch.safe, hG.trans hlead.develops hbatch.develops⟩, hresume⟩

/-- What becomes of a step of the foreground task. -/
def proceed (fuel deadline turns : Nat) (sch : Scheduler) : Step α → Scheduler × Finish α
  | .done s a => ((sch.settle fuel s).1, .done a)
  | .stop s why => ((sch.settle fuel (s.unwind 0 0)).1, .stopped why)
  | .wait s on resume => drive fuel deadline turns (sch.settle fuel s).1 { on, resume }

theorem drive_woken {main : Foreground α} (hwoken : main.woken = true) (fuel deadline turns : Nat)
    (sch : Scheduler) :
    sch.drive fuel deadline (turns + 1) main =
      sch.proceed fuel deadline turns (main.resume { sch.state with current := 0 }) := by
  unfold drive
  rw [if_pos hwoken]
  cases main.resume { sch.state with current := 0 } <;> rfl

end Scheduler

/-! ## Whatever the scheduler does -/

/-- **What the scheduler does keeps the property**: that a task that can run takes a turn, that the
foreground task comes to an end, that those that let others go first can run again, and that time
passes. -/
structure TurnsKeep (R : (α : Type) → Scheduler → Option (Foreground α) → Prop) : Prop where
  turn : ∀ {α sch main}, R α sch main → ∀ (fuel : Nat) (before after : List (Suspended Unit)) {t r},
    sch.ready = before ++ t :: after → { sch with ready := before ++ after }.turn fuel t = .ok r →
    R α r.1 (main.map (·.settle r.2))
  pause : ∀ {α sch} {main : Foreground α}, R α sch (some main) → main.woken = true →
    ∀ (fuel : Nat) {s on resume},
      main.resume { sch.state with current := 0 } = .wait s on resume →
      R α (sch.settle fuel s).1 (some { on, resume })
  finish : ∀ {α β sch} {main : Foreground α}, R α sch (some main) → main.woken = true →
    ∀ (fuel : Nat) {s a}, main.resume { sch.state with current := 0 } = .done s a →
      R β (sch.settle fuel s).1 none
  stop : ∀ {α β sch} {main : Foreground α}, R α sch (some main) → main.woken = true →
    ∀ (fuel : Nat) {s why}, main.resume { sch.state with current := 0 } = .stop s why →
      R β (sch.settle fuel (s.unwind 0 0)).1 none
  giveUp : ∀ {α β sch} {main : Foreground α}, R α sch (some main) →
    R β { sch with state := sch.state.unwind 0 0 } none
  abandon : ∀ {α β sch} {main : Foreground α}, R α sch (some main) → R β sch none
  giveWay : ∀ {α sch main}, R α sch main →
    R α { sch with ready := sch.ready ++ sch.yielded, yielded := [] }
      (main.map fun f => { f with woken := f.woken || f.on.isTurn })
  pass : ∀ {α sch main} {s : EngineState} (now : Nat), R α sch main → sch.state.now ≤ now →
    s = { sch.state with now } →
    R α
      { sch with
        state := s
        ready := sch.ready ++ (sch.parked.partition (·.on.isDue s)).1
        parked := (sch.parked.partition (·.on.isDue s)).2 }
      (main.map (·.wakeDue s))

namespace TurnsKeep
variable {R : (α : Type) → Scheduler → Option (Foreground α) → Prop} (hR : TurnsKeep R)
  {α β : Type} {sch : Scheduler}
include hR

theorem idle {main : Foreground α} (hr : R α sch (some main)) (deadline : Nat) :
    R α (sch.idle main deadline).1 (some (sch.idle main deadline).2) := by
  unfold Scheduler.idle
  split
  · exact hR.giveWay hr
  · split
    · exact hr
    · exact hR.pass _ hr (Nat.le_max_left _ _) rfl

theorem batch {fuel deadline : Nat} (turns : Nat) {main : Foreground α}
    (hr : R α sch (some main)) {r : Scheduler × Foreground α}
    (hbatch : sch.batch fuel deadline turns main = .ok r) : R α r.1 (some r.2) := by
  induction turns generalizing sch main with
  | zero =>
    cases hbatch
    exact hR.giveWay hr
  | succ turns ih =>
    unfold Scheduler.batch at hbatch
    split at hbatch
    · cases hbatch
      exact hR.idle hr deadline
    · rename_i t rest hready
      cases hturn : { sch with ready := rest }.turn fuel t with
      | error why =>
        rw [hturn] at hbatch
        cases hbatch
      | ok p =>
        rw [hturn] at hbatch
        exact ih (hR.turn hr fuel [] rest hready hturn) hbatch

/-- **What the scheduler leaves behind has the property**, whatever becomes of the foreground task. -/
theorem drive {fuel deadline : Nat} (turns : Nat) {main : Foreground α}
    (hr : R α sch (some main)) : R β (sch.drive fuel deadline turns main).1 none := by
  induction turns generalizing sch main with
  | zero => exact hR.abandon hr
  | succ turns ih =>
    unfold Scheduler.drive
    split
    · rename_i hwoken
      split
      · rename_i s a hturn
        exact hR.finish hr hwoken fuel hturn
      · rename_i s why hturn
        exact hR.stop hr hwoken fuel hturn
      · rename_i s on resume hturn
        exact ih (hR.pause hr hwoken fuel hturn)
    · split
      · exact hR.giveUp hr
      · split
        · rename_i sch₁ main₁ hbatch
          exact ih (hR.batch _ hr hbatch)
        · exact hR.abandon hr

end TurnsKeep

/-! ## Laws, in any order of turns -/

namespace Scheduler

variable {sch : Scheduler}

/-- The scheduler and the task in the foreground are safe, at a moment that the law allows. -/
structure SafeWith (view : EngineState → κ) (G : κ → κ → Prop) (k : κ) (sch : Scheduler)
    (main : Option (Foreground α)) : Prop where
  safe : sch.Safe view G
  develops : G k (view sch.state)
  foreground : ∀ f ∈ main, SafeToResume view G (view sch.state) f.resume

namespace SafeWith
variable {main : Option (Foreground α)} (hs : SafeWith view G k sch main)
include hs

/-- The others have moved on, and the task in the foreground bears that. -/
theorem leads (hG : Law G) {sch' : Scheduler} (hl : Leads view G sch sch')
    {wake : Foreground α → Foreground α} (hwake : ∀ f, (wake f).resume = f.resume) :
    SafeWith view G k sch' (main.map wake) where
  safe := hl.safe
  develops := hG.trans hs.develops hl.develops
  foreground f hf := by
    obtain ⟨g, hg, rfl⟩ := Option.map_eq_some_iff.mp hf
    rw [hwake]
    exact (hs.foreground g hg).advance hG hl.develops

/-- There is no task in the foreground any more. -/
theorem ended {β : Type} (hG : Law G) {sch' : Scheduler} (hl : Leads view G sch sch') :
    SafeWith view G k sch' (none : Option (Foreground β)) where
  safe := hl.safe
  develops := hG.trans hs.develops hl.develops
  foreground f hf := by cases hf

end SafeWith

/-- **A law that tasks observe holds in whatever order they take their turns.** -/
theorem turnsKeep_safe (hG : Discipline view G) (k : κ) :
    TurnsKeep fun _ => SafeWith view G k where
  turn {α sch main} hs fuel before after t r hready hturn := by
    -- The task that takes the turn is no longer among those that wait for theirs.
    have hrest : { sch with ready := before ++ after }.Safe view G :=
      { hs.safe with
        ready := fun x hx => hs.safe.ready x (hready ▸ by
          obtain hx | hx := List.mem_append.mp hx
          · exact List.mem_append_left _ hx
          · exact List.mem_append_right _ (List.mem_cons_of_mem t hx)) }
    have ht : t ∈ sch.ready := hready ▸ List.mem_append_right before List.mem_cons_self
    have hlead := hrest.turn hG (hs.safe.ready t ht) hturn
    exact hs.leads hG.toLaw ⟨hlead.safe, hlead.develops⟩ fun _ => rfl
  pause {α sch main} hs _ fuel s on resume hturn := by
    have hresumed := (hs.foreground main rfl).resume hG hs.safe.valid 0
    rw [hturn] at hresumed
    have hsettle := hs.safe.settle hG fuel hresumed.1
    refine ⟨hsettle.safe, hG.trans hs.develops hsettle.develops, fun f hf s' hs' => ?_⟩
    cases hf
    exact hresumed.2 s' (hG.trans (develops_settle hG sch fuel (hG.stays hresumed.1)) hs')
  finish {α β sch main} hs _ fuel s a hturn := by
    have hresumed := (hs.foreground main rfl).resume hG hs.safe.valid 0
    rw [hturn] at hresumed
    exact hs.ended hG.toLaw (hs.safe.settle hG fuel hresumed.1)
  stop {α β sch main} hs _ fuel s why hturn := by
    have hresumed := (hs.foreground main rfl).resume hG hs.safe.valid 0
    rw [hturn] at hresumed
    exact hs.ended hG.toLaw (hs.safe.settle hG fuel (hG.unwind 0 0 hresumed))
  giveUp hs := hs.ended hG.toLaw (hs.safe.withState hG.toLaw (hG.unwind 0 0 hs.safe.valid))
  abandon hs := hs.ended hG.toLaw hs.safe.leads
  giveWay hs := hs.leads hG.toLaw hs.safe.giveWay fun _ => rfl
  pass {α sch main s} now hs _ heq := by
    subst heq
    have hlater := hs.safe.withState hG.toLaw (hG.now now hs.safe.valid)
    exact hs.leads hG.toLaw ⟨hlater.safe.wake _, hlater.develops⟩ fun _ => rfl

/-- **A run keeps the scheduler safe**, whatever becomes of the task in the foreground. -/
theorem Safe.drive (hG : Discipline view G) {fuel deadline : Nat} (turns : Nat)
    (hs : sch.Safe view G) {main : Foreground α}
    (hmain : SafeToResume view G (view sch.state) main.resume) :
    Leads view G sch (sch.drive fuel deadline turns main).1 := by
  have hstart : SafeWith view G (view sch.state) sch (some main) :=
    ⟨hs, hs.valid, fun f hf => Option.some.inj hf ▸ hmain⟩
  have hend : SafeWith view G (view sch.state) (sch.drive fuel deadline turns main).1
      (none : Option (Foreground α)) :=
    (turnsKeep_safe hG (view sch.state)).drive turns hstart
  exact ⟨hend.safe, hend.develops⟩

/-- What a step of the foreground task leads to is lawful, also from a moment within the step. -/
theorem Safe.proceed (hG : Discipline view G) (hs : sch.Safe view G) {x : Step α}
    (hx : ObservesOn view G x (view sch.state)) (hk : ObservesOn view G x k)
    {fuel deadline turns : Nat} : G k (view (sch.proceed fuel deadline turns x).1.state) := by
  cases x with
  | done s a => exact develops_settle hG sch fuel hk.1
  | stop s why => exact develops_settle hG sch fuel (hG.unwind 0 0 hk)
  | wait s on resume =>
    have hsettle := hs.settle hG fuel hx.1
    refine hG.trans (develops_settle hG sch fuel hk.1) (hsettle.safe.drive hG turns ?_).develops
    exact fun s' hs' => hx.2 s' (hG.trans (develops_settle hG sch fuel (hG.stays hx.1)) hs')

/-- **What a task in the foreground may leave behind**, and the others that take turns meanwhile: it has
every property that turns keep.  Which of the tasks that can run is next is left open, and so are when
time passes and when the host gives the task up. -/
def MayLeave (sch : Scheduler) (m : Task α) (sch' : Scheduler) : Prop :=
  ∀ R : (α : Type) → Scheduler → Option (Foreground α) → Prop, TurnsKeep R →
    R α sch (some { on := .turn, resume := m, woken := true }) → R Unit sch' none

/-- One order is that of the scheduler itself. -/
theorem mayLeave_run (sch : Scheduler) (fuel : Nat) (m : Task α) :
    sch.MayLeave m (sch.run fuel m).1 :=
  fun _ hR hr => hR.drive fuel hr

/-- **Whatever a task leaves behind is safe**, if all tasks observe the law. -/
theorem Safe.leaves (hG : Discipline view G) (hs : sch.Safe view G) {m : Task α}
    (hm : SafeToResume view G (view sch.state) m) {sch' : Scheduler} (hleaves : sch.MayLeave m sch') :
    Leads view G sch sch' := by
  have hend := hleaves _ (turnsKeep_safe hG (view sch.state))
    ⟨hs, hs.valid, fun f hf => Option.some.inj hf ▸ hm⟩
  exact ⟨hend.safe, hend.develops⟩

theorem Safe.run (hG : Discipline view G) (hs : sch.Safe view G) (fuel : Nat) {m : Task α}
    (hm : SafeToResume view G (view sch.state) m) : Leads view G sch (sch.run fuel m).1 :=
  hs.leaves hG hm (sch.mayLeave_run fuel m)

end Scheduler

end ScriptEngine

/-! ## Schedulers with tasks in pairs

Two schedulers are **paired** if their tasks are, in the same order (`Scheduler.Paired`), and the tasks of
a pair wait for the same.  Between turns a scheduler looks at the waits of its tasks, at the clock and at
notices, and at nothing else; so schedulers that are paired stay so between turns, if the states on both
sides show the same time and the same notices.
-/
namespace ScriptEngine

variable {α : Type}

/-- The tasks in the foreground wait for the same, and both have been woken or neither. -/
structure Foreground.SameWait (main main' : Foreground α) : Prop where
  on : main'.on = main.on
  woken : main'.woken = main.woken

theorem Foreground.SameWait.wake {main main' : Foreground α} (hm : main.SameWait main')
    (b : Wait → Bool) : Foreground.SameWait { main with woken := main.woken || b main.on }
      { main' with woken := main'.woken || b main'.on } :=
  ⟨hm.on, by rw [hm.on, hm.woken]⟩

/-- Both states show the same time and the same signals. -/
structure EngineState.SameClock (s s' : EngineState) : Prop where
  now : s'.now = s.now
  signals : s'.signals = s.signals

namespace EngineState.SameClock
variable {s s' : EngineState} (hs : s.SameClock s')
include hs

/-- The same waits end at the same moments. -/
theorem moments_eq : Wait.moments s' = Wait.moments s := by
  funext on
  unfold Wait.moments Wait.deadline? EngineState.signal
  rw [hs.signals]

theorem isDue_eq : Wait.isDue s' = Wait.isDue s := by
  funext on
  unfold Wait.isDue
  rw [hs.moments_eq, hs.now]

end EngineState.SameClock

/-- **Schedulers with tasks in pairs**, in states of which `S` holds. -/
structure Scheduler.Paired (S : EngineState → EngineState → Prop)
    (R : Suspended Unit → Suspended Unit → Prop) (sch sch' : Scheduler) : Prop where
  state : S sch.state sch'.state
  ready : List.Forall₂ R sch.ready sch'.ready
  parked : List.Forall₂ R sch.parked sch'.parked
  yielded : List.Forall₂ R sch.yielded sch'.yielded

namespace Scheduler.Paired
variable {S : EngineState → EngineState → Prop} {R : Suspended Unit → Suspended Unit → Prop}
  {sch sch' : Scheduler} {main main' : Foreground α}

theorem withState (h : sch.Paired S R sch') {S' : EngineState → EngineState → Prop}
    {s s' : EngineState} (hs : S' s s') :
    Scheduler.Paired S' R { sch with state := s } { sch' with state := s' } :=
  ⟨hs, h.ready, h.parked, h.yielded⟩

theorem wakeYielded (h : sch.Paired S R sch') (main main' : Foreground α) :
    (sch.wakeYielded main).1.Paired S R (sch'.wakeYielded main').1 :=
  { h with ready := List.rel_append h.ready h.yielded, yielded := .nil }

theorem enqueue (h : sch.Paired S R sch') {t t' : Suspended Unit} (ht : R t t') :
    (sch.enqueue t).Paired S R (sch'.enqueue t') :=
  { h with ready := List.rel_append h.ready (.cons ht .nil) }

section
variable (hon : ∀ {t t'}, R t t' → t'.on = t.on)
include hon

/-- Tasks are chosen alike if the choice depends on their waits only. -/
theorem filter_on (p : Wait → Bool) {ts ts' : List (Suspended Unit)} (h : List.Forall₂ R ts ts') :
    List.Forall₂ R (ts.filter (p ·.on)) (ts'.filter (p ·.on)) := by
  induction h with
  | nil => exact .nil
  | @cons t t' _ _ ht _ ih =>
    rw [List.filter_cons, List.filter_cons, hon ht]
    split
    · exact .cons ht ih
    · exact ih

theorem flatMap_on {γ : Type} (f : Wait → List γ) {ts ts' : List (Suspended Unit)}
    (h : List.Forall₂ R ts ts') : ts'.flatMap (f ·.on) = ts.flatMap (f ·.on) := by
  induction h with
  | nil => rfl
  | cons ht _ ih => rw [List.flatMap_cons, List.flatMap_cons, hon ht, ih]

theorem wake (h : sch.Paired S R sch') (p : Wait → Bool) :
    Scheduler.Paired S R
      { sch with
        ready := sch.ready ++ (sch.parked.partition (p ·.on)).1
        parked := (sch.parked.partition (p ·.on)).2 }
      { sch' with
        ready := sch'.ready ++ (sch'.parked.partition (p ·.on)).1
        parked := (sch'.parked.partition (p ·.on)).2 } := by
  simp only [List.partition_eq_filter_filter]
  exact { h with
    ready := List.rel_append h.ready (filter_on hon p h.parked)
    parked := filter_on hon (fun on => !p on) h.parked }

theorem suspend (h : sch.Paired S R sch') {t t' : Suspended Unit} (ht : R t t') :
    (sch.suspend t).Paired S R (sch'.suspend t') := by
  unfold Scheduler.suspend
  rw [hon ht]
  split
  · exact { h with yielded := .cons ht h.yielded }
  · exact { h with parked := List.rel_append h.parked (.cons ht .nil) }

/-! ## Notices -/

/-- A notice has the same effect on both sides, if the jobs that are started are paired. -/
theorem notice (h : sch.Paired S R sch') (fuel : Nat)
    (hjob : ∀ task job, R ⟨task, .turn, Job.program fuel task job⟩ ⟨task, .turn, job.program fuel task⟩)
    (n : Notice) : (sch.notice fuel n).Paired S R (sch'.notice fuel n) := by
  cases n with
  | started task job => exact h.enqueue (hjob task job)
  | channel chan => exact h.wake hon (·.endedBy (.channel chan))
  | signal id => exact h.wake hon (·.endedBy (.signal id))

theorem settle (h : sch.Paired S R sch') (fuel : Nat)
    (hjob : ∀ task job, R ⟨task, .turn, Job.program fuel task job⟩ ⟨task, .turn, job.program fuel task⟩)
    {S' : EngineState → EngineState → Prop} {s s' : EngineState} (hnotices : s'.notices = s.notices)
    (hs : S' { s with notices := #[] } { s' with notices := #[] }) :
    (sch.settle fuel s).1.Paired S' R (sch'.settle fuel s').1 ∧
      (sch'.settle fuel s').2 = (sch.settle fuel s).2 := by
  have hfold (ns : List Notice) {sch sch' : Scheduler} (h : sch.Paired S' R sch') :
      (ns.foldl (Scheduler.notice fuel) sch).Paired S' R (ns.foldl (Scheduler.notice fuel) sch') := by
    induction ns generalizing sch sch' with
    | nil => exact h
    | cons n rest ih => exact ih (h.notice hon fuel hjob n)
  unfold Scheduler.settle
  rw [hnotices]
  exact ⟨hfold _ (h.withState hs), rfl⟩

/-! ## Time -/

variable (hm : main.SameWait main') (hclock : ∀ {s s'}, S s s' → s.SameClock s')
  (hnow : ∀ {s s'} t, S s s' → S { s with now := t } { s' with now := t })
include hm hclock hnow

theorem jump (h : sch.Paired S R sch') (deadline : Nat) :
    (sch.jump main deadline).1.Paired S R (sch'.jump main' deadline).1 ∧
      (sch.jump main deadline).2.SameWait (sch'.jump main' deadline).2 := by
  have hs := hclock h.state
  have hnext : sch'.nextMoment main'.on deadline = sch.nextMoment main.on deadline := by
    unfold Scheduler.nextMoment
    rw [flatMap_on hon (·.moments sch'.state) h.parked, hm.on, hs.moments_eq]
  have hstate := hnow (max sch.state.now (sch.nextMoment main.on deadline)) h.state
  simp only [Scheduler.jump, Foreground.wakeDue, hnext, hs.now, (hclock hstate).isDue_eq]
  exact ⟨(h.withState hstate).wake hon _, hm.wake _⟩

theorem idle (h : sch.Paired S R sch') (deadline : Nat) :
    (sch.idle main deadline).1.Paired S R (sch'.idle main' deadline).1 ∧
      (sch.idle main deadline).2.SameWait (sch'.idle main' deadline).2 := by
  have hempty : sch'.yielded.isEmpty = sch.yielded.isEmpty := by
    rw [Bool.eq_iff_iff, List.isEmpty_iff, List.isEmpty_iff, ← List.length_eq_zero_iff,
      ← List.length_eq_zero_iff, h.yielded.length_eq]
  unfold Scheduler.idle
  rw [hempty, hm.on, hm.woken]
  split
  · exact ⟨h.wakeYielded main main', hm.wake Wait.isTurn⟩
  · split
    · exact ⟨h, hm⟩
    · exact h.jump hon hm hclock hnow deadline

end
end Scheduler.Paired

namespace Scheduler
variable {sch : Scheduler} {main : Foreground α}

/-- The first task that can run takes its turn, then the others. -/
theorem batch_cons {t : Suspended Unit} {rest : List (Suspended Unit)} (hl : sch.ready = t :: rest)
    (fuel deadline turns : Nat) (main : Foreground α) :
    sch.batch fuel deadline (turns + 1) main =
      ({ sch with ready := rest }.turn fuel t).bind
        fun p => p.1.batch fuel deadline turns (main.settle p.2) := by
  rw [batch, hl]
  rfl

end Scheduler
end ScriptEngine
