import ScriptEngine.Proofs.Channel.Operations
import ScriptEngine.Proofs.Evaluator.Watching
import ScriptEngine.Proofs.Scheduler.Turns

/-! # Tasks that watch while they take turns

Every task of a scheduler is at rest, except the one whose turn it is.  If all of them watch, then the
scheduler is **watched** (`Watched`): each task can be resumed, and each task that waits for a channel
has reason to wait, or else a notice is pending that ends its wait.  Whoever acts makes known what it
does, so a turn, a step of the host and a notice that takes effect all keep a scheduler watched.

No two tasks have the same number, so nobody but a task itself changes what it holds; this is why what
a task knew when it began to wait stays true until it is told.  It also finds again what it held, in
whatever order the others have taken their turns (`Meanwhile.kept`): a task in the foreground goes along a
path on which the others leave it undisturbed (`Watched.drive_amid`).
-/
namespace ScriptEngine

open EngineState

variable {α β : Type}

/-! ## Tasks at rest -/

/-- The task can be resumed at any time at which it holds what it holds now. -/
def Rests (s : EngineState) (task : TaskId) (resume : EngineState → Step α) : Prop :=
  ∃ xs keep, s.held.get? task = some xs ∧
    ∀ s', s'.current = task → s'.held.get? task = some xs → WatchesOn task keep (resume s') s'

/-- The task that waits need not look: the operations it waits for could not be made, and it holds
their channels; unless a notice that ends its wait is pending. -/
def Alert (pending : List Notice) (s : EngineState) (task : TaskId) (on : Wait) : Prop :=
  (∃ n ∈ pending, on.endedBy n = true) ∨
    on.Pends s.heap ∧ ∃ xs, s.held.get? task = some xs ∧ ∀ id ∈ on.channels, HoldsChan xs id

section
variable {who : Option TaskId} {s s' : EngineState} {task : TaskId}

theorem Rests.held {resume : EngineState → Step α} (hr : Rests s task resume) :
    ∃ xs, s.held.get? task = some xs := by
  obtain ⟨xs, -, hx, -⟩ := hr
  exact ⟨xs, hx⟩

theorem Rests.tells {resume : EngineState → Step α} (hr : Rests s task resume)
    (ht : Tells who s s') (hne : some task ≠ who) : Rests s' task resume := by
  obtain ⟨xs, keep, hx, hwatches⟩ := hr
  exact ⟨xs, keep, ht.held task xs hne hx, hwatches⟩

/-- **What others do does not go unnoticed.** -/
theorem Alert.tells {on : Wait} (ha : Alert s.notices.toList s task on) (ht : Tells who s s')
    (hne : some task ≠ who) : Alert s'.notices.toList s' task on := by
  rcases ha with ⟨n, hn, hends⟩ | ⟨hpends, xs, hx, hholds⟩
  · exact .inl ⟨n, ht.mem_notices hn, hends⟩
  · by_cases htold : ∃ id ∈ on.channels, Notice.channel id ∈ s'.notices.toList
    -- Told of a channel it waits for, the task has a notice that ends its wait.
    · obtain ⟨id, hid, hn⟩ := htold
      refine .inl ⟨.channel id, hn, ?_⟩
      exact List.contains_iff_mem.mpr hid
    -- Told of none of them, it finds them all as they were, or with fewer that wait.
    · refine .inr ⟨fun p hp => ?_, xs, ht.held task xs hne hx, hholds⟩
      have hid : p.1 ∈ on.channels := by
        rw [Wait.channels_eq]
        exact List.mem_map_of_mem hp
      obtain ⟨c, hc, hn⟩ := hpends p hp
      rcases ht.chans task xs p.1 c hne hx (hholds p.1 hid) hc with hn' | ⟨c', hc', hcalm⟩
      · exact absurd ⟨p.1, hid, hn'⟩ htold
      · exact ⟨c', hc', hn.calm hcalm⟩

end

/-! ## The invariant -/

/-- All tasks in the background. -/
def Scheduler.tasks (sch : Scheduler) : List (Suspended Unit) :=
  sch.ready ++ sch.parked ++ sch.yielded

/-- **Every task of the scheduler watches**, and every task that waits has reason to; `pending` are
the notices that have not taken effect yet.  The foreground task has the number 0. -/
structure Watched (pending : List Notice) (sch : Scheduler) (main : Option (Foreground α)) :
    Prop where
  nodup : (0 :: sch.tasks.map (·.task) ++ startedIn pending).Nodup
  held_zero : ∃ xs, sch.state.held.get? 0 = some xs
  started : ∀ task ∈ startedIn pending, ∃ xs, sch.state.held.get? task = some xs
  rests : ∀ t ∈ sch.tasks, Rests sch.state t.task t.resume
  parked : ∀ t ∈ sch.parked, Alert pending sch.state t.task t.on
  foreground : ∀ f ∈ main, Rests sch.state 0 f.resume ∧
    (f.woken = true ∨ Alert pending sch.state 0 f.on)

theorem Scheduler.notices_turn {sch : Scheduler} {fuel : Nat} {t : Suspended Unit}
    {r : Scheduler × List Notice} (hturn : sch.turn fuel t = .ok r) : r.1.state.notices = #[] := by
  unfold Scheduler.turn at hturn
  split at hturn
  · cases hturn
    rw [Scheduler.settle_state]
  · rename_i s on resume _
    cases hturn
    show ((sch.settle fuel s).1.suspend ⟨t.task, on, resume⟩).state.notices = #[]
    rw [Scheduler.suspend_state, Scheduler.settle_state]
  · cases hturn
    rw [Scheduler.settle_state]
  · cases hturn

namespace Watched
variable {pending : List Notice} {sch sch' : Scheduler} {main : Option (Foreground α)}

theorem lt_next (hw : Watched pending sch main) {task : TaskId}
    (ht : task ∈ 0 :: sch.tasks.map (·.task) ++ startedIn pending) :
    task < sch.state.held.next := by
  have hheld : ∃ xs, sch.state.held.get? task = some xs := by
    rcases List.mem_append.mp ht with ht | ht
    · rcases List.mem_cons.mp ht with rfl | ht
      · exact hw.held_zero
      · obtain ⟨t, hmem, rfl⟩ := List.mem_map.mp ht
        exact (hw.rests t hmem).held
    · exact hw.started task ht
  obtain ⟨xs, hx⟩ := hheld
  exact Store.lt_next hx

/-- Somebody who is not one of these tasks has done something that was made known. -/
theorem tells (hw : Watched sch.state.notices.toList sch main) {who : Option TaskId}
    {s : EngineState} (ht : Tells who sch.state s)
    (hwho : ∀ task ∈ sch.tasks.map (·.task) ++ startedIn sch.state.notices.toList, some task ≠ who)
    (hmain : who = some 0 → main = none) (hzero : ∃ xs, s.held.get? 0 = some xs) :
    Watched s.notices.toList { sch with state := s } main where
  nodup := by
    obtain ⟨new, hnew, hnodup, htasks⟩ := ht.news
    rw [hnew, startedIn_append, ← List.append_assoc]
    -- Whoever is known already has holdings, and the numbers of new tasks lie beyond those.
    refine List.nodup_append.mpr ⟨hw.nodup, hnodup, fun task hold other hother => ?_⟩
    exact Nat.ne_of_lt (Nat.lt_of_lt_of_le (hw.lt_next hold) (htasks other hother).1)
  held_zero := hzero
  started task htask := by
    obtain ⟨new, hnew, -, htasks⟩ := ht.news
    rw [hnew, startedIn_append] at htask
    rcases List.mem_append.mp htask with htask | htask
    · obtain ⟨xs, hx⟩ := hw.started task htask
      exact ⟨xs, ht.held task xs (hwho task (List.mem_append_right _ htask)) hx⟩
    · exact (htasks task htask).2.2
  rests t hmem :=
    (hw.rests t hmem).tells ht (hwho _ (List.mem_append_left _ (List.mem_map_of_mem hmem)))
  parked t hmem := by
    have hmem' : t ∈ sch.tasks := List.mem_append_left _ (List.mem_append_right _ hmem)
    exact (hw.parked t hmem).tells ht (hwho _ (List.mem_append_left _ (List.mem_map_of_mem hmem')))
  foreground f hf := by
    have hne : some 0 ≠ who := by
      intro hwho
      rw [hmain hwho.symm] at hf
      cases hf
    obtain ⟨hrests, hwait⟩ := hw.foreground f hf
    exact ⟨hrests.tells ht hne, hwait.imp_right fun ha => ha.tells ht hne⟩

/-- The host has done something that was made known. -/
theorem host (hw : Watched sch.state.notices.toList sch main) {s : EngineState}
    (ht : Tells none sch.state s) : Watched s.notices.toList { sch with state := s } main := by
  obtain ⟨xs, hx⟩ := hw.held_zero
  exact hw.tells ht (fun _ _ => nofun) nofun ⟨xs, ht.own hx⟩

/-- Tasks change their places, and perhaps fewer of them wait. -/
theorem regroup (hw : Watched pending sch main) (hheld : sch'.state.held = sch.state.held)
    (hheap : sch'.state.heap = sch.state.heap) (hperm : sch'.tasks.Perm sch.tasks)
    (hparked : ∀ t ∈ sch'.parked, t ∈ sch.parked) : Watched pending sch' main where
  nodup := by
    have hids : (0 :: sch'.tasks.map (·.task) ++ startedIn pending).Perm
        (0 :: sch.tasks.map (·.task) ++ startedIn pending) :=
      ((hperm.map _).cons 0).append_right _
    exact hids.nodup_iff.mpr hw.nodup
  held_zero := hheld ▸ hw.held_zero
  started := hheld ▸ hw.started
  rests t ht := by
    have hrests := hw.rests t (hperm.mem_iff.mp ht)
    unfold Rests at hrests ⊢
    rw [hheld]
    exact hrests
  parked t ht := by
    have halert := hw.parked t (hparked t ht)
    unfold Alert at halert ⊢
    rw [hheld, hheap]
    exact halert
  foreground f hf := by
    have hmain := hw.foreground f hf
    unfold Rests Alert at hmain ⊢
    rw [hheld, hheap]
    exact hmain

/-- The foreground task may be woken at any time. -/
theorem wakeMain (hw : Watched pending sch main) (b : Foreground α → Bool) :
    Watched pending sch (main.map fun f => { f with woken := f.woken || b f }) :=
  { hw with
    foreground := fun g hg => by
      obtain ⟨f, hf, rfl⟩ := Option.map_eq_some_iff.mp hg
      obtain ⟨hrests, hwait⟩ := hw.foreground f hf
      refine ⟨hrests, hwait.imp_left fun hwoken => ?_⟩
      show (f.woken || b f) = true
      rw [hwoken]
      rfl }

theorem perm_wake (sch : Scheduler) (p : Suspended Unit → Bool) :
    (sch.ready ++ (sch.parked.partition p).1 ++ (sch.parked.partition p).2 ++ sch.yielded).Perm
      sch.tasks := by
  rw [List.partition_eq_filter_filter, Scheduler.tasks, List.append_assoc sch.ready]
  exact ((List.filter_append_perm p sch.parked).append_left _).append_right _

theorem perm_enqueue (sch : Scheduler) (t : Suspended Unit) :
    (sch.enqueue t).tasks.Perm (t :: sch.tasks) := by
  unfold Scheduler.enqueue Scheduler.tasks
  rw [List.append_assoc sch.ready, List.append_assoc sch.ready, List.append_assoc sch.ready]
  exact List.perm_middle

theorem perm_wakeYielded (sch : Scheduler) :
    { sch with ready := sch.ready ++ sch.yielded, yielded := [] }.tasks.Perm sch.tasks := by
  show (sch.ready ++ sch.yielded ++ sch.parked ++ []).Perm (sch.ready ++ sch.parked ++ sch.yielded)
  rw [List.append_nil, List.append_assoc, List.append_assoc]
  exact List.perm_append_comm.append_left _

theorem perm_suspend (sch : Scheduler) (t : Suspended Unit) :
    (sch.suspend t).tasks.Perm (t :: sch.tasks) := by
  unfold Scheduler.suspend Scheduler.tasks
  split
  · exact List.perm_middle
  · rw [← List.append_assoc, List.append_assoc _ [t]]
    exact List.perm_middle

theorem mem_parked_suspend {sch : Scheduler} {t u : Suspended Unit}
    (hu : u ∈ (sch.suspend t).parked) : u = t ∨ u ∈ sch.parked := by
  unfold Scheduler.suspend at hu
  split at hu
  · exact .inr hu
  · exact (List.mem_append.mp hu).symm.imp_left List.mem_singleton.mp

/-- The task that takes a turn is taken from among the others. -/
theorem perm_turn {before after : List (Suspended Unit)} {t : Suspended Unit}
    (hready : sch.ready = before ++ t :: after) :
    sch.tasks.Perm (t :: { sch with ready := before ++ after }.tasks) := by
  unfold Scheduler.tasks
  rw [hready]
  exact (List.perm_middle.append_right _).append_right _

theorem perm_ids_turn {before after : List (Suspended Unit)} {t : Suspended Unit}
    (hready : sch.ready = before ++ t :: after) (pending : List Notice) :
    (0 :: sch.tasks.map (·.task) ++ startedIn pending).Perm (t.task ::
      (0 :: ({ sch with ready := before ++ after } : Scheduler).tasks.map (·.task) ++
        startedIn pending)) :=
  ((((perm_turn hready).map _).cons 0).append_right _).trans (.swap _ _ _)

/-- No task has the number of the task that takes a turn, or is going to have it. -/
theorem apart (hw : Watched pending sch main) {before after : List (Suspended Unit)}
    {t : Suspended Unit} (hready : sch.ready = before ++ t :: after) :
    t.task ∉ 0 :: ({ sch with ready := before ++ after } : Scheduler).tasks.map (·.task) ++
      startedIn pending :=
  (List.nodup_cons.mp ((perm_ids_turn hready pending).nodup_iff.mp hw.nodup)).1

/-- Some of the tasks that wait can run again. -/
theorem wake (hw : Watched pending sch main) (p : Suspended Unit → Bool) (now : Nat) :
    Watched pending
      { sch with
        state := { sch.state with now }
        ready := sch.ready ++ (sch.parked.partition p).1
        parked := (sch.parked.partition p).2 } main := by
  refine hw.regroup rfl rfl (perm_wake sch p) fun t ht => ?_
  rw [List.partition_eq_filter_filter] at ht
  exact (List.mem_filter.mp ht).1

/-! ## Notices -/

/-- One notice takes effect. -/
theorem notice {n : Notice} (hw : Watched (n :: pending) sch main) (fuel : Nat) :
    Watched pending (sch.notice fuel n) (main.map (·.settle [n])) ∧
      ((sch.notice fuel n).tasks.map (·.task) ++ startedIn pending).Perm
        (sch.tasks.map (·.task) ++ startedIn (n :: pending)) := by
  -- a wait that this notice does not end is ended by one of the others, if by any
  have halert {task : TaskId} {on : Wait} (ha : Alert (n :: pending) sch.state task on)
      (hn : on.endedBy n = false) : Alert pending sch.state task on := by
    rcases ha with ⟨n', hmem, hends⟩ | ha
    · rcases List.mem_cons.mp hmem with rfl | hmem
      · rw [hn] at hends
        cases hends
      · exact .inl ⟨n', hmem, hends⟩
    · exact .inr ha
  -- The foreground task is told of the notice as well, though it stands in no list.
  have hmain : ∀ f ∈ main.map (·.settle [n]), Rests sch.state 0 f.resume ∧
      (f.woken = true ∨ Alert pending sch.state 0 f.on) := by
    intro g hg
    obtain ⟨f, hf, rfl⟩ := Option.map_eq_some_iff.mp hg
    obtain ⟨hrests, hwait⟩ := hw.foreground f hf
    refine ⟨hrests, ?_⟩
    cases hn : f.on.endedBy n with
    | true => exact .inl (by simp [Foreground.settle, hn])
    | false =>
      refine hwait.imp (fun hwoken => ?_) fun ha => halert ha hn
      simp [Foreground.settle, hwoken]
  -- A notice that starts no task only divides those that wait.
  have hwakes (hstarted : startedIn (n :: pending) = startedIn pending)
      (heq : sch.notice fuel n =
        { sch with
          ready := sch.ready ++ (sch.parked.partition (·.on.endedBy n)).1
          parked := (sch.parked.partition (·.on.endedBy n)).2 }) :
      Watched pending (sch.notice fuel n) (main.map (·.settle [n])) ∧
        ((sch.notice fuel n).tasks.map (·.task) ++ startedIn pending).Perm
          (sch.tasks.map (·.task) ++ startedIn (n :: pending)) := by
    have hperm := perm_wake sch (·.on.endedBy n)
    rw [heq, hstarted]
    refine ⟨?_, (hperm.map _).append_right _⟩
    refine {
      nodup := ?_
      held_zero := hw.held_zero
      started := hstarted ▸ hw.started
      rests := fun t ht => hw.rests t (hperm.mem_iff.mp ht)
      parked := fun t ht => ?_
      foreground := hmain }
    · rw [← hstarted]
      exact (((hperm.map _).cons 0).append_right _).nodup_iff.mpr hw.nodup
    · rw [List.partition_eq_filter_filter] at ht
      obtain ⟨hmem, hn⟩ := List.mem_filter.mp ht
      exact halert (hw.parked t hmem) (by simpa using hn)
  cases n with
  | channel id => exact hwakes rfl rfl
  | signal id => exact hwakes rfl rfl
  | started task job =>
    have hperm := perm_enqueue sch ⟨task, .turn, job.program fuel task⟩
    have hids : ((sch.notice fuel (.started task job)).tasks.map (·.task) ++ startedIn pending).Perm
        (sch.tasks.map (·.task) ++ startedIn (.started task job :: pending)) :=
      ((hperm.map _).append_right _).trans List.perm_middle.symm
    refine ⟨{
      nodup := (hids.cons 0).nodup_iff.mpr hw.nodup
      held_zero := hw.held_zero
      started := fun other hmem => hw.started other (List.mem_cons_of_mem _ hmem)
      rests := fun t ht => ?_
      parked := fun t ht => halert (hw.parked t ht) rfl
      foreground := hmain }, hids⟩
    rcases List.mem_cons.mp (hperm.mem_iff.mp ht) with rfl | ht
    · obtain ⟨xs, hx⟩ := hw.started task List.mem_cons_self
      exact ⟨xs, xs.tail, hx, fun s' hs' hx' => watches_program fuel task job hs' hx'⟩
    · exact hw.rests t ht

/-- All notices take effect. -/
theorem settle (fuel : Nat) {s : EngineState}
    (hw : Watched s.notices.toList { sch with state := s } main) :
    Watched [] (sch.settle fuel s).1 (main.map (·.settle (sch.settle fuel s).2)) ∧
      ((sch.settle fuel s).1.tasks.map (·.task)).Perm
        (sch.tasks.map (·.task) ++ startedIn s.notices.toList) := by
  have hfold (ns : List Notice) (sch : Scheduler) (main : Option (Foreground α))
      (hw : Watched ns sch main) :
      Watched [] (ns.foldl (Scheduler.notice fuel) sch) (main.map (·.settle ns)) ∧
        ((ns.foldl (Scheduler.notice fuel) sch).tasks.map (·.task)).Perm
          (sch.tasks.map (·.task) ++ startedIn ns) := by
    induction ns generalizing sch main with
    | nil =>
      have hsame : main.map (·.settle []) = main := by
        cases main with
        | none => rfl
        | some f => simp [Foreground.settle]
      rw [hsame, show startedIn [] = [] from rfl, List.append_nil]
      exact ⟨hw, .refl _⟩
    | cons n rest ih =>
      obtain ⟨hn, hperm⟩ := hw.notice fuel
      obtain ⟨hrest, hperm'⟩ := ih _ _ hn
      have hmain : (main.map (·.settle [n])).map (·.settle rest) = main.map (·.settle (n :: rest)) := by
        cases main with
        | none => rfl
        | some f => simp [Foreground.settle, Bool.or_assoc]
      rw [hmain] at hrest
      exact ⟨hrest, hperm'.trans hperm⟩
  exact hfold _ _ _ (hw.regroup rfl rfl (.refl _) fun _ ht => ht)

/-- A task begins to wait. -/
theorem suspend (hw : Watched [] sch main) {t : Suspended Unit}
    (hnew : t.task ∉ 0 :: sch.tasks.map (·.task)) (hrests : Rests sch.state t.task t.resume)
    (halert : Alert [] sch.state t.task t.on) : Watched [] (sch.suspend t) main := by
  have hperm := perm_suspend sch t
  have hstate := Scheduler.suspend_state sch t
  refine {
    nodup := ?_
    held_zero := hstate ▸ hw.held_zero
    started := nofun
    rests := fun u hu => ?_
    parked := fun u hu => ?_
    foreground := hstate ▸ hw.foreground }
  · have hids : (0 :: (sch.suspend t).tasks.map (·.task) ++ startedIn []).Perm
        (t.task :: (0 :: sch.tasks.map (·.task) ++ startedIn [])) :=
      (((hperm.map _).cons 0).append_right _).trans (.swap _ _ _)
    refine hids.nodup_iff.mpr (List.nodup_cons.mpr ⟨fun hmem => hnew ?_, hw.nodup⟩)
    simpa [startedIn] using hmem
  · rw [hstate]
    rcases List.mem_cons.mp (hperm.mem_iff.mp hu) with rfl | hu
    · exact hrests
    · exact hw.rests u hu
  · rw [hstate]
    rcases mem_parked_suspend hu with rfl | hu
    · exact halert
    · exact hw.parked u hu

/-! ## Turns -/

theorem drop (hw : Watched pending sch main) : Watched pending sch (none : Option (Foreground β)) :=
  { hw with foreground := nofun }

/-- A task that is none of those at rest has run. -/
theorem act (hw : Watched sch.state.notices.toList sch main) {task : TaskId}
    (hnew : task ∉ sch.tasks.map (·.task) ++ startedIn sch.state.notices.toList)
    (hmain : task = 0 → main = none) {s : EngineState}
    (ht : Tells (some task) { sch.state with current := task } s)
    (hheld : ∃ xs, s.held.get? task = some xs) :
    Watched s.notices.toList { sch with state := s } main ∧
      task ∉ sch.tasks.map (·.task) ++ startedIn s.notices.toList := by
  have hzero : ∃ xs, s.held.get? 0 = some xs := by
    by_cases htask : task = 0
    · exact htask ▸ hheld
    · obtain ⟨xs, hx⟩ := hw.held_zero
      exact ⟨xs, ht.held 0 xs (fun heq => htask (Option.some.inj heq).symm) hx⟩
  -- The invariant does not depend on who runs.
  let running : Scheduler := { sch with state := { sch.state with current := task } }
  have hcurrent : Watched running.state.notices.toList running main :=
    hw.regroup rfl rfl (.refl _) fun _ ht => ht
  refine ⟨hcurrent.tells ht (fun other hother heq => ?_) ?_ hzero, fun hmem => ?_⟩
  · cases heq
    exact hnew hother
  · intro heq
    exact hmain (Option.some.inj heq)
  · obtain ⟨new, hnews, -, htasks⟩ := ht.news
    rw [hnews, startedIn_append, ← List.append_assoc] at hmem
    rcases List.mem_append.mp hmem with hmem | hmem
    · exact hnew hmem
    · exact (htasks task hmem).2.1 rfl

/-- What is known of a task that waits now: it can be resumed, and it has reason to wait. -/
theorem rests_of_wait {s : EngineState} {task : TaskId} {xs keep : List Holding} {on : Wait}
    {resume : EngineState → Step α} (hx : s.held.get? task = some (xs ++ keep))
    (hpends : on.Pends s.heap) (hholds : ∀ id ∈ on.channels, HoldsChan (xs ++ keep) id)
    (hresume : ∀ s', s'.current = task → s'.held.get? task = some (xs ++ keep) →
      WatchesOn task keep (resume s') s') (fuel : Nat) :
    Rests (sch.settle fuel s).1.state task resume ∧
      Alert [] (sch.settle fuel s).1.state task on := by
  rw [Scheduler.settle_state]
  exact ⟨⟨xs ++ keep, keep, hx, hresume⟩, .inr ⟨hpends, xs ++ keep, hx, hholds⟩⟩

/-- **One turn of a task in the background.** -/
theorem turn (hw : Watched sch.state.notices.toList sch main) (fuel : Nat)
    {before after : List (Suspended Unit)} {t : Suspended Unit}
    (hready : sch.ready = before ++ t :: after) {r : Scheduler × List Notice}
    (hturn : { sch with ready := before ++ after }.turn fuel t = .ok r) :
    Watched [] r.1 (main.map (·.settle r.2)) := by
  -- While the task runs it is in no list: the invariant is carried for the others, among whom its
  -- number does not occur.
  obtain ⟨others, heq⟩ : ∃ others : Scheduler, others = { sch with ready := before ++ after } :=
    ⟨_, rfl⟩
  rw [← heq] at hturn
  have hstate : others.state = sch.state := by rw [heq]
  have hperm : sch.tasks.Perm (t :: others.tasks) := heq ▸ perm_turn hready
  have hids := perm_ids_turn hready sch.state.notices.toList
  rw [← heq] at hids
  obtain ⟨hnew, hnodup⟩ := List.nodup_cons.mp (hids.nodup_iff.mp hw.nodup)
  have hothers : Watched others.state.notices.toList others main := by
    rw [hstate]
    exact {
      nodup := hnodup
      held_zero := hstate ▸ hw.held_zero
      started := hstate ▸ hw.started
      rests := fun u hu => hstate ▸ hw.rests u (hperm.mem_iff.mpr (List.mem_cons_of_mem t hu))
      parked := fun u hu => by
        rw [hstate]
        rw [heq] at hu
        exact hw.parked u hu
      foreground := hstate ▸ hw.foreground }
  have hzero : t.task ≠ 0 := fun heq => hnew (heq ▸ List.mem_cons_self)
  obtain ⟨xs, keep, hx, hresume⟩ := hw.rests t (hperm.mem_iff.mpr List.mem_cons_self)
  have hwatches := hresume { others.state with current := t.task } rfl (hstate ▸ hx)
  -- However the turn ends, what was done in it was made known to the others.
  have hact {s : EngineState} (ht : Tells (some t.task) { others.state with current := t.task } s)
      (hheld : ∃ xs, s.held.get? t.task = some xs) := by
    refine hothers.act (fun hmem => hnew ?_) (absurd · hzero) ht hheld
    rw [hstate] at hmem
    exact List.mem_cons_of_mem 0 hmem
  unfold Scheduler.turn at hturn
  split at hturn
  · rename_i s heq
    rw [heq] at hwatches
    cases hturn
    obtain ⟨ht, hx', -⟩ := hwatches
    exact ((hact ht ⟨_, hx'⟩).1.settle fuel).1
  · rename_i s on resume heq
    rw [heq] at hwatches
    cases hturn
    obtain ⟨ht, ys, hx', hpends, hholds, hagain⟩ := hwatches
    obtain ⟨hacted, hnew'⟩ := hact ht ⟨_, hx'⟩
    obtain ⟨hsettled, hperm'⟩ := hacted.settle fuel
    obtain ⟨hrests, halert⟩ := rests_of_wait hx' hpends hholds hagain fuel
    refine hsettled.suspend (fun hmem => ?_) hrests halert
    rcases List.mem_cons.mp hmem with hmem | hmem
    · exact hzero hmem
    · exact hnew' (hperm'.mem_iff.mp hmem)
  · rename_i s message heq
    rw [heq] at hwatches
    cases hturn
    obtain ⟨ht, ys, hx'⟩ := hwatches
    exact ((hact (ht.trans (tells_unwind s t.task 0)) ⟨_, held_unwind_zero hx'⟩).1.settle fuel).1
  · cases hturn

section
variable {f : Foreground α} (hw : Watched sch.state.notices.toList sch (some f)) (fuel : Nat)
include hw

/-- The foreground task has run. -/
theorem actMain {s : EngineState} (ht : Tells (some 0) { sch.state with current := 0 } s)
    (hheld : ∃ xs, s.held.get? 0 = some xs) :
    Watched [] (sch.settle fuel s).1 (none : Option (Foreground β)) := by
  have hnew := (List.nodup_cons.mp hw.nodup).1
  have hacted := (hw.drop (β := β)).act hnew (fun _ => rfl) ht hheld
  exact (hacted.1.settle fuel).1

theorem finish {s : EngineState} {a : α}
    (hf : f.resume { sch.state with current := 0 } = .done s a) :
    Watched [] (sch.settle fuel s).1 (none : Option (Foreground β)) := by
  obtain ⟨xs, keep, hx, hresume⟩ := (hw.foreground f rfl).1
  have hwatches := hresume { sch.state with current := 0 } rfl hx
  rw [hf] at hwatches
  exact hw.actMain fuel hwatches.1 ⟨_, hwatches.2.1⟩

theorem stop {s : EngineState} {why : Halt}
    (hf : f.resume { sch.state with current := 0 } = .stop s why) :
    Watched [] (sch.settle fuel (s.unwind 0 0)).1 (none : Option (Foreground β)) := by
  obtain ⟨xs, keep, hx, hresume⟩ := (hw.foreground f rfl).1
  have hwatches := hresume { sch.state with current := 0 } rfl hx
  rw [hf] at hwatches
  obtain ⟨ht, ys, hx'⟩ := hwatches
  exact hw.actMain fuel (ht.trans (tells_unwind s 0 0)) ⟨_, held_unwind_zero hx'⟩

theorem pause {s : EngineState} {on : Wait} {resume : EngineState → Step α}
    (hf : f.resume { sch.state with current := 0 } = .wait s on resume) :
    Watched [] (sch.settle fuel s).1 (some { on, resume }) := by
  obtain ⟨xs, keep, hx, hresume⟩ := (hw.foreground f rfl).1
  have hwatches := hresume { sch.state with current := 0 } rfl hx
  rw [hf] at hwatches
  obtain ⟨ht, ys, hx', hpends, hholds, hagain⟩ := hwatches
  have hacted := hw.actMain (β := α) fuel ht ⟨_, hx'⟩
  obtain ⟨hrests, halert⟩ := rests_of_wait hx' hpends hholds hagain fuel
  exact { hacted with
    foreground := fun g hg => by
      cases hg
      exact ⟨hrests, .inr halert⟩ }

/-- The foreground task gives up. -/
theorem giveUp : Watched (sch.state.unwind 0 0).notices.toList
    { sch with state := sch.state.unwind 0 0 } (none : Option (Foreground β)) := by
  obtain ⟨xs, hx⟩ := hw.held_zero
  have hnew := (List.nodup_cons.mp hw.nodup).1
  refine (hw.drop (β := β)).tells (tells_unwind sch.state 0 0) ?_ (fun _ => rfl)
    ⟨_, held_unwind_zero hx⟩
  intro task hmem heq
  cases heq
  exact hnew hmem

end

/-- The host starts a task in the foreground. -/
theorem begin (hw : Watched pending sch main) {m : Task β} (hm : Watchful [] m) :
    Watched pending sch (some { on := .turn, resume := m, woken := true }) :=
  { hw with
    foreground := fun f hf => by
      cases hf
      obtain ⟨xs, hx⟩ := hw.held_zero
      refine ⟨⟨xs, xs, hx, fun s' hs' hx' => ?_⟩, .inl rfl⟩
      rw [← hs'] at hx' ⊢
      exact hm.watches s' xs hx' nofun }

/-- After every turn all notices have taken effect. -/
theorem of_settled (hw : Watched [] sch main) (hn : sch.state.notices = #[]) :
    Watched sch.state.notices.toList sch main := by
  rw [hn]
  exact hw

/-- Tasks that let others go first can run again. -/
theorem wakeYielded (hw : Watched pending sch main) :
    Watched pending { sch with ready := sch.ready ++ sch.yielded, yielded := [] } main :=
  hw.regroup rfl rfl (perm_wakeYielded sch) fun _ ht => ht

/-! ## While a task waits -/

/-- What is done in a turn is made known to the others. -/
theorem tells_turn (hw : Watched pending sch main) {fuel : Nat} {before after : List (Suspended Unit)}
    {t : Suspended Unit} (hready : sch.ready = before ++ t :: after) {r : Scheduler × List Notice}
    (hturn : { sch with ready := before ++ after }.turn fuel t = .ok r) :
    ∃ s, Tells (some t.task) { sch.state with current := t.task } s ∧
      r.1.state = { s with notices := #[] } := by
  have hmem : t ∈ sch.tasks := (perm_turn hready).mem_iff.mpr List.mem_cons_self
  obtain ⟨xs, keep, hx, hresume⟩ := hw.rests t hmem
  have hwatches := hresume { sch.state with current := t.task } rfl hx
  unfold Scheduler.turn at hturn
  split at hturn
  · rename_i s heq
    rw [heq] at hwatches
    cases hturn
    exact ⟨s, hwatches.1, Scheduler.settle_state _ _ _⟩
  · rename_i s on resume heq
    rw [heq] at hwatches
    cases hturn
    exact ⟨s, hwatches.1, (Scheduler.suspend_state _ _).trans (Scheduler.settle_state _ _ _)⟩
  · rename_i s message heq
    rw [heq] at hwatches
    cases hturn
    exact ⟨_, hwatches.1.trans (tells_unwind s t.task 0), Scheduler.settle_state _ _ _⟩
  · cases hturn

/-- No turn of another task changes what a task holds. -/
theorem held_turn (hw : Watched pending sch main) {fuel : Nat} {before after : List (Suspended Unit)}
    {t : Suspended Unit} (hready : sch.ready = before ++ t :: after) {r : Scheduler × List Notice}
    (hturn : { sch with ready := before ++ after }.turn fuel t = .ok r) {task : TaskId}
    (hne : task ≠ t.task) {xs : List Holding} (hx : sch.state.held.get? task = some xs) :
    r.1.state.held.get? task = some xs := by
  obtain ⟨s, ht, hstate⟩ := hw.tells_turn hready hturn
  rw [hstate]
  exact ht.held task xs (fun heq => hne (Option.some.inj heq)) hx

end Watched

/-- **What happens while the foreground task waits**: others take turns, in any order; those that let
others go first can run again; and time passes. -/
inductive Meanwhile (fuel : Nat) (sch : Scheduler) (f : Foreground α) :
    Scheduler → Foreground α → Prop where
  | refl : Meanwhile fuel sch f sch f
  | turn {sch' : Scheduler} {f' : Foreground α} (h : Meanwhile fuel sch f sch' f')
      (before after : List (Suspended Unit)) {t : Suspended Unit}
      (hready : sch'.ready = before ++ t :: after) {r : Scheduler × List Notice}
      (hturn : { sch' with ready := before ++ after }.turn fuel t = .ok r) :
      Meanwhile fuel sch f r.1 (f'.settle r.2)
  | giveWay {sch' : Scheduler} {f' : Foreground α} (h : Meanwhile fuel sch f sch' f') :
      Meanwhile fuel sch f { sch' with ready := sch'.ready ++ sch'.yielded, yielded := [] }
        { f' with woken := f'.woken || f'.on.isTurn }
  | pass {sch' : Scheduler} {f' : Foreground α} {s : EngineState} (now : Nat)
      (h : Meanwhile fuel sch f sch' f') (hs : s = { sch'.state with now }) :
      Meanwhile fuel sch f
        { sch' with
          state := s
          ready := sch'.ready ++ (sch'.parked.partition (·.on.isDue s)).1
          parked := (sch'.parked.partition (·.on.isDue s)).2 }
        (f'.wakeDue s)

namespace Meanwhile
variable {fuel : Nat} {sch sch' : Scheduler} {f f' : Foreground α}

/-- **Others leave the foreground task alone while it waits.** -/
theorem kept (h : Meanwhile fuel sch f sch' f')
    (hw : Watched sch.state.notices.toList sch (some f)) :
    Watched sch'.state.notices.toList sch' (some f') ∧ f'.resume = f.resume ∧
      sch'.state.held.get? 0 = sch.state.held.get? 0 := by
  induction h with
  | refl => exact ⟨hw, rfl, rfl⟩
  | turn _ before after hready hturn ih =>
    obtain ⟨hw', hresume, hheld⟩ := ih
    refine ⟨(hw'.turn fuel hready hturn).of_settled (Scheduler.notices_turn hturn), hresume, ?_⟩
    obtain ⟨xs, hx⟩ := hw'.held_zero
    have hne : 0 ≠ _ := fun heq =>
      hw'.apart hready (List.mem_append_left _ (heq ▸ List.mem_cons_self))
    exact (hw'.held_turn hready hturn hne hx).trans (hx.symm.trans hheld)
  | giveWay _ ih =>
    obtain ⟨hw', hresume, hheld⟩ := ih
    exact ⟨hw'.wakeYielded.wakeMain (·.on.isTurn), hresume, hheld⟩
  | @pass sch' f' s now _ hs ih =>
    subst hs
    obtain ⟨hw', hresume, hheld⟩ := ih
    have hlater := (hw'.wake (·.on.isDue { sch'.state with now }) now).wakeMain
      (·.on.isDue { sch'.state with now })
    exact ⟨hlater, hresume, hheld⟩

/-- The order in which the scheduler itself lets others take turns is one of those. -/
theorem batch {deadline turns : Nat} (h : Meanwhile fuel sch f sch' f')
    {r : Scheduler × Foreground α} (hbatch : sch'.batch fuel deadline turns f' = .ok r) :
    Meanwhile fuel sch f r.1 r.2 := by
  induction turns generalizing sch' f' with
  | zero =>
    cases hbatch
    exact h.giveWay
  | succ turns ih =>
    unfold Scheduler.batch at hbatch
    split at hbatch
    · cases hbatch
      unfold Scheduler.idle
      split
      · exact h.giveWay
      · split
        · exact h
        · exact h.pass _ rfl
    · rename_i t rest hready
      cases hturn : { sch' with ready := rest }.turn fuel t with
      | error why =>
        rw [hturn] at hbatch
        cases hbatch
      | ok p =>
        rw [hturn] at hbatch
        exact ih (h.turn [] rest hready hturn) hbatch

end Meanwhile

/-- **The foreground task is left undisturbed.**  If it comes to its end, it has gone along a path on which
it always found again what it held. -/
theorem Watched.drive_amid {fuel deadline : Nat} {sch sch' : Scheduler} {f : Foreground α} {a : α}
    (hw : Watched sch.state.notices.toList sch (some f)) (turns : Nat)
    (hdone : sch.drive fuel deadline turns f = (sch', .done a)) :
    ∃ s path t, { sch.state with current := 0 }.Undisturbed s ∧
      (f.woken = true → s = { sch.state with current := 0 }) ∧
      (f.resume s).EndsAlong path a t ∧ (f.resume s).Amid Undisturbed path := by
  induction turns generalizing sch f with
  | zero => cases hdone
  | succ turns ih =>
    by_cases hwoken : f.woken = true
    -- The task runs, and goes on from where the others have come when it is woken again.
    · rw [Scheduler.drive_woken hwoken] at hdone
      refine ⟨{ sch.state with current := 0 }, ?_⟩
      cases hstep : f.resume { sch.state with current := 0 } with
      | done s b =>
        rw [hstep] at hdone
        cases hdone
        exact ⟨[], s, ⟨rfl, rfl⟩, fun _ => rfl, .done s a, trivial⟩
      | stop s why =>
        rw [hstep] at hdone
        cases hdone
      | wait s on resume =>
        rw [hstep] at hdone
        have hsettled : (sch.settle fuel s).1.state = { s with notices := #[] } :=
          Scheduler.settle_state _ _ _
        have hpaused := (hw.pause fuel hstep).of_settled (by rw [hsettled])
        obtain ⟨s', path, t, hfound, -, hends, hothers⟩ := ih hpaused hdone
        obtain ⟨xs, keep, hx, hresume⟩ := (hw.foreground f rfl).1
        have hwatches := hresume { sch.state with current := 0 } rfl hx
        rw [hstep] at hwatches
        have hcurrent : s.current = 0 := hwatches.1.current_eq
        have hsame : s.Undisturbed s' := by
          refine ⟨hfound.current_eq.trans hcurrent.symm, ?_⟩
          rw [hcurrent]
          exact hfound.held_eq.trans (by rw [hsettled])
        exact ⟨s' :: path, t, ⟨rfl, rfl⟩, fun _ => rfl, .wait hends, hsame, hothers⟩
    · unfold Scheduler.drive at hdone
      rw [if_neg hwoken] at hdone
      split at hdone
      · cases hdone
      · split at hdone
        · rename_i sch₁ f₁ hbatch
          obtain ⟨hw₁, hresume, hheld⟩ := (Meanwhile.refl.batch hbatch).kept hw
          obtain ⟨s, path, t, hfound, -, hends, hothers⟩ := ih hw₁ hdone
          rw [hresume] at hends hothers
          refine ⟨s, path, t, ⟨hfound.current_eq, ?_⟩, fun h => absurd h hwoken, hends, hothers⟩
          exact hfound.held_eq.trans hheld
        · cases hdone

end ScriptEngine
