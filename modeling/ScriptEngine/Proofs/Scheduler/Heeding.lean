import ScriptEngine.Proofs.Evaluator.Heeding
import ScriptEngine.Proofs.Scheduler.Wakeups

/-! # Tasks that heed signals while they take turns

If every task heeds signals, then the scheduler **heeds** them (`Heeded`): of each task there is at most
one overrun on record for each run, each task can be resumed, and no task waits on account of a signal
that is on, unless a notice is pending that ends its wait.

That a task finds the record as it has left it, whenever it is resumed, rests on the numbers of tasks:
nobody else has its number, so nobody passes a checkpoint in its name.  For that, `Watched` is used.
-/
namespace ScriptEngine

open EngineState

variable {α β : Type}

/-! ## Tasks at rest -/

/-- The task can be resumed at any later time. -/
def Biding (s : EngineState) (task : TaskId) (resume : EngineState → Step α) : Prop :=
  ∀ s', s'.current = task → s.Bides task s' →
    ∃ signals start, HeedsOn task False signals start (fun _ => True) (resume s') s'

/-- The signal that the wait is on account of is off, unless a notice that it is on is pending. -/
def Warned (pending : List Notice) (s : EngineState) (on : Wait) : Prop :=
  ∀ id, on.signal? = some id → s.isCancelled id = true → .signal id ∈ pending

section
variable {s s' : EngineState} {task : TaskId} {on : Wait}

theorem Biding.bides {resume : EngineState → Step α} (hb : Biding s task resume)
    (hs : s.Bides task s') : Biding s' task resume :=
  fun s'' hcurrent hs' => hb s'' hcurrent (hs.trans hs')

/-- A wait that the first notice does not end is warned by the others. -/
theorem Warned.tail {n : Notice} {pending : List Notice} (hw : Warned (n :: pending) s on)
    (hn : on.endedBy n = false) : Warned pending s on := by
  intro id hid hon
  refine (List.mem_cons.mp (hw id hid hon)).resolve_left ?_
  rintro rfl
  have hends : on.endedBy (.signal id) = true := by
    show (on.signal? == some id) = true
    rw [hid]
    exact beq_self_eq_true _
  rw [hends] at hn
  cases hn

/-- If time passes, a signal comes on only when its deadline has come. -/
theorem isCancelled_at {now : Nat} {id : SignalId}
    (hid : { s with now }.isCancelled id = true) :
    s.isCancelled id = true ∨ ∃ deadline, (s.signal id).deadline = some deadline ∧ deadline ≤ now := by
  have hon : (s.signal id).isOn now = true := hid
  unfold Signal.isOn at hon
  rcases Bool.or_eq_true_iff.mp hon with hon | hon
  · left
    show (s.signal id).isOn s.now = true
    rw [Signal.isOn, hon]
    rfl
  · right
    cases hd : (s.signal id).deadline with
    | none =>
      rw [hd] at hon
      cases hon
    | some d =>
      rw [hd] at hon
      exact ⟨d, rfl, of_decide_eq_true hon⟩

/-- A signal that is on stays on as time passes. -/
theorem onward_at {now : Nat} (hnow : s.now ≤ now) : s.Onward { s with now } where
  runs _ r hr := ⟨r, hr, rfl⟩
  signals id hid := by
    have hon : (s.signal id).isOn s.now = true := hid
    show (s.signal id).isOn now = true
    unfold Signal.isOn at hon ⊢
    rcases Bool.or_eq_true_iff.mp hon with hon | hon
    · rw [hon]
      rfl
    · cases hd : (s.signal id).deadline with
      | none =>
        rw [hd] at hon
        cases hon
      | some d =>
        rw [hd] at hon
        exact Bool.or_eq_true_iff.mpr (.inr (decide_eq_true ((of_decide_eq_true hon).trans hnow)))

/-- When the deadline of its signal has come, a wait is due. -/
theorem Warned.pass {pending : List Notice} {now : Nat} (hw : Warned pending s on)
    (hdue : on.isDue { s with now } = false) : Warned pending { s with now } on := by
  intro id hid hon
  refine hw id hid ((isCancelled_at hon).resolve_right ?_)
  rintro ⟨d, hd, hle⟩
  have hmem : d ∈ on.moments { s with now } := by
    refine List.mem_append_right _ (Option.mem_toList.mpr ?_)
    show (on.signal?.bind fun id => (s.signal id).deadline) = some d
    rw [hid]
    exact hd
  exact Bool.eq_false_iff.mp hdue (List.any_eq_true.mpr ⟨d, hmem, decide_eq_true (p := d ≤ now) hle⟩)

end

/-! ## The invariant -/

/-- **Every task of the scheduler heeds signals**, and since `origin` no signal that was on has been
turned off; `pending` are the notices that have not taken effect yet.  The foreground task has the
number 0. -/
structure Heeded (origin : EngineState) (pending : List Notice) (sch : Scheduler)
    (main : Option (Foreground α)) : Prop where
  onward : origin.Onward sch.state
  orderly : ∀ task, sch.state.Orderly task
  serves : ∀ task job, .started task job ∈ pending → sch.state.Serves job
  bides : ∀ t ∈ sch.tasks, Biding sch.state t.task t.resume
  parked : ∀ t ∈ sch.parked, Warned pending sch.state t.on
  foreground : ∀ f ∈ main, Biding sch.state 0 f.resume ∧
    (f.woken = true ∨ Warned pending sch.state f.on)

namespace Heeded
variable {origin : EngineState} {pending : List Notice} {sch sch' : Scheduler} {main : Option (Foreground α)}

/-- The host, or a task that is not at rest, has done something. -/
theorem advance (hh : Heeded origin sch.state.notices.toList sch main) {s : EngineState}
    (hbides : ∀ task ∈ sch.tasks.map (·.task), sch.state.Bides task s)
    (hmain : main.isSome = true → sch.state.Bides 0 s) (horderly : ∀ task, s.Orderly task)
    (honward : sch.state.Onward s) (hnotices : ∀ n ∈ sch.state.notices, n ∈ s.notices)
    (hjobs : ∀ task job, .started task job ∈ s.notices →
      .started task job ∈ sch.state.notices ∨ s.Serves job)
    (htold : ∀ on ∈ waits sch main, ∀ id, on.signal? = some id → s.isCancelled id = true →
      sch.state.isCancelled id = true ∨ .signal id ∈ s.notices) :
    Heeded origin s.notices.toList { sch with state := s } main := by
  have hwarned {on : Wait} (hon : on ∈ waits sch main)
      (hw : Warned sch.state.notices.toList sch.state on) : Warned s.notices.toList s on := by
    intro id hid hcancelled
    rw [Array.mem_toList_iff]
    rcases htold on hon id hid hcancelled with hold | hn
    · exact hnotices _ (Array.mem_toList_iff.mp (hw id hid hold))
    · exact hn
  refine {
    onward := hh.onward.trans honward
    orderly := horderly
    serves := fun task job hn => ?_
    bides := fun t ht => (hh.bides t ht).bides (hbides _ (List.mem_map_of_mem ht))
    parked := fun t ht => hwarned (List.mem_append_left _ (List.mem_map_of_mem ht)) (hh.parked t ht)
    foreground := fun f hf => ?_ }
  · rcases hjobs task job (Array.mem_toList_iff.mp hn) with hold | hserves
    · exact (hh.serves task job (Array.mem_toList_iff.mpr hold)).onward honward
    · exact hserves
  · obtain ⟨hb, hwait⟩ := hh.foreground f hf
    have hmem : f ∈ main.toList := Option.mem_toList.mpr hf
    exact ⟨hb.bides (hmain (Option.isSome_of_mem hf)),
      hwait.imp_right (hwarned (List.mem_append_right _ (List.mem_map_of_mem hmem)))⟩

/-- A task that is none of those at rest has run. -/
theorem act (hh : Heeded origin sch.state.notices.toList sch main) {who : TaskId}
    (hnew : who ∉ sch.tasks.map (·.task)) (hmain : who = 0 → main = none) {s : EngineState}
    (hacts : { sch.state with current := who }.Acts who s) (ho : s.Orderly who) :
    Heeded origin s.notices.toList { sch with state := s } main := by
  have hbides {task : TaskId} (hne : task ≠ who) : sch.state.Bides task s :=
    ⟨⟨hacts.runs, hacts.signals⟩, fun run => hacts.others task run hne⟩
  refine hh.advance (fun task ht => hbides fun heq => hnew (heq ▸ ht)) (fun hsome => hbides ?_)
    (fun task => ?_) ⟨hacts.runs, hacts.signals⟩ hacts.notices hacts.jobs
    fun _ _ id _ hid => hacts.told id hid
  · rintro rfl
    rw [hmain rfl] at hsome
    cases hsome
  · by_cases heq : task = who
    · exact heq ▸ ho
    · exact (hh.orderly task).bides (hbides heq)

/-- The host has done something that has nothing to do with signals. -/
theorem aloof (hh : Heeded origin sch.state.notices.toList sch main) {s : EngineState}
    (ha : sch.state.Aloof s) : Heeded origin s.notices.toList { sch with state := s } main :=
  hh.advance (fun task _ => ⟨ha.onward, ha.overrunsOf task⟩) (fun _ => ⟨ha.onward, ha.overrunsOf 0⟩)
    (fun task => ha.orderly (hh.orderly task)) ha.onward ha.notices
    (fun task job hn => .inl (ha.jobs task job hn))
    fun _ _ id _ hid => .inl (ha.isCancelled id ▸ hid)

/-- Tasks change their places, and perhaps fewer of them wait. -/
theorem regroup (hh : Heeded origin pending sch main) (hstate : sch'.state = sch.state)
    (hperm : sch'.tasks.Perm sch.tasks) (hparked : ∀ t ∈ sch'.parked, t ∈ sch.parked) :
    Heeded origin pending sch' main where
  onward := hstate ▸ hh.onward
  orderly := hstate ▸ hh.orderly
  serves := hstate ▸ hh.serves
  bides t ht := hstate ▸ hh.bides t (hperm.mem_iff.mp ht)
  parked t ht := hstate ▸ hh.parked t (hparked t ht)
  foreground := hstate ▸ hh.foreground

/-- Tasks that let others go first can run again. -/
theorem wakeYielded (hh : Heeded origin pending sch main) :
    Heeded origin pending { sch with ready := sch.ready ++ sch.yielded, yielded := [] } main :=
  hh.regroup rfl (Watched.perm_wakeYielded sch) fun _ ht => ht

/-- The foreground task may be woken at any time. -/
theorem wakeMain (hh : Heeded origin pending sch main) (b : Foreground α → Bool) :
    Heeded origin pending sch (main.map fun f => { f with woken := f.woken || b f }) :=
  { hh with
    foreground := fun g hg => by
      obtain ⟨f, hf, rfl⟩ := Option.map_eq_some_iff.mp hg
      obtain ⟨hb, hwait⟩ := hh.foreground f hf
      refine ⟨hb, hwait.imp_left fun hwoken => ?_⟩
      show (f.woken || b f) = true
      rw [hwoken]
      rfl }

theorem drop (hh : Heeded origin pending sch main) :
    Heeded origin pending sch (none : Option (Foreground β)) :=
  { hh with foreground := nofun }

/-! ## Notices -/

/-- One notice takes effect. -/
theorem notice {n : Notice} (hh : Heeded origin (n :: pending) sch main) (fuel : Nat) :
    Heeded origin pending (sch.notice fuel n) (main.map (·.settle [n])) := by
  have hmain : ∀ f ∈ main.map (·.settle [n]), Biding sch.state 0 f.resume ∧
      (f.woken = true ∨ Warned pending sch.state f.on) := by
    intro g hg
    obtain ⟨f, hf, rfl⟩ := Option.map_eq_some_iff.mp hg
    obtain ⟨hb, hwait⟩ := hh.foreground f hf
    refine ⟨hb, ?_⟩
    cases hn : f.on.endedBy n with
    | true => exact .inl (by simp [Foreground.settle, hn])
    | false =>
      refine hwait.imp (fun hwoken => ?_) fun hw => hw.tail hn
      simp [Foreground.settle, hwoken]
  have hwakes (heq : sch.notice fuel n =
      { sch with
        ready := sch.ready ++ (sch.parked.partition (·.on.endedBy n)).1
        parked := (sch.parked.partition (·.on.endedBy n)).2 }) :
      Heeded origin pending (sch.notice fuel n) (main.map (·.settle [n])) := by
    have hperm := Watched.perm_wake sch (·.on.endedBy n)
    rw [heq]
    refine {
      onward := hh.onward
      orderly := hh.orderly
      serves := fun task job hn => hh.serves task job (List.mem_cons_of_mem _ hn)
      bides := fun t ht => hh.bides t (hperm.mem_iff.mp ht)
      parked := fun t ht => ?_
      foreground := hmain }
    rw [List.partition_eq_filter_filter] at ht
    obtain ⟨hmem, hn⟩ := List.mem_filter.mp ht
    exact (hh.parked t hmem).tail (by simpa using hn)
  cases n with
  | channel id => exact hwakes rfl
  | signal id => exact hwakes rfl
  | started task job =>
    have hperm := Watched.perm_enqueue sch ⟨task, .turn, job.program fuel task⟩
    exact {
      onward := hh.onward
      orderly := hh.orderly
      serves := fun task job hn => hh.serves task job (List.mem_cons_of_mem _ hn)
      bides := fun t ht => by
        rcases List.mem_cons.mp (hperm.mem_iff.mp ht) with rfl | ht
        · -- The run of a call is still there when the task comes to make the call.
          intro s' hcurrent hs'
          have hserves := (hh.serves task job List.mem_cons_self).onward hs'.toOnward
          have ho : s'.Orderly task := (hh.orderly task).bides hs'
          rw [← show s'.current = task from hcurrent] at ho
          obtain ⟨signals, hheeds⟩ := heeds_program ho fuel task hserves
          rw [hcurrent] at hheeds
          exact ⟨signals, s', hheeds⟩
        · exact hh.bides t ht
      parked := fun t ht => (hh.parked t ht).tail rfl
      foreground := hmain }

/-- All notices take effect. -/
theorem settle (fuel : Nat) {s : EngineState}
    (hh : Heeded origin s.notices.toList { sch with state := s } main) :
    Heeded origin [] (sch.settle fuel s).1 (main.map (·.settle (sch.settle fuel s).2)) := by
  have hfold (ns : List Notice) (sch : Scheduler) (main : Option (Foreground α))
      (hh : Heeded origin ns sch main) :
      Heeded origin [] (ns.foldl (Scheduler.notice fuel) sch) (main.map (·.settle ns)) := by
    induction ns generalizing sch main with
    | nil =>
      have hsame : main.map (·.settle []) = main := by
        cases main with
        | none => rfl
        | some f => simp [Foreground.settle]
      rw [hsame]
      exact hh
    | cons n rest ih =>
      have hmain : (main.map (·.settle [n])).map (·.settle rest) = main.map (·.settle (n :: rest)) := by
        cases main with
        | none => rfl
        | some f => simp [Foreground.settle, Bool.or_assoc]
      rw [← hmain]
      exact ih _ _ (hh.notice fuel)
  -- That the notices are taken away changes nothing that heeding depends on.
  refine hfold s.notices.toList { sch with state := { s with notices := #[] } } main ?_
  have hbiding {γ : Type} {task : TaskId} {resume : EngineState → Step γ}
      (hb : Biding s task resume) : Biding { s with notices := #[] } task resume :=
    hb.bides ⟨⟨fun _ r hr => ⟨r, hr, rfl⟩, fun _ => id⟩, fun _ => rfl⟩
  exact {
    onward := ⟨hh.onward.runs, hh.onward.signals⟩
    orderly := fun task => ⟨(hh.orderly task).most, (hh.orderly task).none⟩
    serves := hh.serves
    bides := fun t ht => hbiding (hh.bides t ht)
    parked := hh.parked
    foreground := fun f hf => (hh.foreground f hf).imp_left hbiding }

/-- A task begins to wait. -/
theorem suspend (hh : Heeded origin [] sch main) {t : Suspended Unit}
    (hb : Biding sch.state t.task t.resume) (hw : Warned [] sch.state t.on) :
    Heeded origin [] (sch.suspend t) main := by
  have hstate := Scheduler.suspend_state sch t
  refine {
    onward := hstate ▸ hh.onward
    orderly := hstate ▸ hh.orderly
    serves := nofun
    bides := fun u hu => ?_
    parked := fun u hu => ?_
    foreground := hstate ▸ hh.foreground }
  · rw [hstate]
    rcases List.mem_cons.mp ((Watched.perm_suspend sch t).mem_iff.mp hu) with rfl | hu
    · exact hb
    · exact hh.bides u hu
  · rw [hstate]
    rcases Watched.mem_parked_suspend hu with rfl | hu
    · exact hw
    · exact hh.parked u hu

/-! ## Turns -/

/-- What is known of a task that waits now. -/
theorem bides_of_wait {s : EngineState} {task : TaskId} {signals : SignalId → Prop}
    {start base : EngineState} {on : Wait} {resume : EngineState → Step α}
    (hx : HeedsOn task False signals start (fun _ => True) (.wait s on resume) base) (fuel : Nat) :
    Biding (sch.settle fuel s).1.state task resume ∧ Warned [] (sch.settle fuel s).1.state on := by
  rw [Scheduler.settle_state]
  refine ⟨fun s' hcurrent hs' => ⟨signals, start, hx.2.2.2 s' hcurrent ?_⟩, fun id hid hon => ?_⟩
  · exact ⟨⟨hs'.runs, hs'.signals⟩, hs'.overruns⟩
  · have hoff := (hx.2.2.1 id hid).2
    have hon : s.isCancelled id = true := hon
    rw [hoff] at hon
    cases hon

theorem acts_unwind {s base : EngineState} {who : TaskId} (hacts : base.Acts who s) (keep : Nat) :
    base.Acts who (s.unwind who keep) :=
  hacts.trans ((apart_unwind s who keep).aloof.acts hacts.current)

/-- **One turn of a task in the background.** -/
theorem turn (hh : Heeded origin sch.state.notices.toList sch main)
    (hw : Watched sch.state.notices.toList sch main) (fuel : Nat)
    {before after : List (Suspended Unit)} {t : Suspended Unit}
    (hready : sch.ready = before ++ t :: after) {r : Scheduler × List Notice}
    (hturn : { sch with ready := before ++ after }.turn fuel t = .ok r) :
    Heeded origin [] r.1 (main.map (·.settle r.2)) := by
  have hperm := Watched.perm_turn hready
  have hmem {u : Suspended Unit} (hu : u ∈ t :: { sch with ready := before ++ after }.tasks) :
      u ∈ sch.tasks := hperm.mem_iff.mpr hu
  have hnew := hw.apart hready
  have hothers : Heeded origin sch.state.notices.toList { sch with ready := before ++ after } main :=
    { hh with bides := fun u hu => hh.bides u (hmem (List.mem_cons_of_mem t hu)) }
  have hact {s : EngineState} (hacts : { sch.state with current := t.task }.Acts t.task s)
      (ho : s.Orderly t.task) :
      Heeded origin s.notices.toList { sch with ready := before ++ after, state := s } main :=
    hothers.act (fun ht => hnew (List.mem_append_left _ (List.mem_cons_of_mem 0 ht)))
      (fun heq => absurd List.mem_cons_self (heq ▸ hnew)) hacts ho
  obtain ⟨signals, start, hheeds⟩ := hh.bides t (hmem List.mem_cons_self)
    { sch.state with current := t.task } rfl
    ⟨⟨fun _ r hr => ⟨r, hr, rfl⟩, fun _ => id⟩, fun _ => rfl⟩
  unfold Scheduler.turn at hturn
  split at hturn
  · rename_i s heq
    rw [heq] at hheeds
    cases hturn
    exact (hact hheeds.1 hheeds.2.1.orderly).settle fuel
  · rename_i s on resume heq
    rw [heq] at hheeds
    cases hturn
    obtain ⟨hb, hwait⟩ := bides_of_wait hheeds fuel
    exact ((hact hheeds.1 hheeds.2.1.orderly).settle fuel).suspend hb hwait
  · rename_i s message heq
    rw [heq] at hheeds
    cases hturn
    have hunwind := (apart_unwind s t.task 0).aloof
    exact (hact (acts_unwind hheeds.1 0) (hunwind.orderly hheeds.2.orderly)).settle fuel
  · cases hturn

section
variable {f : Foreground α}
  (hh : Heeded origin sch.state.notices.toList sch (some f))
  (hw : Watched sch.state.notices.toList sch (some f)) (fuel : Nat)
include hh hw

/-- The foreground task has run. -/
theorem actMain {s : EngineState} (hacts : { sch.state with current := 0 }.Acts 0 s)
    (ho : s.Orderly 0) : Heeded origin [] (sch.settle fuel s).1 (none : Option (Foreground β)) := by
  refine ((hh.drop (β := β)).act (fun ht => ?_) (fun _ => rfl) hacts ho).settle fuel
  exact (List.nodup_cons.mp hw.nodup).1 (List.mem_append_left _ ht)

omit hw in
theorem heedsMain : ∃ signals start, HeedsOn 0 False signals start (fun _ => True)
    (f.resume { sch.state with current := 0 }) { sch.state with current := 0 } :=
  (hh.foreground f rfl).1 { sch.state with current := 0 } rfl
    ⟨⟨fun _ r hr => ⟨r, hr, rfl⟩, fun _ => id⟩, fun _ => rfl⟩

theorem finish {s : EngineState} {a : α}
    (hf : f.resume { sch.state with current := 0 } = .done s a) :
    Heeded origin [] (sch.settle fuel s).1 (none : Option (Foreground β)) := by
  obtain ⟨signals, start, hheeds⟩ := hh.heedsMain
  rw [hf] at hheeds
  exact hh.actMain hw fuel hheeds.1 hheeds.2.1.orderly

theorem stop {s : EngineState} {why : Halt}
    (hf : f.resume { sch.state with current := 0 } = .stop s why) :
    Heeded origin [] (sch.settle fuel (s.unwind 0 0)).1 (none : Option (Foreground β)) := by
  obtain ⟨signals, start, hheeds⟩ := hh.heedsMain
  rw [hf] at hheeds
  exact hh.actMain hw fuel (acts_unwind hheeds.1 0)
    ((apart_unwind s 0 0).aloof.orderly hheeds.2.orderly)

theorem pause {s : EngineState} {on : Wait} {resume : EngineState → Step α}
    (hf : f.resume { sch.state with current := 0 } = .wait s on resume) :
    Heeded origin [] (sch.settle fuel s).1 (some { on, resume }) := by
  obtain ⟨signals, start, hheeds⟩ := hh.heedsMain
  rw [hf] at hheeds
  obtain ⟨hb, hwait⟩ := bides_of_wait hheeds fuel
  exact { hh.actMain (β := α) hw fuel hheeds.1 hheeds.2.1.orderly with
    foreground := fun g hg => by
      cases hg
      exact ⟨hb, .inr hwait⟩ }

end

/-- The foreground task gives up. -/
theorem giveUp (hh : Heeded origin sch.state.notices.toList sch main) :
    Heeded origin (sch.state.unwind 0 0).notices.toList
      { sch with state := sch.state.unwind 0 0 } (none : Option (Foreground β)) :=
  hh.drop.aloof (apart_unwind sch.state 0 0).aloof

/-- The host starts a task in the foreground. -/
theorem begin (hh : Heeded origin pending sch main) {m : Task β} (hm : Errand sch.state m) :
    Heeded origin pending sch (some { on := .turn, resume := m, woken := true }) :=
  { hh with
    foreground := fun f hf => by
      cases hf
      refine ⟨fun s' hcurrent hs' => ?_, .inl rfl⟩
      have ho : s'.Orderly s'.current := hcurrent ▸ (hh.orderly 0).bides hs'
      obtain ⟨signals, hheeds⟩ := (hm.onward hs'.toOnward).heeds ho
      rw [hcurrent] at hheeds
      exact ⟨signals, s', hheeds⟩ }

/-- Time passes: all that is due can run again. -/
theorem pass (hh : Heeded origin pending sch main) {now : Nat} (hnow : sch.state.now ≤ now) :
    Heeded origin pending
      { sch with
        state := { sch.state with now }
        ready := sch.ready ++ (sch.parked.partition (·.on.isDue { sch.state with now })).1
        parked := (sch.parked.partition (·.on.isDue { sch.state with now })).2 }
      (main.map (·.wakeDue { sch.state with now })) := by
  have honward : sch.state.Onward { sch.state with now } := onward_at hnow
  have hbides (task : TaskId) : sch.state.Bides task { sch.state with now } :=
    ⟨honward, fun _ => rfl⟩
  refine {
    onward := hh.onward.trans honward
    orderly := fun task => (hh.orderly task).bides (hbides task)
    serves := fun task job hn => (hh.serves task job hn).onward honward
    bides := fun t ht => ?_
    parked := fun t ht => ?_
    foreground := fun g hg => ?_ }
  · exact (hh.bides t ((Watched.perm_wake sch _).mem_iff.mp ht)).bides (hbides t.task)
  · rw [List.partition_eq_filter_filter] at ht
    obtain ⟨hmem, hdue⟩ := List.mem_filter.mp ht
    exact (hh.parked t hmem).pass (by simpa using hdue)
  · obtain ⟨f, hf, rfl⟩ := Option.map_eq_some_iff.mp hg
    obtain ⟨hb, hwait⟩ := hh.foreground f hf
    refine ⟨hb.bides (hbides 0), ?_⟩
    cases hdue : f.on.isDue { sch.state with now } with
    | true =>
      left
      show (f.woken || f.on.isDue { sch.state with now }) = true
      rw [hdue, Bool.or_true]
    | false =>
      refine hwait.imp (fun hwoken => ?_) fun hw => hw.pass hdue
      show (f.woken || f.on.isDue { sch.state with now }) = true
      rw [hwoken]
      rfl

/-- After every turn all notices have taken effect. -/
theorem of_settled (hh : Heeded origin [] sch main) (hn : sch.state.notices = #[]) :
    Heeded origin sch.state.notices.toList sch main := by
  rw [hn]
  exact hh

end Heeded

end ScriptEngine
