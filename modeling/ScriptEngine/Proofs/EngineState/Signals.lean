import ScriptEngine.Proofs.EngineState.Agreement

/-! # What becomes of signals

A run is cancelled by its signal.  Runs keep their signals, and a signal that is on stays on
(`EngineState.Onward`).  Of a checkpoint that a task passes although its run is cancelled by then there
is a record (`EngineState.overruns`), by which the tasks can be told from one another: what one task
does (`EngineState.Acts`) adds nothing in the name of another one, which may rely on that while it
waits (`EngineState.Bides`).

A task that is **orderly** has passed at most one such checkpoint of each run.  It stays orderly if it
passes none of a run that was cancelled when it began (`EngineState.Since`), for then the one it passes
is that at which it waited when the run was cancelled (`EngineState.since_pass`).
-/
namespace ScriptEngine

namespace EngineState

/-- How often the task has passed a checkpoint of the run although the run was cancelled by then. -/
def overrunsOf (s : EngineState) (task : TaskId) (run : RunId) : Nat := s.overruns.count (task, run)

/-! ## What is not taken back -/

/-- Runs have kept their signals, and signals that were on are still on. -/
structure Onward (s s' : EngineState) : Prop where
  runs : ∀ id r, s.runs.get? id = some r → ∃ r', s'.runs.get? id = some r' ∧ r'.signal = r.signal
  signals : ∀ id, s.isCancelled id = true → s'.isCancelled id = true

variable {s s' s'' : EngineState} {who : TaskId} {still : Prop}

theorem Onward.refl (s : EngineState) : s.Onward s := ⟨fun _ r hr => ⟨r, hr, rfl⟩, fun _ => id⟩

theorem Onward.trans (hs : s.Onward s') (hs' : s'.Onward s'') : s.Onward s'' where
  runs id r hr := by
    obtain ⟨r', hr', heq'⟩ := hs.runs id r hr
    obtain ⟨r'', hr'', heq''⟩ := hs'.runs id r' hr'
    exact ⟨r'', hr'', heq''.trans heq'⟩
  signals id hid := hs'.signals id (hs.signals id hid)

theorem runCancelled_iff {run : RunId} :
    s.runCancelled run = true ↔
      ∃ r, s.runs.get? run = some r ∧ s.isCancelled r.signal = true := by
  unfold runCancelled
  cases s.runs.get? run <;> simp

/-- A run that is cancelled stays cancelled. -/
theorem Onward.runCancelled (hs : s.Onward s') {run : RunId} (hrun : s.runCancelled run = true) :
    s'.runCancelled run = true := by
  obtain ⟨r, hr, hon⟩ := runCancelled_iff.mp hrun
  obtain ⟨r', hr', heq⟩ := hs.runs run r hr
  exact runCancelled_iff.mpr ⟨r', hr', heq ▸ hs.signals _ hon⟩

theorem Onward.not_runCancelled (hs : s.Onward s') {run : RunId}
    (hrun : s'.runCancelled run = false) : s.runCancelled run = false := by
  rw [← Bool.not_eq_true] at hrun ⊢
  exact fun h => hrun (hs.runCancelled h)

/-- The runs are there, and they have such signals. -/
def Places (s : EngineState) (runs : RunId → Prop) (signals : SignalId → Prop) : Prop :=
  ∀ run, runs run → ∃ r, s.runs.get? run = some r ∧ signals r.signal

theorem Places.onward {runs : RunId → Prop} {signals : SignalId → Prop} (hp : s.Places runs signals)
    (hs : s.Onward s') : s'.Places runs signals := by
  intro run hrun
  obtain ⟨r, hr, hsignal⟩ := hp run hrun
  obtain ⟨r', hr', heq⟩ := hs.runs run r hr
  exact ⟨r', hr', heq ▸ hsignal⟩

/-- If the job is to make a call, then the run is there that the call belongs to. -/
def Serves (s : EngineState) : Job → Prop
  | .call run _ _ _ => ∃ r, s.runs.get? run = some r
  | .send _ _ _ | .recv _ _ => True

theorem Serves.onward {job : Job} (hjob : s.Serves job) (hs : s.Onward s') : s'.Serves job := by
  cases job with
  | call run callee args spread =>
    obtain ⟨r, hr⟩ := hjob
    obtain ⟨r', hr', -⟩ := hs.runs run r hr
    exact ⟨r', hr'⟩
  | send | recv => trivial

/-! ## What a task does, and what others do -/

/-- The task has passed no checkpoint of a run that is not cancelled after that was, and of every other
run at most one. -/
structure Orderly (who : TaskId) (s : EngineState) : Prop where
  most : ∀ run, s.overrunsOf who run ≤ 1
  none : ∀ run, s.runCancelled run = false → s.overrunsOf who run = 0

/-- Since it has begun, the task has passed no checkpoint of a run that was cancelled at that time, and
none at all if it is to be still. -/
structure Since (still : Prop) (who : TaskId) (s s' : EngineState) : Prop extends s.Onward s' where
  orderly : s'.Orderly who
  same : ∀ run, still ∨ s.runCancelled run = true → s'.overrunsOf who run = s.overrunsOf who run

/-- What a task does in one stretch: it makes known which signals it turns on, starts tasks of runs
that are there, and passes checkpoints in its own name only. -/
structure Acts (who : TaskId) (s s' : EngineState) : Prop extends s.Onward s' where
  current : s'.current = who
  told : ∀ id, s'.isCancelled id = true → s.isCancelled id = true ∨ .signal id ∈ s'.notices
  notices : ∀ n ∈ s.notices, n ∈ s'.notices
  jobs : ∀ task job, .started task job ∈ s'.notices →
    .started task job ∈ s.notices ∨ s'.Serves job
  others : ∀ task run, task ≠ who → s'.overrunsOf task run = s.overrunsOf task run

/-- What others do while the task waits. -/
structure Bides (who : TaskId) (s s' : EngineState) : Prop extends s.Onward s' where
  overruns : ∀ run, s'.overrunsOf who run = s.overrunsOf who run

theorem Orderly.bides (ho : s.Orderly who) (hs : s.Bides who s') : s'.Orderly who where
  most run := hs.overruns run ▸ ho.most run
  none run hrun := (hs.overruns run).trans (ho.none run (hs.not_runCancelled hrun))

theorem Bides.trans (hs : s.Bides who s') (hs' : s'.Bides who s'') : s.Bides who s'' :=
  ⟨hs.toOnward.trans hs'.toOnward, fun run => (hs'.overruns run).trans (hs.overruns run)⟩

/-- What one task does is what others do, from where another one stands. -/
theorem Acts.bides (hs : s.Acts who s') {task : TaskId} (hne : task ≠ who) : s.Bides task s' :=
  ⟨hs.toOnward, fun run => hs.others task run hne⟩

theorem Since.refl (ho : s.Orderly who) : s.Since still who s :=
  ⟨.refl s, ho, fun _ _ => rfl⟩

theorem Since.trans (hs : s.Since still who s') (hs' : s'.Since still who s'') :
    s.Since still who s'' where
  toOnward := hs.toOnward.trans hs'.toOnward
  orderly := hs'.orderly
  same run hrun := (hs'.same run (hrun.imp_right hs.runCancelled)).trans (hs.same run hrun)

theorem Since.weaken {still' : Prop} (hs : s.Since still who s') (hstill : still' → still) :
    s.Since still' who s' :=
  ⟨hs.toOnward, hs.orderly, fun run hrun => hs.same run (hrun.imp_left hstill)⟩

theorem Since.bides (hs : s.Since still who s') (hb : s'.Bides who s'') : s.Since still who s'' :=
  ⟨hs.toOnward.trans hb.toOnward, hs.orderly.bides hb,
    fun run hrun => (hb.overruns run).trans (hs.same run hrun)⟩

theorem Acts.trans (hs : s.Acts who s') (hs' : s'.Acts who s'') : s.Acts who s'' where
  toOnward := hs.toOnward.trans hs'.toOnward
  current := hs'.current
  told id hid := by
    rcases hs'.told id hid with hid | hn
    · exact (hs.told id hid).imp_right (hs'.notices _)
    · exact .inr hn
  notices n hn := hs'.notices n (hs.notices n hn)
  jobs task job hn := by
    rcases hs'.jobs task job hn with hn | hserves
    · exact (hs.jobs task job hn).imp_right fun hserves => hserves.onward hs'.toOnward
    · exact .inr hserves
  others task run hne := (hs'.others task run hne).trans (hs.others task run hne)

/-! ## Changes that have nothing to do with signals -/

/-- No signal has been turned on, no checkpoint passed, and no task started. -/
structure Aloof (s s' : EngineState) : Prop where
  runs : ∀ id r, s.runs.get? id = some r → ∃ r', s'.runs.get? id = some r' ∧ r'.signal = r.signal
  signals : s'.signals = s.signals
  now : s'.now = s.now
  current : s'.current = s.current
  overruns : s'.overruns = s.overruns
  notices : ∀ n ∈ s.notices, n ∈ s'.notices
  jobs : ∀ task job, .started task job ∈ s'.notices → .started task job ∈ s.notices

theorem Aloof.refl (s : EngineState) : s.Aloof s :=
  ⟨fun _ r hr => ⟨r, hr, rfl⟩, rfl, rfl, rfl, rfl, fun _ => id, fun _ _ => id⟩

theorem Aloof.trans (ha : s.Aloof s') (hb : s'.Aloof s'') : s.Aloof s'' where
  runs id r hr := by
    obtain ⟨r', hr', heq'⟩ := ha.runs id r hr
    obtain ⟨r'', hr'', heq''⟩ := hb.runs id r' hr'
    exact ⟨r'', hr'', heq''.trans heq'⟩
  signals := hb.signals.trans ha.signals
  now := hb.now.trans ha.now
  current := hb.current.trans ha.current
  overruns := hb.overruns.trans ha.overruns
  notices n hn := hb.notices n (ha.notices n hn)
  jobs task job hn := ha.jobs task job (hb.jobs task job hn)

theorem Apart.aloof (ha : s.Apart s') : s.Aloof s' where
  runs _ r hr := ⟨r, ha.runs ▸ hr, rfl⟩
  signals := ha.signals
  now := ha.now
  current := ha.current
  overruns := ha.overruns
  notices _ hn := ha.notices ▸ hn
  jobs _ _ hn := ha.notices ▸ hn

theorem aloof_modifyRun (s : EngineState) (run : RunId) {f : Run → Run}
    (hf : ∀ r, (f r).signal = r.signal) : s.Aloof (s.modifyRun run f) :=
  { Aloof.refl s with
    runs := fun id r hr => by
      show ∃ r', (s.runs.modify run f).get? id = some r' ∧ r'.signal = r.signal
      rw [Store.get?_modify_eq]
      split
      · rename_i heq
        subst heq
        exact ⟨f r, by rw [hr]; rfl, hf r⟩
      · exact ⟨r, hr, rfl⟩ }

theorem aloof_refuse (s : EngineState) (r : Refusal) : s.Aloof (s.refuse r) := { Aloof.refl s with }

theorem aloof_complain (s : EngineState) (m : Misfit) : s.Aloof (s.complain m) := { Aloof.refl s with }

theorem aloof_notify (s : EngineState) (chan : ChanId) : s.Aloof (s.notify (.channel chan)) :=
  { Aloof.refl s with
    notices := fun _ hn => Array.mem_push_of_mem _ hn
    jobs := fun _ _ hn => (Array.mem_push.mp hn).resolve_right nofun }

namespace Aloof
variable (ha : s.Aloof s')
include ha

theorem isCancelled (id : SignalId) : s'.isCancelled id = s.isCancelled id := by
  rw [EngineState.isCancelled, EngineState.signal, ha.signals, ha.now]
  rfl

theorem onward : s.Onward s' := ⟨ha.runs, fun id hid => ha.isCancelled id ▸ hid⟩

theorem overrunsOf (task : TaskId) (run : RunId) : s'.overrunsOf task run = s.overrunsOf task run := by
  rw [EngineState.overrunsOf, ha.overruns, EngineState.overrunsOf]

theorem acts (hwho : s.current = who) : s.Acts who s' where
  toOnward := ha.onward
  current := ha.current.trans hwho
  told id hid := .inl (ha.isCancelled id ▸ hid)
  notices := ha.notices
  jobs task job hn := .inl (ha.jobs task job hn)
  others task run _ := ha.overrunsOf task run

theorem orderly (ho : s.Orderly who) : s'.Orderly who := ho.bides ⟨ha.onward, ha.overrunsOf who⟩

theorem since (ho : s.Orderly who) : s.Since still who s' where
  toOnward := ha.onward
  orderly := ha.orderly ho
  same run _ := ha.overrunsOf who run

end Aloof

/-! ## Changes that have -/

theorem isCancelled_cancel {signal id : SignalId} (hid : (s.cancel signal).isCancelled id = true) :
    s.isCancelled id = true ∨ id = signal := by
  by_cases heq : id = signal
  · exact .inr heq
  · left
    rw [isCancelled, EngineState.signal] at hid ⊢
    have hsame : (s.cancel signal).signals.get? id = s.signals.get? id := Store.get?_modify_of_ne heq
    rwa [hsame] at hid

theorem onward_cancel (s : EngineState) (signal : SignalId) : s.Onward (s.cancel signal) where
  runs _ r hr := ⟨r, hr, rfl⟩
  signals id hid := by
    rw [isCancelled, EngineState.signal] at hid ⊢
    show (((s.signals.modify signal _).get? id).getD default).isOn s.now = true
    rw [Store.get?_modify_eq]
    split
    · subst id
      cases hs : s.signals.get? signal with
      | none => rwa [hs] at hid
      | some g => rfl
    · exact hid

/-- Turning on a signal is made known. -/
theorem acts_cancel (hwho : s.current = who) (signal : SignalId) : s.Acts who (s.cancel signal) where
  toOnward := onward_cancel s signal
  current := hwho
  told id hid := (isCancelled_cancel hid).imp_right fun heq => by
    subst heq
    exact Array.mem_push_self
  notices _ hn := Array.mem_push_of_mem _ hn
  jobs _ _ hn := .inl ((Array.mem_push.mp hn).resolve_right nofun)
  others _ _ _ := rfl

theorem since_cancel (ho : s.Orderly who) (signal : SignalId) :
    s.Since still who (s.cancel signal) where
  toOnward := onward_cancel s signal
  orderly := ho.bides ⟨onward_cancel s signal, fun _ => rfl⟩
  same _ _ := rfl

theorem acts_start (hwho : s.current = who) {job : Job} (hjob : s.Serves job) :
    s.Acts who (s.start job).2 where
  toOnward := ⟨fun _ r hr => ⟨r, hr, rfl⟩, fun _ => id⟩
  current := hwho
  told _ hid := .inl hid
  notices _ hn := Array.mem_push_of_mem _ hn
  jobs _ _ hn := by
    rcases Array.mem_push.mp hn with hn | heq
    · exact .inl hn
    · cases heq
      exact .inr (hjob.onward ⟨fun _ r hr => ⟨r, hr, rfl⟩, fun _ => id⟩)
  others _ _ _ := rfl

theorem since_start (ho : s.Orderly who) (job : Job) : s.Since still who (s.start job).2 :=
  ⟨⟨fun _ r hr => ⟨r, hr, rfl⟩, fun _ => id⟩, ⟨ho.most, ho.none⟩, fun _ _ => rfl⟩

/-! ## Passing a checkpoint -/

theorem onward_pass (s : EngineState) (run : RunId) : s.Onward (s.pass run) := by
  rw [pass_eq]
  exact ⟨fun _ r hr => ⟨r, hr, rfl⟩, fun _ => id⟩

theorem runCancelled_pass (s : EngineState) (run other : RunId) :
    (s.pass run).runCancelled other = s.runCancelled other := by
  rw [pass_eq]
  rfl

theorem overrunsOf_pass_of_ne (s : EngineState) {run other : RunId} {task : TaskId}
    (hne : (task, other) ≠ (s.current, run)) :
    (s.pass run).overrunsOf task other = s.overrunsOf task other := by
  unfold pass
  split
  · exact List.count_cons_of_ne hne.symm
  · rfl

theorem overrunsOf_pass_le (s : EngineState) (run : RunId) :
    (s.pass run).overrunsOf s.current run ≤ s.overrunsOf s.current run + 1 := by
  unfold pass
  split
  · exact Nat.le_of_eq List.count_cons_self
  · exact Nat.le_succ _

theorem pass_of_not_cancelled {run : RunId} (hrun : s.runCancelled run = false) : s.pass run = s := by
  rw [pass, hrun]
  rfl

theorem acts_pass (hwho : s.current = who) (run : RunId) : s.Acts who (s.pass run) where
  toOnward := onward_pass s run
  current := by rw [pass_eq]; exact hwho
  told id hid := by
    rw [pass_eq] at hid
    exact .inl hid
  notices _ hn := by rwa [pass_eq]
  jobs _ _ hn := by
    rw [pass_eq] at hn
    exact .inl hn
  others _ _ hne := s.overrunsOf_pass_of_ne fun heq => by
    cases heq
    exact hne hwho

/-- **The checkpoint at which a task was when its run was cancelled is the only one that it passes**: the
task had not passed any by then, and what it has done since was no more than the parts of the
checkpoint. -/
theorem since_pass {run : RunId} (hoff : s.runCancelled run = false) (hs : s.Since True who s')
    (hwho : s'.current = who) (ho : s.Orderly who) : s.Since False who (s'.pass run) where
  toOnward := hs.toOnward.trans (s'.onward_pass run)
  orderly := by
    have hnone : s'.overrunsOf who run = 0 := (hs.same run (.inl trivial)).trans (ho.none run hoff)
    constructor
    · intro other
      by_cases heq : other = run
      · subst heq
        have := s'.overrunsOf_pass_le other
        rw [hwho] at this
        omega
      · rw [s'.overrunsOf_pass_of_ne fun h => heq (Prod.ext_iff.mp h).2]
        exact hs.orderly.most other
    · intro other hother
      rw [runCancelled_pass] at hother
      by_cases heq : other = run
      · subst heq
        rwa [pass_of_not_cancelled hother]
      · rw [s'.overrunsOf_pass_of_ne fun h => heq (Prod.ext_iff.mp h).2]
        exact hs.orderly.none other hother
  same other hother := by
    have hne : other ≠ run := by
      rintro rfl
      rw [hoff] at hother
      exact hother.elim id Bool.false_ne_true
    rw [s'.overrunsOf_pass_of_ne fun h => hne (Prod.ext_iff.mp h).2]
    exact hs.same other (.inl trivial)

end EngineState

end ScriptEngine
