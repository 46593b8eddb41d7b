import ScriptEngine.Proofs.Scheduler.Alone
import ScriptEngine.Proofs.Scheduler.Lockstep
import ScriptEngine.Tree.Builder

/-! # A limit on the rate only delays

A run with a limiter pauses once it has used up the cycles of a window.  Nothing but time passes while
it pauses, if no other task runs meanwhile: then what the run comes to does not depend on its limiter
(`limiter_only_delays`).  Either run may pause where the other one goes on, so that the two are not in
lockstep; but whenever both have come to the same point, their states are the `SameButPace`.

Other tasks make a difference, also those that share no channel with the run, and also if the script
itself starts none: a function that it calls may start one, which changes what the script looks at
while it pauses (`limiter_decides`).
-/
namespace ScriptEngine

variable {α : Type}

/-- The runs are the same but for their limiters. -/
def RunPaced (_ : RunId) (x y : Run) : Prop := y = { x with limiter := y.limiter }

section
variable (run : RunId) (signal : SignalId) (count : Nat)

/-- **The states are the same but for the time, the notices and the limiters.**  The foreground task
runs, on account of a run whose signal is neither on nor has a deadline; and of `count` tasks that
there ever were no other is about to start. -/
structure SameButPace (s s' : EngineState) : Prop
    extends s.Agree (fun _ x y => y = x) RunPaced s' where
  follows : (s.run run).signal = signal
  going : s.signals.get? signal = some {}
  tasks : s.held.next = count
  foreground : s.current = 0
  calm : s.Calm
  calm' : s'.Calm

/-- The pace makes no difference until a task has been started or the run is cancelled. -/
def pace : Likeness where
  states := SameButPace run signal count
  waits on on' := (on' = on ∨ ∃ due due', on = .time due ∧ on' = .time due') ∧
    ∀ other, on.signal? = some other → other = signal
  pauses := True
  lost s := count < s.held.next ∨ (s.signal signal).cancelled = true
  runs := (· = run)
  signals := (· = signal)

end

variable {run : RunId} {signal : SignalId} {count : Nat} {s s' t t' : EngineState}

/-- Channels may change without a task being started. -/
theorem EngineState.Calm.notify {n : Notice} (hs : s.Calm) (hn : ∀ task job, n ≠ .started task job) :
    (s.notify n).Calm := by
  intro task job hin
  obtain hin | hin := Array.mem_push.mp (Array.mem_toList_iff.mp hin)
  · exact hs task job (Array.mem_toList_iff.mpr hin)
  · exact hn task job hin.symm

namespace SameButPace

theorem symm (hs : SameButPace run signal count s s') : SameButPace run signal count s' s where
  toAgree := hs.toAgree.symm (fun _ _ _ => Eq.symm) fun _ x y hxy => by rw [RunPaced, hxy]
  follows := by
    have hrun : RunPaced run (s.run run) (s'.run run) := hs.toAgree.run (fun _ => rfl) run
    rw [hrun]
    exact hs.follows
  going := by rw [hs.signals, hs.going]
  tasks := by rw [hs.held, hs.tasks]
  foreground := by rw [hs.current, hs.foreground]
  calm := hs.calm'
  calm' := hs.calm

theorem trans (hs : SameButPace run signal count s t) (ht : SameButPace run signal count t s') :
    SameButPace run signal count s s' :=
  { hs with
    toAgree := hs.toAgree.trans (fun _ _ _ _ hxy hyz => hyz.trans hxy)
      (fun _ x y z hxy hyz => by rw [RunPaced, hyz, hxy]) ht.toAgree
    calm' := ht.calm' }

section
variable (hs : SameButPace run signal count s s')
include hs

theorem left : SameButPace run signal count s s := hs.trans hs.symm

theorem right : SameButPace run signal count s' s' := hs.symm.trans hs

theorem runPaced (id : RunId) : RunPaced id (s.run id) (s'.run id) :=
  hs.toAgree.run (fun _ => rfl) id

theorem governor_eq (g : GovernorId) : s'.governor g = s.governor g :=
  hs.toAgree.governor (fun _ => rfl) g

/-- What is done to objects, slots and holdings does not depend on the pace. -/
theorem apart (ha : s.Apart t) (ha' : s'.Apart t') (ht : t.Agree (fun _ x y => y = x) RunPaced t') :
    SameButPace run signal count t t' where
  toAgree := ht
  follows := by
    rw [EngineState.run, ha.runs]
    exact hs.follows
  going := by rw [ha.signals, hs.going]
  tasks := by rw [ha.tasks, hs.tasks]
  foreground := by rw [ha.current, hs.foreground]
  calm := by
    unfold EngineState.Calm
    rw [ha.notices]
    exact hs.calm
  calm' := by
    unfold EngineState.Calm
    rw [ha'.notices]
    exact hs.calm'

/-- A checkpoint is passed on both sides. -/
theorem pass (id : RunId) : SameButPace run signal count (s.pass id) (s'.pass id) := by
  have hagree := hs.toAgree.pass id id
  rw [s.pass_eq, s'.pass_eq] at hagree ⊢
  exact { hs with toAgree := hagree }

/-- Runs change, but their signals stay. -/
theorem modifyRun (id : RunId) {f f' : Run → Run} (hsignal : ∀ r, (f r).signal = r.signal)
    (hf : ∀ x y, RunPaced id x y → RunPaced id (f x) (f' y)) :
    SameButPace run signal count (s.modifyRun id f) (s'.modifyRun id f') :=
  { hs with
    toAgree := hs.toAgree.modifyRun id fun x y _ hxy => hf x y hxy
    follows := by
      rw [(EngineState.aside_modifyRun s id hsignal).signal run]
      exact hs.follows }

/-- The tasks go on, at whatever time. -/
theorem resumed (now now' : Nat) :
    SameButPace run signal count (s.resumed now) (s'.resumed now') :=
  { hs with
    toAgree := { hs.toAgree with current := rfl }
    foreground := rfl
    calm := fun _ _ => nofun
    calm' := fun _ _ => nofun }

/-- Nothing but time passes. -/
theorem resumes (now : Nat) : SameButPace run signal count s (s.resumed now) :=
  { hs.left with
    toAgree := { hs.left.toAgree with current := hs.foreground.symm }
    calm' := fun _ _ => nofun }

/-! ## Waiting -/

theorem isCancelled : s.isCancelled signal = false := by
  rw [EngineState.isCancelled, EngineState.signal, hs.going]
  rfl

/-- No wait is over because of a signal. -/
theorem goes {on : Wait} (hon : ∀ other, on.signal? = some other → other = signal) :
    on.signal?.any s.isCancelled = false := by
  cases hsignal : on.signal? with
  | none => rfl
  | some other =>
    rw [hon other hsignal]
    exact hs.isCancelled

theorem checkWait {on : Wait} (hon : ∀ other, on.signal? = some other → other = signal) :
    Eval.checkWait on s = .done s (.ok ()) := by
  rw [Eval.checkWait_apply, hs.goes hon]
  rfl

theorem await_eq {on : Wait} (hon : ∀ other, on.signal? = some other → other = signal) :
    Eval.await on s = .wait s on (Eval.checkWait on) := by
  rw [Eval.await_apply, hs.goes hon]
  rfl

theorem await {on : Wait} (hon : ∀ other, on.signal? = some other → other = signal) :
    Parallel (pace run signal count) (fun _ => True) (Eval.await on s) (Eval.await on s') := by
  rw [hs.await_eq hon, hs.right.await_eq hon]
  refine .wait hs ⟨.inl rfl, hon⟩ fun t t' ht => ?_
  rw [ht.left.checkWait hon, ht.right.checkWait hon]
  exact .done ht trivial

theorem sleep (ms : Nat) : Parallel (pace run signal count) (fun _ => True)
    ((ExceptT.lift (Task.sleep ms) : Eval Unit) s) ((ExceptT.lift (Task.sleep ms) : Eval Unit) s') := by
  rw [Eval.sleep_apply, Eval.sleep_apply]
  split
  · exact .done hs trivial
  · exact .wait hs ⟨.inr ⟨_, _, rfl, rfl⟩, nofun⟩ fun _ _ ht => .done ht trivial

/-! ## Ticks -/

/-- One side is through with a tick, and the other one may have to pause. -/
theorem lags (due : Option Nat) :
    Parallel (pace run signal count) (fun _ => True) (.done s (.ok ()))
      (match due with
      | none => .done s' (.ok ())
      | some due => Eval.await (.pause due signal) s') := by
  cases due with
  | none => exact .done hs trivial
  | some due =>
    have hon : ∀ other, (Wait.pause due signal).signal? = some other → other = signal :=
      fun _ h => (Option.some.inj h).symm
    simp only
    rw [hs.right.await_eq hon]
    refine .lag trivial rfl hs.right fun t ht => ?_
    rw [ht.right.checkWait hon]
    exact .done (hs.trans ht) trivial

/-- **A tick pauses or it does not**, on each side as it comes. -/
theorem tick : Parallel (pace run signal count) (fun _ => True) (Eval.tick run s) (Eval.tick run s') := by
  rw [Eval.tick_apply, Eval.tick_apply]
  generalize (s.run run).limiter.tick s.now = r
  generalize (s'.run run).limiter.tick s'.now = r'
  have hcounted : SameButPace run signal count (s.modifyRun run fun x => { x with limiter := r.1 })
      (s'.modifyRun run fun x => { x with limiter := r'.1 }) :=
    hs.modifyRun run (fun _ => rfl) fun x y hxy => by rw [RunPaced, hxy]
  simp only [hcounted.left.follows, hcounted.right.follows]
  cases hdue : r.2 with
  | none => exact hcounted.lags r'.2
  | some due =>
    have hon : ∀ other, (Wait.pause due signal).signal? = some other → other = signal :=
      fun _ h => (Option.some.inj h).symm
    simp only
    rw [hcounted.left.await_eq hon]
    refine .pause trivial rfl hcounted.left fun t ht => ?_
    rw [ht.right.checkWait hon]
    exact (ht.symm.trans hcounted).lags r'.2

/-! ## Slots and lengths -/

theorem tidied (g : GovernorId) : SameButPace run signal count (s.tidied g) (s'.tidied g) := by
  unfold EngineState.tidied
  rw [hs.governor_eq]
  split
  · exact hs.apart s.apart_collect s'.apart_collect
      (hs.toAgree.collect fun _ x y hxy => by rw [hxy])
  · exact hs

theorem refuse (r : Refusal) : SameButPace run signal count (s.refuse r) (s'.refuse r) :=
  { hs with toAgree := hs.toAgree.refuse r }

theorem complain (m : Misfit) : SameButPace run signal count (s.complain m) (s'.complain m) :=
  { hs with toAgree := hs.toAgree.complain m }

theorem openScope (parent : ScopeId) :
    Parallel (pace run signal count) (fun _ => True) (Eval.openScope parent s)
      (Eval.openScope parent s') := by
  generalize hg : (s.heap.scope parent).governor = g
  have hg' : (s'.heap.scope parent).governor = g := by rw [hs.heap, hg]
  have ht := hs.tidied g
  rw [Eval.openScope_apply, Eval.openScope_apply, EngineState.addChild_eq hg rfl,
    EngineState.addChild_eq hg' rfl, hg, hg', ht.governor_eq]
  cases hfull : ((s.tidied g).governor g).isFull with
  | false =>
    simp only [Bool.false_eq_true, if_false]
    rw [ht.heap]
    have hopened := ht.toAgree.opened g parent fun x y _ (hxy : y = x) => by rw [hxy]
    exact .done { ht with toAgree := hopened } trivial
  | true =>
    simp only [if_true]
    exact .done (ht.refuse _) trivial

theorem checkLength (id : RunId) (length : Nat) :
    Parallel (pace run signal count) (fun _ => True) (Eval.checkLength id length s)
      (Eval.checkLength id length s') := by
  have hmax : (s'.run id).maxElements = (s.run id).maxElements := by rw [hs.runPaced id]
  rw [Eval.checkLength_apply, Eval.checkLength_apply, hmax]
  split
  · exact .done (hs.refuse _) trivial
  · exact .done hs trivial

/-! ## Where all is lost -/

/-- A task is started. -/
theorem start (job : Job) : Parallel (pace run signal count) (fun _ => True)
    (Eval.update (·.start job) s) (Eval.update (·.start job) s') := by
  refine .lost (k := (s.start job).2) (.inl ?_) ⟨⟨Nat.le_refl _, fun _ h => h, List.suffix_refl _, ?_⟩,
    trivial⟩
  · show count < (s.held.push _).next
    rw [Store.next_push, hs.tasks]
    exact Nat.lt_succ_self count
  · rintro _ rfl
    exact hs.follows

/-- The run is cancelled. -/
theorem cancel : Parallel (pace run signal count) (fun _ => True)
    (Eval.modify (·.cancel signal) s) (Eval.modify (·.cancel signal) s') := by
  refine .lost (k := s.cancel signal) (.inr ?_) ⟨⟨Nat.le_refl _, fun _ h => h, List.suffix_refl _, ?_⟩,
    trivial⟩
  · show (((s.signals.modify signal _).get? signal).getD default).cancelled = true
    rw [Store.get?_modify_self, hs.going]
    rfl
  · rintro _ rfl
    exact hs.follows

end

end SameButPace

/-! ## Runs at different paces -/

/-- **A difference of pace withstands evaluation.** -/
theorem robust_pace (run : RunId) (signal : SignalId) (count : Nat) : (pace run signal count).Robust where
  heap_eq hs := hs.heap
  frames_eq hs := hs.frames
  held_eq hs := hs.held
  current_eq hs := hs.current
  signal_eq hs hrun := by
    cases hrun
    exact ⟨hs.right.follows.trans hs.follows.symm, hs.follows⟩
  cycles_eq hs _ := by rw [hs.runPaced]
  heap h hs := hs.apart (EngineState.apart_heap _ h) (EngineState.apart_heap _ h)
    (hs.toAgree.withHeap h)
  frames frames hs := { hs with toAgree := hs.toAgree.withFrames frames }
  defer frame call hs := { hs with toAgree := hs.toAgree.defer frame call }
  notify chan hs := { hs with
    calm := hs.calm.notify nofun
    calm' := hs.calm'.notify nofun }
  hold x hs := hs.apart (EngineState.apart_hold _ x) (EngineState.apart_hold _ x)
    (hs.toAgree.hold x)
  letGoOf task hs := hs.apart (EngineState.apart_letGoOf _ task) (EngineState.apart_letGoOf _ task)
    (hs.toAgree.letGoOf (fun _ x y hxy => by rw [hxy]) task)
  capture scope hs := hs.apart (EngineState.apart_capture _ scope)
    (EngineState.apart_capture _ scope) (hs.toAgree.capture scope)
  spend n hs _ := hs.modifyRun _ (fun _ => rfl) fun x y hxy => by rw [RunPaced, hxy]
  pass run hs := hs.pass run
  complain m hs := hs.complain m
  openScope parent hs := hs.openScope parent
  checkSignal hs hsignal := by
    cases hsignal
    rw [Eval.checkSignal_apply, Eval.checkSignal_apply, hs.isCancelled, hs.right.isCancelled]
    exact .done hs trivial
  await hs hon := hs.await hon
  sleep ms hs := hs.sleep ms
  tick hs hrun := by
    cases hrun
    exact hs.tick
  checkLength length hs _ := hs.checkLength _ length
  cancel hs hsignal := by
    cases hsignal
    exact hs.cancel
  start job hs := hs.start job

/-- Waits that are alike are over on both sides, if they are ever over. -/
theorem Wait.resumesAt_of_pace {on on' : Wait} (hon : (pace run signal count).waits on on')
    {begun now : Nat} (hnow : on.resumesAt begun = some now) (begun' : Nat) :
    ∃ now', on'.resumesAt begun' = some now' := by
  obtain ⟨rfl | ⟨due, due', rfl, rfl⟩, -⟩ := hon
  · cases on' with
    | turn | time due | pause due signal => exact ⟨_, rfl⟩
    | _ => cases hnow
  · exact ⟨_, rfl⟩

/-- What is lost stays lost. -/
theorem lost_accrues (ha : (pace run signal count).accrues s s')
    (hs : (pace run signal count).lost s) : (pace run signal count).lost s' :=
  hs.imp (fun hmore => Nat.lt_of_lt_of_le hmore ha.tasks) (ha.cancelled signal)

namespace SameButPace

section
variable (hs : SameButPace run signal count s s')
include hs

theorem deadline_eq {on : Wait} (hon : ∀ other, on.signal? = some other → other = signal) :
    on.deadline? s = none := by
  unfold Wait.deadline?
  cases hsignal : on.signal? with
  | none => rfl
  | some other =>
    show (s.signal other).deadline = none
    rw [hon other hsignal, EngineState.signal, hs.going]
    rfl

/-- If the first side waits and is done in the end, then it goes on at some time. -/
theorem goesOn {on : Wait} {resume : EngineState → Step α} {s₀ : EngineState} {sch : Scheduler}
    {fuel deadline turns : Nat} {a : α} (hon : ∀ other, on.signal? = some other → other = signal)
    (hobserves : ObservesOn id (pace run signal count).accrues (.wait s on resume) s₀)
    (hdone : (Scheduler.alone s₀).proceed fuel deadline turns (.wait s on resume) = (sch, .done a)) :
    ∃ now turns', on.resumesAt s.now = some now ∧
      ObservesOn id (pace run signal count).accrues (resume (s.resumed now)) (s.resumed now) ∧
      (pace run signal count).accrues (s.resumed now) (s.resumed now) ∧
      (Scheduler.alone (s.resumed now)).proceed fuel deadline turns' (resume (s.resumed now)) =
        (sch, .done a) := by
  have hwaits : (Scheduler.alone s₀).proceed fuel deadline turns (.wait s on resume) =
      (Scheduler.alone { s with notices := #[] }).drive fuel deadline turns { on, resume } := by
    rw [Scheduler.proceed, Scheduler.settle_alone s₀ fuel hs.calm]
  rw [hwaits] at hdone
  obtain ⟨now, turns', hnow, hrest⟩ :=
    Scheduler.resumes_of_done (s := { s with notices := #[] }) (hs.deadline_eq hon) hdone
  have haccrues : (pace run signal count).accrues s (s.resumed now) :=
    ⟨Nat.le_refl _, fun _ h => h, List.suffix_refl _, hobserves.1.signal⟩
  have hresumed : { s with notices := #[], now } = s.resumed now := by
    rw [EngineState.resumed, ← hs.foreground]
  have hproceeds : (Scheduler.alone { s with notices := #[], now }).proceed fuel deadline turns'
      (resume (s.resumed now)) = (sch, .done a) := hrest
  rw [hresumed] at hproceeds
  exact ⟨now, turns', hnow, hobserves.2 _ haccrues, haccrues.stays, hproceeds⟩

end

end SameButPace

/-- **If the first side is done in the end, so is the second**, and with the same result.  The
induction is on how the sides run in parallel: they wait for the same, or one of them pauses. -/
theorem Parallel.finishes {Q : α → Prop} {x y : Step α} (hxy : Parallel (pace run signal count) Q x y)
    {s₀ : EngineState} (hobserves : ObservesOn id (pace run signal count).accrues x s₀)
    (hvalid : (pace run signal count).accrues s₀ s₀) {fuel deadline turns : Nat} {sch : Scheduler}
    {a : α} (hdone : (Scheduler.alone s₀).proceed fuel deadline turns x = (sch, .done a))
    (hkept : ¬ (pace run signal count).lost sch.state) :
    ∃ t, Finishes a t y ∧ SameButPace run signal count sch.state { t with notices := #[] } := by
  induction hxy generalizing s₀ turns with
  | @done s s' _ hs _ =>
    cases hdone
    refine ⟨s', .done, ?_⟩
    rw [Scheduler.settle_state]
    exact { hs with calm := fun _ _ => nofun, calm' := fun _ _ => nofun }
  | stop hs => cases hdone
  | @wait s s' on on' resume resume' hs hon _ ih =>
    obtain ⟨now, turns', hnow, hobserves', hvalid', hrest⟩ := hs.goesOn hon.2 hobserves hdone
    obtain ⟨now', hnow'⟩ := Wait.resumesAt_of_pace hon hnow s'.now
    obtain ⟨t, ht, hsame⟩ := ih _ _ (hs.resumed now now') hobserves' hvalid' hrest
    have hon' : ∀ other, on'.signal? = some other → other = signal := by
      obtain ⟨rfl | ⟨_, _, rfl, rfl⟩, hon⟩ := hon
      · exact hon
      · exact nofun
    exact ⟨t, .wait hs.calm' (hs.right.deadline_eq hon') hnow' ht, hsame⟩
  | @pause s due other resume y _ hsignal hs _ ih =>
    have hon : ∀ other', (Wait.pause due other).signal? = some other' → other' = signal :=
      fun _ h => (Option.some.inj h).symm.trans hsignal
    obtain ⟨now, turns', -, hobserves', hvalid', hrest⟩ := hs.goesOn hon hobserves hdone
    exact ih _ (hs.trans (hs.resumes now)) hobserves' hvalid' hrest
  | @lag s due other resume x _ hsignal hs _ ih =>
    have hon : ∀ other', (Wait.pause due other).signal? = some other' → other' = signal :=
      fun _ h => (Option.some.inj h).symm.trans hsignal
    obtain ⟨t, ht, hsame⟩ := ih _ (hs.resumes (max s.now due)) hobserves hvalid hdone
    exact ⟨t, .wait hs.calm (hs.deadline_eq hon) rfl ht, hsame⟩
  | lost hk hx =>
    refine absurd (lost_accrues ?_ hk) hkept
    rw [← show ((Scheduler.alone s₀).proceed fuel deadline turns _).1 = sch by rw [hdone]]
    exact (Scheduler.alone_safe hvalid).proceed habits_accrues.discipline hobserves
      (hx.on habits_accrues.toLaw)

/-! ## Limiters -/

/-- The scheduler in whose state the run has this limiter. -/
def Scheduler.withLimiter (sch : Scheduler) (run : RunId) (limiter : Limiter) : Scheduler :=
  { sch with state := sch.state.modifyRun run fun r => { r with limiter } }

/-- No task is under way in the background, and none is about to start. -/
structure Scheduler.Lonely (sch : Scheduler) : Prop where
  ready : sch.ready = []
  parked : sch.parked = []
  yielded : sch.yielded = []
  calm : sch.state.Calm

theorem Scheduler.Lonely.eq_alone {sch : Scheduler} (hs : sch.Lonely) :
    sch = alone sch.state := by
  obtain ⟨hready, hparked, hyielded, -⟩ := hs
  cases sch
  cases hready
  cases hparked
  cases hyielded
  rfl

/-- How a run ended: with this result, these objects and scopes, and this cycle count.  The run has
not been cancelled, and there are as many tasks as there ever were. -/
structure Delivery (run : RunId) (signal : SignalId) (count : Nat) (r : Engine.Result Value) (h : Heap)
    (cycles : Nat) (ended : Scheduler × Scheduler.Finish (Engine.Result Value)) : Prop where
  result : ended.2 = .done r
  heap : ended.1.state.heap = h
  cycles : (ended.1.state.run run).cycles = cycles
  tasks : ended.1.state.held.next = count
  going : (ended.1.state.signal signal).cancelled = false

namespace Delivery
variable {r : Engine.Result Value} {h : Heap} {cycles : Nat}
  {ended ended' : Scheduler × Scheduler.Finish (Engine.Result Value)}
  (hd : Delivery run signal count r h cycles ended)
include hd

theorem kept : ¬ (pace run signal count).lost ended.1.state := by
  rintro (hmore | hcancelled)
  · exact absurd hd.tasks (Nat.ne_of_gt hmore)
  · rw [hd.going] at hcancelled
    cases hcancelled

/-- A run that has ended in the same way but for the pace has ended like this as well. -/
theorem same (hsame : SameButPace run signal count ended.1.state ended'.1.state)
    (hdone : ended'.2 = .done r) : Delivery run signal count r h cycles ended' where
  result := hdone
  heap := hsame.heap.trans hd.heap
  cycles := by rw [hsame.runPaced run, ← hd.cycles]
  tasks := hsame.right.tasks
  going := by rw [EngineState.signal, hsame.right.going]; rfl

end Delivery

/-- **Given enough time, the run of the script ends like this**: under every deadline that is late
enough, with turns enough. -/
def Scheduler.Delivers (sch : Scheduler) (fuel : Nat) (e : Engine) (run : RunId) (script : Block)
    (r : Engine.Result Value) (h : Heap) (cycles : Nat) : Prop :=
  ∃ deadline turns, ∀ deadline' turns', deadline ≤ deadline' → turns ≤ turns' →
    Delivery run (sch.state.run run).signal sch.state.held.next r h cycles
      (sch.drive fuel deadline' turns'
        { on := .turn, resume := e.execute fuel run script, woken := true })

section
variable {sch : Scheduler} (hs : sch.Lonely) (hfollows : (sch.state.run run).signal = signal)
  (hgoing : sch.state.signals.get? signal = some {}) (hcount : sch.state.held.next = count)
include hs hfollows hgoing hcount

/-- Limiters make a difference of pace. -/
theorem sameButPace_withLimiter (l l' : Limiter) :
    SameButPace run signal count { (sch.withLimiter run l).state with current := 0 }
      { (sch.withLimiter run l').state with current := 0 } := by
  have hagree : sch.state.Agree (fun _ x y => y = x) RunPaced sch.state := by
    refine .refl (fun _ _ => ?_) (fun _ _ => ?_) _ <;> rfl
  have hsame : SameButPace run signal count { sch.state with current := 0 }
      { sch.state with current := 0 } :=
    { toAgree := { hagree with current := rfl }
      follows := hfollows
      going := hgoing
      tasks := hcount
      foreground := rfl
      calm := hs.calm
      calm' := hs.calm }
  exact hsame.modifyRun run (fun _ => rfl) fun x y hxy => by rw [RunPaced, hxy]

/-- **A run that ends would end like this with any other limiter**, under every deadline that is late
enough. -/
theorem delivery_at_any_pace (l l' : Limiter) {fuel deadline turns : Nat} {e : Engine}
    {script : Block} {r : Engine.Result Value} {h : Heap} {cycles : Nat}
    (hended : Delivery run signal count r h cycles ((sch.withLimiter run l).drive fuel deadline turns
      { on := .turn, resume := e.execute fuel run script, woken := true })) :
    ∃ deadline turns, ∀ deadline' turns', deadline ≤ deadline' → turns ≤ turns' →
      Delivery run signal count r h cycles ((sch.withLimiter run l').drive fuel deadline' turns'
        { on := .turn, resume := e.execute fuel run script, woken := true }) := by
  have hstart := sameButPace_withLimiter hs hfollows hgoing hcount l l'
  have halone (l : Limiter) : sch.withLimiter run l = .alone (sch.withLimiter run l).state := by
    rw [hs.eq_alone]
    rfl
  have hvalid : (pace run signal count).accrues (sch.withLimiter run l).state
      (sch.withLimiter run l).state :=
    ⟨Nat.le_refl _, fun _ h => h, List.suffix_refl _, fun _ hrun => hrun ▸ hstart.follows⟩
  have hparallel := (robust_pace run signal count).parallel_execute fuel e rfl script hstart
  have hsafe : SafeToResume id (pace run signal count).accrues (sch.withLimiter run l).state
      (e.execute fuel run script) := habits_accrues.safe_execute fuel trivial run (Block.in_all script) _
  cases turns with
  | zero => cases hended.result
  | succ turns =>
    rw [halone l, Scheduler.drive_woken rfl] at hended
    obtain ⟨t, ht, hsame⟩ := hparallel.finishes (hsafe.resume habits_accrues.discipline hvalid 0)
      hvalid (Prod.ext rfl hended.result) hended.kept
    obtain ⟨deadline', turns', hends⟩ := Scheduler.proceed_of_finishes ht
      (sch.withLimiter run l').state fuel
    refine ⟨deadline', turns' + 1, fun deadline₁ turns₁ hdeadline hturns => ?_⟩
    obtain ⟨turns₁, rfl⟩ := Nat.exists_eq_add_of_le' (Nat.le_of_add_left_le hturns)
    obtain ⟨hdone, hstate⟩ := hends deadline₁ turns₁ hdeadline (by omega)
    rw [halone l', Scheduler.drive_woken rfl]
    exact hended.same (hstate ▸ hsame) hdone

end

/-- **A limit on the rate only delays.**  Let a script be run on account of a run whose signal is
neither cancelled nor has a deadline, while no other task is under way.  If, given enough time, the run
ends without having started a task or been cancelled, then with any other limiter it ends like this as
well: with the same result, the same objects and scopes, and the same cycle count. -/
theorem limiter_only_delays {sch : Scheduler} (hs : sch.Lonely) {run : RunId}
    (hgoing : sch.state.signals.get? (sch.state.run run).signal = some {}) (l l' : Limiter)
    (fuel : Nat) (e : Engine) (script : Block) (r : Engine.Result Value) (h : Heap) (cycles : Nat) :
    (sch.withLimiter run l).Delivers fuel e run script r h cycles ↔
      (sch.withLimiter run l').Delivers fuel e run script r h cycles := by
  have hsignal (l : Limiter) : ((sch.withLimiter run l).state.run run).signal =
      (sch.state.run run).signal :=
    (EngineState.aside_modifyRun sch.state run (f := fun r => { r with limiter := l })
      fun _ => rfl).signal run
  have hdelivers (l l' : Limiter) (hends : (sch.withLimiter run l).Delivers fuel e run script r h
      cycles) : (sch.withLimiter run l').Delivers fuel e run script r h cycles := by
    obtain ⟨deadline, turns, hended⟩ := hends
    have hended := hended deadline turns (Nat.le_refl _) (Nat.le_refl _)
    rw [hsignal l] at hended
    unfold Scheduler.Delivers
    rw [hsignal l']
    exact delivery_at_any_pace hs rfl hgoing rfl l l' hended
  exact ⟨hdelivers l l', hdelivers l' l⟩

/-! ## A loop, and a function that starts a task -/

/-- The engine over the root scope, with a number and a function in it:
`func f() { go func() { x = 1 }() }`. -/
def starting : Scheduler :=
  let f : Function :=
    .script (.mk (some "f") [] false [.go (.call (.func [] [.assignTo "x" (.int 1)]) [])]) 0 false
  { state := { EngineState.initial with
      heap := {
        funcs := Store.push {} f
        scopes := Store.push {} { vars := ⟨[("x", .int 0), ("f", .func 0)]⟩ } }
      governors := Store.push {} { limit := 0 }
      signals := Store.push {} {}
      runs := Store.push {} { signal := 0, limiter := ⟨0, 0, 0, 0⟩, maxElements := 0 }
      pinned := [0] } }

theorem starting_lonely : starting.Lonely := ⟨rfl, rfl, rfl, fun _ _ => nofun⟩

/-- No limit on the rate. -/
def unlimited : Limiter := ⟨0, 0, 0, 0⟩

/-- One cycle in ten milliseconds. -/
def slow : Limiter := ⟨1, 10, 0, 0⟩

/-- What the script comes to in the root scope. -/
def atPace (limiter : Limiter) (script : Block) :
    Scheduler × Scheduler.Finish (Engine.Result Value) :=
  (starting.withLimiter 0 limiter).drive 40 1000 100
    { on := .turn, woken := true
      resume := Engine.execute 40 { config := {}, governor := 0, scope := 0, ownsScope := true } 0
        script }

/-- The value that the script comes to. -/
def valueOf : Scheduler.Finish (Engine.Result Value) → Option Value
  | .done (.ok v) => some v
  | _ => none

theorem eq_done_of_valueOf {ended : Scheduler.Finish (Engine.Result Value)} {v : Value}
    (hv : valueOf ended = some v) : ended = .done (.ok v) := by
  unfold valueOf at hv
  split at hv
  · cases hv
    rfl
  · cases hv

/-- `for i in 3 { x = i }; return x`. -/
def countingUp : Block :=
  [.forIn ["i"] (.int 3) [.assignTo "x" (.ident "i")], .ret (.ident "x")]

/-- The loop comes to 2 without a limit, and so it does if every cycle has to wait. -/
theorem limiter_only_delays_loop :
    (starting.withLimiter 0 slow).Delivers 40
      { config := {}, governor := 0, scope := 0, ownsScope := true } 0 countingUp (.ok (.int 2))
      (atPace unlimited countingUp).1.state.heap
      ((atPace unlimited countingUp).1.state.run 0).cycles := by
  have hended : Delivery 0 0 1 (.ok (.int 2)) (atPace unlimited countingUp).1.state.heap
      ((atPace unlimited countingUp).1.state.run 0).cycles (atPace unlimited countingUp) :=
    { result := eq_done_of_valueOf (by decide +kernel)
      heap := rfl
      cycles := rfl
      tasks := by decide +kernel
      going := by decide +kernel }
  have hunlimited := delivery_at_any_pace starting_lonely rfl rfl rfl unlimited unlimited hended
  exact (limiter_only_delays starting_lonely rfl unlimited slow 40 _ countingUp _ _ _).mp hunlimited

/-- `f(); 1; 1; 1; 1; return x`, which starts no task itself. -/
def callingStarter : Block :=
  .expr (.call (.ident "f") []) :: List.replicate 4 (.expr (.int 1)) ++ [.ret (.ident "x")]

/-- Without a limit the script is through before the task that `f` starts has its turn; while the
script pauses, the task changes what the script looks at. -/
theorem limiter_decides :
    starting.Lonely ∧ starting.state.signals.get? (starting.state.run 0).signal = some {} ∧
      valueOf (atPace unlimited callingStarter).2 = some (.int 0) ∧
      valueOf (atPace slow callingStarter).2 = some (.int 1) :=
  ⟨starting_lonely, rfl, by decide +kernel, by decide +kernel⟩

end ScriptEngine
