import Mathlib.Data.List.Nodup
import Mathlib.Data.List.Perm.Subperm
import ScriptEngine.Proofs.Heap.Growth
import ScriptEngine.Proofs.Task.Equations
import ScriptEngine.Scheduler

/-! # How many cycles of a run return in one window

Any number of tasks count their cycles against one limiter.  A cycle over the limit is counted in
the window that is full, and pauses until that window is over; it is not counted again in the window
in which it returns.  So a window lets through as many cycles as its limit says, and with them the
cycles that were paused before it began: of every task one at most.

A `Config` is the state with the ticks that are paused and a log of those that have returned; a
`Move` is a call of `Eval.tick`, the return of a paused one, or whatever else goes on in between,
while the clock does not run backwards and nobody cancels the run.
-/
namespace ScriptEngine

/-! ## One tick -/

/-- **What one tick does to a limiter**: it is counted in the window that is open, or in a new one
if that is over, and pauses till the end of its window if there are too many. -/
theorem Limiter.tick_cases {l : Limiter} {now : Nat} (hl : l.isLimited) (hnow : l.started ≤ now) :
    ∃ started count,
      (started = l.started ∧ count = l.count + 1 ∧ now < l.started + l.window ∨
        started = now ∧ count = 1 ∧ l.started + l.window ≤ now) ∧
      l.tick now = ({ l with started, count },
        if l.limit < count then some (started + l.window) else none) := by
  by_cases hover : l.window ≤ now - l.started
  · refine ⟨now, 1, .inr ⟨rfl, rfl, by omega⟩, ?_⟩
    simp only [tick, hl, hover, if_true, Nat.zero_add]
  · refine ⟨l.started, l.count + 1, .inl ⟨rfl, rfl, by omega⟩, ?_⟩
    simp only [tick, hl, hover, if_true, if_false]

namespace Pacing

/-- The limiter of a run. -/
def limiterOf (run : RunId) (s : EngineState) : Limiter := (s.run run).limiter

/-- The signal of a run is on. -/
def isStopped (run : RunId) (s : EngineState) : Bool := s.isCancelled (s.run run).signal

/-- The state once a limiter of a run has been replaced. -/
def withLimiter (run : RunId) (l : Limiter) (s : EngineState) : EngineState :=
  s.modifyRun run fun r => { r with limiter := l }

variable {run : RunId} {s : EngineState} {l : Limiter}

/-- A run that is limited is there. -/
theorem exists_run (hl : (limiterOf run s).isLimited) : ∃ r, s.runs.get? run = some r := by
  cases hr : s.runs.get? run with
  | some r => exact ⟨r, rfl⟩
  | none =>
    have hdefault : limiterOf run s = default := by simp [limiterOf, EngineState.run, hr]; rfl
    rw [hdefault] at hl
    cases hl

theorem run_withLimiter (hl : (limiterOf run s).isLimited) (l : Limiter) :
    (withLimiter run l s).run run = { s.run run with limiter := l } := by
  obtain ⟨r, hr⟩ := exists_run hl
  simp [EngineState.run, withLimiter, EngineState.modifyRun, Store.get?_modify_self, hr]

theorem limiterOf_withLimiter (hl : (limiterOf run s).isLimited) (l : Limiter) :
    limiterOf run (withLimiter run l s) = l := by
  rw [limiterOf, run_withLimiter hl]

/-- A tick is counted, and then returns or pauses. -/
theorem tick_apply (run : RunId) (s : EngineState) :
    Eval.tick run s =
      let (l, pause) := (limiterOf run s).tick s.now
      match pause with
      | none => .done (withLimiter run l s) (.ok ())
      | some due =>
        Eval.await (.pause due ((withLimiter run l s).run run).signal) (withLimiter run l s) :=
  Eval.tick_apply run s

/-- A tick of a limited run is counted at once.  It returns at once, or while nobody cancels the run
it pauses to the end of the window in which it was counted. -/
theorem tick_limited (hl : (limiterOf run s).isLimited)
    (hnow : (limiterOf run s).started ≤ s.now) (hgoes : isStopped run s = false) :
    ∃ started count,
      (started = (limiterOf run s).started ∧ count = (limiterOf run s).count + 1 ∧
          s.now < (limiterOf run s).started + (limiterOf run s).window ∨
        started = s.now ∧ count = 1 ∧
          (limiterOf run s).started + (limiterOf run s).window ≤ s.now) ∧
      Eval.tick run s =
        let on : Wait := .pause (started + (limiterOf run s).window) (s.run run).signal
        let s' := withLimiter run { limiterOf run s with started, count } s
        if (limiterOf run s).limit < count then .wait s' on (Eval.checkWait on)
        else .done s' (.ok ()) := by
  obtain ⟨started, count, hcases, htick⟩ := Limiter.tick_cases hl hnow
  refine ⟨started, count, hcases, ?_⟩
  rw [tick_apply, htick]
  by_cases hover : (limiterOf run s).limit < count
  · have hoff : (withLimiter run { limiterOf run s with started, count } s).isCancelled
        (s.run run).signal = false := hgoes
    simp [hover, run_withLimiter hl, Eval.await_apply, Wait.signal?, hoff]
  · simp only [hover, if_false]

/-! ## Ticks of many tasks -/

/-- A tick that is paused. -/
structure Paused where
  task : TaskId
  /-- When the window began in which it was counted. -/
  window : Nat
  on : Wait
  resume : EngineState → Step (Except EvalError Unit)

/-- A tick that has returned. -/
structure Return where
  task : TaskId
  /-- When the window began in which it was counted. -/
  window : Nat
  /-- When it returned. -/
  time : Nat

/-- The state with the ticks that are paused, and what has happened so far. -/
structure Config where
  state : EngineState
  paused : List Paused := []
  /-- The values that the beginning of the window has had, the latest first. -/
  windows : List Nat
  /-- The ticks that have returned, the latest first. -/
  returns : List Return := []

/-- Nothing has been counted yet. -/
structure Config.IsFresh (run : RunId) (c : Config) : Prop where
  limited : (limiterOf run c.state).isLimited
  count_eq : (limiterOf run c.state).count = 0
  started_le : (limiterOf run c.state).started ≤ c.state.now
  goesOn : isStopped run c.state = false
  paused_eq : c.paused = []
  windows_eq : c.windows = [(limiterOf run c.state).started]
  returns_eq : c.returns = []

/-- **One move** of the tasks that count their cycles in a run, while nobody cancels it. -/
inductive Move (run : RunId) : Config → Config → Prop where
  /-- A tick returns at once. -/
  | pass {c : Config} {s : EngineState} {r : Except EvalError Unit} (task : TaskId)
      (hfree : task ∉ c.paused.map (·.task)) (hs : Eval.tick run c.state = .done s r) :
      Move run c
        { c with
          state := s
          windows := (limiterOf run s).started :: c.windows
          returns := ⟨task, (limiterOf run s).started, s.now⟩ :: c.returns }
  /-- A tick pauses. -/
  | pause {c : Config} {s : EngineState} {on : Wait}
      {resume : EngineState → Step (Except EvalError Unit)} (task : TaskId)
      (hfree : task ∉ c.paused.map (·.task)) (hs : Eval.tick run c.state = .wait s on resume) :
      Move run c
        { c with
          state := s
          windows := (limiterOf run s).started :: c.windows
          paused := ⟨task, (limiterOf run s).started, on, resume⟩ :: c.paused }
  /-- A paused tick whose time has come returns. -/
  | goOn {c : Config} {s : EngineState} {r : Except EvalError Unit} (before after : List Paused)
      {p : Paused} (hp : c.paused = before ++ p :: after) (hdue : p.on.isDue c.state)
      (hs : p.resume c.state = .done s r) :
      Move run c
        { c with
          state := s
          paused := before ++ after
          returns := ⟨p.task, p.window, s.now⟩ :: c.returns }
  /-- Anything else happens, and time may pass. -/
  | meanwhile {c : Config} (s : EngineState) (hlimiter : limiterOf run s = limiterOf run c.state)
      (hsignal : (s.run run).signal = (c.state.run run).signal) (hnow : c.state.now ≤ s.now)
      (hgoes : isStopped run s = false) : Move run c { c with state := s }

/-- **A run**: moves one after the other. -/
inductive Run (run : RunId) (start : Config) : Config → Prop where
  | nil : Run run start start
  | step {c c' : Config} (hr : Run run start c) (hm : Move run c c') : Run run start c'

namespace Return

/-- The tick returned during the window of this width that began at `s`. -/
def isDuring (width s : Nat) (r : Return) : Bool := s ≤ r.time && r.time < s + width

/-- The tick returned in the window in which it was counted. -/
def isPrompt (width : Nat) (r : Return) : Bool := r.time < r.window + width

end Return

/-- The ticks that returned during the window of this width that began at `s`. -/
def Config.during (c : Config) (width s : Nat) : List Return := c.returns.filter (·.isDuring width s)

/-- The number of ticks that were counted in the window that began at `s`, and returned in it. -/
def Config.prompt (c : Config) (width s : Nat) : Nat :=
  c.returns.countP fun r => r.window == s && r.isPrompt width

/-- What holds all through a run of ticks against a limiter with this limit and this width of
windows. -/
structure Config.Keeps (run : RunId) (limit width : Nat) (c : Config) : Prop where
  limit_eq : (limiterOf run c.state).limit = limit
  window_eq : (limiterOf run c.state).window = width
  goesOn : isStopped run c.state = false
  started_le : (limiterOf run c.state).started ≤ c.state.now
  started_mem : (limiterOf run c.state).started ∈ c.windows
  windows_le : ∀ w ∈ c.windows, w ≤ (limiterOf run c.state).started
  /-- One window is over before the next begins. -/
  windows_apart : ∀ w ∈ c.windows, ∀ w' ∈ c.windows, w < w' → w + width ≤ w'
  window_mem : ∀ r ∈ c.returns, r.window ∈ c.windows
  time_le : ∀ r ∈ c.returns, r.window ≤ r.time ∧ r.time ≤ c.state.now
  prompt_le_count : c.prompt width (limiterOf run c.state).started ≤ (limiterOf run c.state).count
  prompt_le : ∀ w ∈ c.windows, c.prompt width w ≤ limit
  paused_mem : ∀ p ∈ c.paused, p.window ∈ c.windows
  paused_on : ∀ p ∈ c.paused,
    p.on = .pause (p.window + width) (c.state.run run).signal ∧ p.resume = Eval.checkWait p.on
  /-- A task that is paused returned from its earlier ticks before the window was over in which this
  one was counted. -/
  before_paused : ∀ p ∈ c.paused, ∀ r ∈ c.returns, r.task = p.task → r.time < p.window + width
  paused_nodup : (c.paused.map (·.task)).Nodup
  /-- So it was for every tick that has been late. -/
  before_late : c.returns.Pairwise fun later earlier =>
    later.task = earlier.task → later.isPrompt width = false →
      earlier.time < later.window + width

section Steps
variable {limit width : Nat} {c c' : Config}

theorem Config.Keeps.limited (h : c.Keeps run limit width) (hlimit : 0 < limit)
    (hwidth : 0 < width) : (limiterOf run c.state).isLimited := by
  simp [Limiter.isLimited, h.limit_eq, h.window_eq, hlimit, hwidth]

/-- What a tick does while the invariant holds: it is counted in the window that is open, or in a
new one that begins now. -/
theorem Config.Keeps.tick (h : c.Keeps run limit width) (hlimit : 0 < limit) (hwidth : 0 < width) :
    ∃ started count,
      (started = (limiterOf run c.state).started ∧ count = (limiterOf run c.state).count + 1 ∨
        started = c.state.now ∧ count = 1 ∧
          (limiterOf run c.state).started + width ≤ c.state.now) ∧
      started ≤ c.state.now ∧ c.state.now < started + width ∧
      Eval.tick run c.state =
        let on : Wait := .pause (started + width) (c.state.run run).signal
        let s := withLimiter run { limit, window := width, started, count } c.state
        if limit < count then .wait s on (Eval.checkWait on) else .done s (.ok ()) := by
  obtain ⟨started, count, hcases, hstep⟩ :=
    tick_limited (h.limited hlimit hwidth) h.started_le h.goesOn
  have hle := h.started_le
  simp only [h.limit_eq, h.window_eq] at hcases hstep
  refine ⟨started, count, ?_, ?_, ?_, hstep⟩ <;> omega

/-- Counting a tick keeps the invariant, and there is room in the count for the tick to return. -/
theorem Config.Keeps.count (h : c.Keeps run limit width) (hlimit : 0 < limit) (hwidth : 0 < width)
    {started count : Nat}
    (hcases : started = (limiterOf run c.state).started ∧
        count = (limiterOf run c.state).count + 1 ∨
      started = c.state.now ∧ count = 1 ∧ (limiterOf run c.state).started + width ≤ c.state.now) :
    ({ c with
        state := withLimiter run { limit, window := width, started, count } c.state
        windows := started :: c.windows } : Config).Keeps run limit width ∧
      c.prompt width started < count := by
  have hl := h.limited hlimit hwidth
  have hrun := run_withLimiter hl { limit, window := width, started, count }
  have hlimiter := limiterOf_withLimiter hl { limit, window := width, started, count }
  have hle := h.started_le
  have hprompt : c.prompt width started < count := by
    obtain ⟨rfl, rfl⟩ | ⟨rfl, rfl, hover⟩ := hcases
    · exact Nat.lt_succ_of_le h.prompt_le_count
    · -- nothing that has returned was counted in a window that begins now
      refine Nat.lt_one_iff.2 (List.countP_eq_zero.2 fun r hr => ?_)
      have := h.windows_le r.window (h.window_mem r hr)
      simp only [Bool.and_eq_true, beq_iff_eq, not_and]
      omega
  have hwindows : ∀ w ∈ c.windows, w ≤ started ∧ (w < started → w + width ≤ started) := by
    intro w hw
    have hws := h.windows_le w hw
    have hapart := h.windows_apart w hw _ h.started_mem
    omega
  refine ⟨{
    limit_eq := by rw [hlimiter]
    window_eq := by rw [hlimiter]
    goesOn := by
      have hgoes := h.goesOn
      rw [isStopped] at hgoes ⊢
      rw [hrun]
      exact hgoes
    started_le := by
      rw [hlimiter]
      show started ≤ c.state.now
      omega
    started_mem := by rw [hlimiter]; exact List.mem_cons_self
    windows_le := ?_
    windows_apart := ?_
    window_mem := fun r hr => List.mem_cons_of_mem _ (h.window_mem r hr)
    time_le := h.time_le
    prompt_le_count := by rw [hlimiter]; exact Nat.le_of_lt hprompt
    prompt_le := ?_
    paused_mem := fun p hp => List.mem_cons_of_mem _ (h.paused_mem p hp)
    paused_on := by rw [hrun]; exact h.paused_on
    before_paused := h.before_paused
    paused_nodup := h.paused_nodup
    before_late := h.before_late }, hprompt⟩
  · rw [hlimiter]
    intro w hw
    obtain rfl | hw := List.mem_cons.1 hw
    · exact Nat.le_refl w
    · exact (hwindows w hw).1
  · intro w hw w' hw' hlt
    rcases List.mem_cons.1 hw with rfl | hold <;> rcases List.mem_cons.1 hw' with rfl | hold'
    · omega
    · have := hwindows w' hold'
      omega
    · exact (hwindows w hold).2 hlt
    · exact h.windows_apart w hold w' hold' hlt
  · intro w hw
    obtain rfl | hw := List.mem_cons.1 hw
    · obtain ⟨rfl, -⟩ | ⟨-, rfl, -⟩ := hcases
      · exact h.prompt_le _ h.started_mem
      · exact Nat.le_trans (Nat.le_of_lt_succ hprompt) (Nat.zero_le _)
    · exact h.prompt_le w hw

/-- A tick that returns keeps the invariant, if no other tick of its task is paused: a prompt one if
there is room for it, and a late one if its task returned from its earlier ticks in time. -/
theorem Config.Keeps.addReturn (h : c.Keeps run limit width) (r : Return)
    (hwindow : r.window ∈ c.windows) (htime : r.window ≤ r.time ∧ r.time = c.state.now)
    (hroom : r.isPrompt width → r.window = (limiterOf run c.state).started ∧
      c.prompt width r.window < (limiterOf run c.state).count ∧ c.prompt width r.window < limit)
    (htask : r.task ∉ c.paused.map (·.task))
    (hlate : r.isPrompt width = false →
      ∀ earlier ∈ c.returns, r.task = earlier.task → earlier.time < r.window + width) :
    ({ c with returns := r :: c.returns } : Config).Keeps run limit width := by
  have hprompt : ∀ w, ({ c with returns := r :: c.returns } : Config).prompt width w =
      c.prompt width w + if r.window == w && r.isPrompt width then 1 else 0 := fun w =>
    List.countP_cons
  refine { h with
    window_mem := ?_, time_le := ?_, prompt_le_count := ?_, prompt_le := ?_, before_paused := ?_
    before_late := List.pairwise_cons.2 ⟨fun e he ht hl => hlate hl e he ht, h.before_late⟩ }
  · exact List.forall_mem_cons.2 ⟨hwindow, h.window_mem⟩
  · exact List.forall_mem_cons.2 ⟨⟨htime.1, Nat.le_of_eq htime.2⟩, h.time_le⟩
  · rw [hprompt]
    have := h.prompt_le_count
    split
    next hr =>
      simp only [Bool.and_eq_true, beq_iff_eq] at hr
      have := hroom hr.2
      rw [← this.1]
      exact this.2.1
    next => exact this
  · intro w hw
    rw [hprompt]
    split
    next hr =>
      simp only [Bool.and_eq_true, beq_iff_eq] at hr
      obtain ⟨rfl, hr⟩ := hr
      exact (hroom hr).2.2
    next => exact h.prompt_le w hw
  · intro p hp
    refine List.forall_mem_cons.2 ⟨fun hpt => ?_, h.before_paused p hp⟩
    exact absurd (hpt ▸ List.mem_map_of_mem hp) htask

/-- A pause that is due has lasted to its end, unless its signal is on. -/
theorem le_of_isDue {due : Nat} {signal : SignalId} (hdue : (Wait.pause due signal).isDue s)
    (hgoes : s.isCancelled signal = false) : due ≤ s.now := by
  simp only [Wait.isDue, Wait.moments, Wait.time?, Wait.deadline?, Wait.signal?, Option.toList_some,
    Option.bind_some, List.any_append, List.any_cons, List.any_nil, Bool.or_false, Bool.or_eq_true,
    decide_eq_true_eq] at hdue
  refine hdue.resolve_right fun hover => ?_
  cases hd : (s.signal signal).deadline with
  | none => simp [hd] at hover
  | some d =>
    simp only [hd, List.any_cons, Option.toList_some,
      List.any_nil, Bool.or_false, decide_eq_true_eq] at hover
    simp only [EngineState.isCancelled, Signal.isOn, hd, Bool.or_eq_false_iff,
      decide_eq_false_iff_not] at hgoes
    exact hgoes.2 hover

/-- A paused tick that goes on returns at the end of its window or later, and changes nothing. -/
theorem Config.Keeps.goOn (h : c.Keeps run limit width) {p : Paused} (hp : p ∈ c.paused)
    (hdue : p.on.isDue c.state) :
    p.window + width ≤ c.state.now ∧ p.resume c.state = .done c.state (.ok ()) := by
  obtain ⟨hon, hresume⟩ := h.paused_on p hp
  have hgoes : c.state.isCancelled (c.state.run run).signal = false := h.goesOn
  rw [hon] at hdue
  refine ⟨le_of_isDue hdue hgoes, ?_⟩
  simp [hresume, hon, Eval.checkWait_apply, Wait.signal?, hgoes]

/-- **Every move keeps the invariant.** -/
theorem Config.Keeps.move (h : c.Keeps run limit width) (hlimit : 0 < limit) (hwidth : 0 < width)
    (hm : Move run c c') : c'.Keeps run limit width := by
  cases hm with
  | pass task hfree hs =>
    obtain ⟨started, count, hcases, hle, hlt, htick⟩ := h.tick hlimit hwidth
    obtain ⟨hk, hroom⟩ := h.count hlimit hwidth hcases
    have hlimiter := limiterOf_withLimiter (h.limited hlimit hwidth)
      { limit, window := width, started, count }
    rw [htick] at hs
    dsimp only at hs
    split at hs
    · cases hs
    next hover =>
      obtain ⟨rfl, -⟩ := Step.done.inj hs
      rw [hlimiter]
      refine hk.addReturn ⟨task, started, c.state.now⟩ List.mem_cons_self ⟨hle, rfl⟩
        (fun _ => ?_) hfree fun hlate => ?_
      · rw [hlimiter]
        exact ⟨rfl, hroom, Nat.lt_of_lt_of_le hroom (Nat.le_of_not_lt hover)⟩
      · simp [Return.isPrompt, hlt] at hlate
  | pause task hfree hs =>
    obtain ⟨started, count, hcases, hle, hlt, htick⟩ := h.tick hlimit hwidth
    obtain ⟨hk, -⟩ := h.count hlimit hwidth hcases
    have hl := h.limited hlimit hwidth
    rw [htick] at hs
    dsimp only at hs
    split at hs
    next hover =>
      obtain ⟨rfl, rfl, rfl⟩ := Step.wait.inj hs
      rw [limiterOf_withLimiter hl]
      refine { hk with
        paused_mem := List.forall_mem_cons.2 ⟨List.mem_cons_self, hk.paused_mem⟩
        paused_on := List.forall_mem_cons.2 ⟨⟨?_, rfl⟩, hk.paused_on⟩
        before_paused := List.forall_mem_cons.2 ⟨fun r hr _ => ?_, hk.before_paused⟩
        paused_nodup := List.nodup_cons.2 ⟨hfree, hk.paused_nodup⟩ }
      · rw [run_withLimiter hl]
      · exact Nat.lt_of_le_of_lt (h.time_le r hr).2 hlt
    · cases hs
  | @goOn _ _ before after p hp hdue hs =>
    have hmem : p ∈ c.paused := hp ▸ List.mem_append_right _ List.mem_cons_self
    have hsub : (before ++ after).Sublist c.paused :=
      hp ▸ (List.sublist_cons_self p after).append_left before
    obtain ⟨hover, hresume⟩ := h.goOn hmem hdue
    obtain ⟨rfl, -⟩ := Step.done.inj (hresume.symm.trans hs)
    have hnodup := h.paused_nodup
    rw [hp, List.map_append, List.map_cons, List.nodup_middle, ← List.map_append] at hnodup
    have hk : ({ c with paused := before ++ after } : Config).Keeps run limit width := { h with
      paused_mem := fun q hq => h.paused_mem q (hsub.subset hq)
      paused_on := fun q hq => h.paused_on q (hsub.subset hq)
      before_paused := fun q hq => h.before_paused q (hsub.subset hq)
      paused_nodup := (List.nodup_cons.1 hnodup).2 }
    refine hk.addReturn ⟨p.task, p.window, c.state.now⟩ (h.paused_mem p hmem) ⟨by
      show p.window ≤ c.state.now
      omega, rfl⟩ (fun hprompt => ?_) (List.nodup_cons.1 hnodup).1 fun _ earlier he ht =>
        h.before_paused p hmem earlier he ht.symm
    -- it is late, so it takes no room
    simp only [Return.isPrompt, decide_eq_true_eq] at hprompt
    omega
  | meanwhile s hlimiter hsignal hnow hgoes =>
    exact { h with
      limit_eq := hlimiter ▸ h.limit_eq
      window_eq := hlimiter ▸ h.window_eq
      goesOn := hgoes
      started_le := Nat.le_trans (hlimiter ▸ h.started_le) hnow
      started_mem := hlimiter ▸ h.started_mem
      windows_le := hlimiter ▸ h.windows_le
      time_le := fun r hr => ⟨(h.time_le r hr).1, Nat.le_trans (h.time_le r hr).2 hnow⟩
      prompt_le_count := hlimiter ▸ h.prompt_le_count
      paused_on := hsignal ▸ h.paused_on }

/-- The invariant holds all through a run. -/
theorem Run.keeps {start : Config} (h : Run run start c) (hstart : start.IsFresh run) :
    c.Keeps run (limiterOf run start.state).limit (limiterOf run start.state).window := by
  have hl := hstart.limited
  simp only [Limiter.isLimited, Bool.and_eq_true, decide_eq_true_eq] at hl
  induction h with
  | nil =>
    exact {
      limit_eq := rfl
      window_eq := rfl
      goesOn := hstart.goesOn
      started_le := hstart.started_le
      started_mem := by simp [hstart.windows_eq]
      windows_le := by simp [hstart.windows_eq]
      windows_apart := by simp [hstart.windows_eq]
      window_mem := by simp [hstart.returns_eq]
      time_le := by simp [hstart.returns_eq]
      prompt_le_count := by simp [Config.prompt, hstart.returns_eq]
      prompt_le := by simp [Config.prompt, hstart.returns_eq]
      paused_mem := by simp [hstart.paused_eq]
      paused_on := by simp [hstart.paused_eq]
      before_paused := by simp [hstart.paused_eq]
      paused_nodup := by simp [hstart.paused_eq]
      before_late := by simp [hstart.returns_eq] }
  | step _ hm ih => exact ih.move hl.1 hl.2 hm

end Steps

/-! ## What one window lets through -/

section Window
variable {start c : Config} {w : Nat}

/-- A tick that returned during a window was counted in it or in one that was over before. -/
theorem Config.Keeps.window_cases {limit width : Nat} (h : c.Keeps run limit width)
    (hw : w ∈ c.windows) {r : Return} (hr : r ∈ c.during width w) :
    r.window = w ∧ r.isPrompt width ∨ r.window + width ≤ w ∧ r.isPrompt width = false := by
  obtain ⟨hr, hduring⟩ := List.mem_filter.1 hr
  simp only [Return.isDuring, Bool.and_eq_true, decide_eq_true_eq] at hduring
  have hmem := h.window_mem r hr
  have htime := h.time_le r hr
  simp only [Return.isPrompt, decide_eq_true_eq, decide_eq_false_iff_not]
  rcases Nat.lt_trichotomy r.window w with hlt | heq | hgt
  · have := h.windows_apart r.window hmem w hw hlt
    omega
  · omega
  · have := h.windows_apart w hw r.window hmem hgt
    omega

/-- **What one window of a limited run lets through**, while any number of tasks count their cycles
and nobody cancels the run.  Of the ticks that were counted in the window no more return in it than
the limit says.  Every other tick that returns in it was counted in a window that was over before,
and of those there is at most one of each task.  So there are no more returns than the limit and the
number of tasks allow. -/
theorem returns_in_window (hr : Run run start c) (hstart : start.IsFresh run)
    (hw : w ∈ c.windows) :
    let limit := (limiterOf run start.state).limit
    let width := (limiterOf run start.state).window
    let late := (c.during width w).filter (·.window ≠ w)
    (c.during width w).countP (·.window = w) ≤ limit ∧
      (∀ r ∈ late, r.window + width ≤ w) ∧ (late.map (·.task)).Nodup ∧
      ∀ tasks : List TaskId, (∀ r ∈ c.returns, r.task ∈ tasks) →
        (c.during width w).length ≤ limit + tasks.length := by
  intro limit width late
  have h : c.Keeps run limit width := hr.keeps hstart
  have hprompt : (c.during width w).countP (·.window = w) ≤ limit := by
    refine Nat.le_trans ?_ (h.prompt_le w hw)
    rw [Config.during, List.countP_filter]
    refine List.countP_mono_left fun r hr hcounted => ?_
    simp only [Bool.and_eq_true, decide_eq_true_eq] at hcounted
    have hduring : r ∈ c.during width w := List.mem_filter.2 ⟨hr, hcounted.2⟩
    obtain ⟨-, hprompt⟩ | ⟨hover, -⟩ := h.window_cases hw hduring
    · simp [hcounted.1, hprompt]
    · have hwidth := hstart.limited
      simp only [Limiter.isLimited, Bool.and_eq_true, decide_eq_true_eq] at hwidth
      omega
  have hlate : ∀ r ∈ late, r.window + width ≤ w ∧ r.isPrompt width = false := by
    intro r hr
    obtain ⟨hr, hne⟩ := List.mem_filter.1 hr
    exact (h.window_cases hw hr).resolve_left fun heq => by simp [heq.1] at hne
  have hnodup : (late.map (·.task)).Nodup := by
    have hsub : late.Sublist c.returns := List.filter_sublist.trans List.filter_sublist
    refine List.pairwise_map.2 ((h.before_late.sublist hsub).imp_of_mem ?_)
    -- a task that is late returned from its earlier ticks before this window began
    intro later earlier hlater hearlier hbefore htask
    have hlt := hbefore htask (hlate later hlater).2
    have hduring := (List.mem_filter.1 (List.mem_filter.1 hearlier).1).2
    simp only [Return.isDuring, Bool.and_eq_true, decide_eq_true_eq] at hduring
    have hover := (hlate later hlater).1
    omega
  refine ⟨hprompt, fun r hr => (hlate r hr).1, hnodup, fun tasks htasks => ?_⟩
  have hsubset : late.map (·.task) ⊆ tasks := by
    intro t ht
    obtain ⟨r, hr, rfl⟩ := List.mem_map.1 ht
    exact htasks r (List.mem_filter.1 (List.mem_filter.1 hr).1).1
  have hle : late.length ≤ tasks.length := by
    simpa using (hnodup.subperm hsubset).length_le
  calc (c.during width w).length
      = (c.during width w).countP (·.window = w) + late.length := by
        rw [List.length_eq_countP_add_countP (·.window = w)]
        simp [late, List.countP_eq_length_filter]
    _ ≤ limit + tasks.length := Nat.add_le_add hprompt hle

end Window

/-! ## Two cycles in a window of one -/

/-- The state at a time, with a run that may make one cycle in a second. -/
def paced (started count now : Nat) : EngineState :=
  { runs := ({} : Store ScriptEngine.Run).push
      { signal := 0, limiter := { limit := 1, window := 1000, started, count }, maxElements := 0 }
    now }

/-- Before the first cycle. -/
def unhurried : Config := { state := paced 0 0 0, windows := [0] }

/-- One task after its third cycle.  The second was paused for a second, and not counted again. -/
def hurried : Config where
  state := paced 1000 1 1000
  windows := [1000, 0, 0, 0]
  returns := [⟨0, 1000, 1000⟩, ⟨0, 0, 1000⟩, ⟨0, 0, 0⟩]

theorem unhurried_isFresh : unhurried.IsFresh 0 :=
  ⟨rfl, rfl, Nat.le_refl 0, rfl, rfl, rfl, rfl⟩

theorem hurried_run : Run 0 unhurried hurried := by
  have hfirst : Eval.tick 0 (paced 0 0 0) = .done (paced 0 1 0) (.ok ()) := rfl
  have hsecond : Eval.tick 0 (paced 0 1 0) =
      .wait (paced 0 2 0) (.pause 1000 0) (Eval.checkWait (.pause 1000 0)) := rfl
  have hgoOn : Eval.checkWait (.pause 1000 0) (paced 0 2 1000) = .done (paced 0 2 1000) (.ok ()) :=
    rfl
  have hthird : Eval.tick 0 (paced 0 2 1000) = .done (paced 1000 1 1000) (.ok ()) := rfl
  have h := (Run.nil : Run 0 unhurried unhurried).step (.pass 0 (by simp [unhurried]) hfirst)
  have h := h.step (.pause 0 (by simp [unhurried]) hsecond)
  have h := h.step (.meanwhile (paced 0 2 1000) rfl rfl (Nat.zero_le _) rfl)
  have h := h.step (.goOn [] [] rfl rfl hgoOn)
  exact h.step (.pass 0 (by simp) hthird)

theorem returns_in_window_hurried :
    Run 0 unhurried hurried ∧ unhurried.IsFresh 0 ∧ 1000 ∈ hurried.windows ∧
      (hurried.during 1000 1000).length ≤ 1 + [0].length :=
  ⟨hurried_run, unhurried_isFresh, by simp [hurried],
    (returns_in_window hurried_run unhurried_isFresh (by simp [hurried])).2.2.2 [0]
      (by simp [hurried])⟩

/-- **The limit is no cap on the cycles that return in a window**: with one cycle a second, one task
alone can have two that return in the same second. -/
theorem window_exceeds_limit :
    ¬ ∀ (run : RunId) (start c : Config), Run run start c → start.IsFresh run → ∀ w ∈ c.windows,
      (c.during (limiterOf run start.state).window w).length ≤
        (limiterOf run start.state).limit := by
  intro hcap
  have h := hcap 0 unhurried hurried hurried_run unhurried_isFresh 1000 (by simp [hurried])
  exact absurd h (by decide)

end Pacing

end ScriptEngine
