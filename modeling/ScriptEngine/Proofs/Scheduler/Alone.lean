import ScriptEngine.Proofs.Scheduler.Turns
import ScriptEngine.Proofs.Task.Paths

/-! # A task that is alone

If there is no task but the one in the foreground, and it starts none, then the scheduler has nothing
to decide: whenever the task gives way it goes on at once, when it waits for a time the clock jumps to
that time, and when it waits for anything else it waits forever.  `Finishes` says how such a task ends
if it is given enough time, whatever the deadline is that the scheduler sets it.
-/
namespace ScriptEngine

variable {α : Type}

/-- When a task that is alone goes on, if it ever does. -/
def Wait.resumesAt (now : Nat) : Wait → Option Nat
  | .turn => some now
  | .time due | .pause due _ => some (max now due)
  | _ => none

namespace EngineState

/-- No task is about to start. -/
def Calm (s : EngineState) : Prop := ∀ task job, Notice.started task job ∉ s.notices.toList

/-- The state in which the foreground task goes on at this time. -/
def resumed (s : EngineState) (now : Nat) : EngineState :=
  { s with notices := #[], now, current := 0 }

end EngineState

/-- **Given enough time, the task is done** with this result, and has left this state.  It is alone all
the time, and no deadline ends its waits. -/
inductive Finishes (a : α) (t : EngineState) : Step α → Prop where
  | done : Finishes a t (.done t a)
  | wait {s : EngineState} {on : Wait} {resume : EngineState → Step α} {now : Nat} (hcalm : s.Calm)
      (hfree : on.deadline? s = none) (hnow : on.resumesAt s.now = some now)
      (hrest : Finishes a t (resume (s.resumed now))) : Finishes a t (.wait s on resume)

namespace Scheduler

/-- The scheduler without a task in the background. -/
def alone (s : EngineState) : Scheduler := { state := s }

theorem alone_safe {κ : Type} {view : EngineState → κ} {G : κ → κ → Prop} {s : EngineState}
    (hs : G (view s) (view s)) : (alone s).Safe view G :=
  ⟨hs, nofun, nofun, nofun⟩

variable {s : EngineState}

/-- Where no task starts, nobody is in the background afterwards. -/
theorem settle_alone (s₀ : EngineState) (fuel : Nat) (hcalm : s.Calm) :
    ((alone s₀).settle fuel s).1 = alone { s with notices := #[] } := by
  have hfold (ns : List Notice) (hns : ∀ task job, Notice.started task job ∉ ns)
      (s : EngineState) : ns.foldl (notice fuel) (alone s) = alone s := by
    induction ns with
    | nil => rfl
    | cons n rest ih =>
      have hn : (alone s).notice fuel n = alone s := by
        cases n with
        | started task job => exact absurd List.mem_cons_self (hns task job)
        | channel chan | signal id => rfl
      rw [List.foldl_cons, hn]
      exact ih fun task job hin => hns task job (List.mem_cons_of_mem n hin)
  exact hfold _ hcalm _

section
variable {on : Wait} {resume : EngineState → Step α} {deadline : Nat}

/-- Without a deadline of its signal, a wait ends only at the time it is for. -/
theorem moments_eq (hfree : on.deadline? s = none) {t : EngineState} (ht : t.signals = s.signals) :
    on.moments t = on.time?.toList := by
  have hsame : on.deadline? t = on.deadline? s := by
    unfold Wait.deadline? EngineState.signal
    rw [ht]
  rw [Wait.moments, hsame, hfree, Option.toList_none, List.append_nil]

/-- The clock jumps to the time that the task waits for, but not beyond the deadline. -/
theorem jump_alone (hfree : on.deadline? s = none) (now : Nat)
    (hnow : max s.now (on.time?.toList.foldl min deadline) = now) :
    (alone s).jump { on, resume } deadline =
      (alone { s with now }, { on, resume, woken := on.time?.toList.any (· ≤ now) }) := by
  have hnext : (alone s).nextMoment on deadline = on.time?.toList.foldl min deadline := by
    have hon : on.moments (alone s).state = on.time?.toList := moments_eq hfree rfl
    rw [nextMoment, hon]
    rfl
  unfold jump
  simp only [hnext, Foreground.wakeDue, Wait.isDue, Bool.false_or]
  rw [show max (alone s).state.now _ = now from hnow]
  have hon : on.moments { (alone s).state with now } = on.time?.toList := moments_eq hfree rfl
  simp only [hon]
  rfl

/-- A task that is alone is woken when it is time, unless that is after the deadline: then the clock
stands at the deadline. -/
theorem idle_alone (hfree : on.deadline? s = none) (hearly : s.now < deadline) :
    (∃ now, on.resumesAt s.now = some now ∧ now ≤ deadline ∧
      (alone s).idle { on, resume } deadline =
        (alone { s with now }, { on, resume, woken := true })) ∨
    (∀ now, on.resumesAt s.now = some now → deadline < now) ∧
      (alone s).idle { on, resume } deadline =
        (alone { s with now := deadline }, { on, resume }) := by
  have hidle (hturn : on.isTurn = false) :
      (alone s).idle { on, resume } deadline = (alone s).jump { on, resume } deadline := by
    simp [idle, alone, hturn]
  -- a wait for a time
  have htimed {due : Nat} (htime : on.time? = some due) (hturn : on.isTurn = false)
      (hresumes : on.resumesAt s.now = some (max s.now due)) :
      (∃ now, on.resumesAt s.now = some now ∧ now ≤ deadline ∧
        (alone s).idle { on, resume } deadline =
          (alone { s with now }, { on, resume, woken := true })) ∨
      (∀ now, on.resumesAt s.now = some now → deadline < now) ∧
        (alone s).idle { on, resume } deadline =
          (alone { s with now := deadline }, { on, resume }) := by
    rw [hresumes, hidle hturn]
    by_cases hdue : due ≤ deadline
    · refine .inl ⟨max s.now due, rfl, by omega, ?_⟩
      rw [jump_alone hfree (max s.now due) (by simp [htime, Nat.min_eq_right hdue])]
      rw [htime, Option.toList_some, List.any_cons, decide_eq_true (Nat.le_max_right s.now due), Bool.true_or]
    · refine .inr ⟨fun now hnow => ?_, ?_⟩
      · cases hnow
        omega
      · rw [jump_alone hfree deadline (by simp [htime]; omega)]
        simp [htime, hdue]
  -- a wait for something else, which does not happen
  have hforever (htime : on.time? = none) (hturn : on.isTurn = false)
      (hresumes : on.resumesAt s.now = none) :
      (∀ now, on.resumesAt s.now = some now → deadline < now) ∧
        (alone s).idle { on, resume } deadline =
          (alone { s with now := deadline }, { on, resume }) := by
    rw [hresumes, hidle hturn, jump_alone hfree deadline (by simp [htime]; omega)]
    exact ⟨nofun, by simp [htime]⟩
  cases on with
  | turn => exact .inl ⟨s.now, rfl, Nat.le_of_lt hearly, rfl⟩
  | time due | pause due signal => exact htimed rfl rfl rfl
  | recv | room | pickup | cases | cancelled => exact .inr (hforever rfl rfl rfl)

/-- While the task waits, the scheduler is idle. -/
theorem drive_idle (hearly : s.now < deadline) (fuel turns : Nat) :
    (alone s).drive fuel deadline (turns + 1) { on, resume } =
      ((alone s).idle { on, resume } deadline).1.drive fuel deadline turns
        ((alone s).idle { on, resume } deadline).2 := by
  have hnow : ¬ deadline ≤ (alone s).state.now := Nat.not_le_of_lt hearly
  rw [drive, if_neg Bool.false_ne_true, if_neg hnow]
  rfl

/-- At the deadline the task gives up. -/
theorem drive_late (on : Wait) (resume : EngineState → Step α) (hlate : deadline ≤ s.now)
    (fuel turns : Nat) :
    ((alone s).drive fuel deadline (turns + 1) { on, resume }).2 = .deadlock := by
  have hnow : deadline ≤ (alone s).state.now := hlate
  rw [drive, if_neg Bool.false_ne_true, if_pos hnow]

/-- If the task is done before the deadline, then it goes on at the time at which it is woken. -/
theorem resumes_of_done {fuel turns : Nat} {sch : Scheduler} {a : α}
    (hfree : on.deadline? s = none)
    (hdone : (alone s).drive fuel deadline turns { on, resume } = (sch, .done a)) :
    ∃ now turns', on.resumesAt s.now = some now ∧
      (alone { s with now }).proceed fuel deadline turns' (resume { s with now, current := 0 }) =
        (sch, .done a) := by
  cases turns with
  | zero => cases hdone
  | succ turns =>
    by_cases hearly : s.now < deadline
    · rw [drive_idle hearly] at hdone
      obtain ⟨now, hnow, -, hidle⟩ | ⟨-, hidle⟩ := idle_alone hfree hearly
      · rw [hidle] at hdone
        cases turns with
        | zero => cases hdone
        | succ turns =>
          rw [drive_woken rfl] at hdone
          exact ⟨now, turns, hnow, hdone⟩
      · rw [hidle] at hdone
        cases turns with
        | zero => cases hdone
        | succ turns =>
          have hlate := drive_late (s := { s with now := deadline }) on resume (Nat.le_refl deadline)
            fuel turns
          rw [hdone] at hlate
          cases hlate
    · have hlate := drive_late on resume (Nat.le_of_not_lt hearly) fuel turns
      rw [hdone] at hlate
      cases hlate

/-- If the deadline is late enough, the task goes on when it is time. -/
theorem drive_resumes {now : Nat} (hfree : on.deadline? s = none)
    (hnow : on.resumesAt s.now = some now) (hearly : s.now < deadline) (hlate : now ≤ deadline)
    (fuel turns : Nat) :
    (alone s).drive fuel deadline (turns + 2) { on, resume } =
      (alone { s with now }).proceed fuel deadline turns (resume { s with now, current := 0 }) := by
  rw [drive_idle hearly]
  obtain ⟨now', hnow', -, hidle⟩ | ⟨hover, -⟩ := idle_alone hfree hearly
  · cases hnow.symm.trans hnow'
    rw [hidle, drive_woken rfl]
    rfl
  · exact absurd (hover now hnow) (Nat.not_lt_of_le hlate)

end

/-- **Given enough time, the scheduler lets the task finish.** -/
theorem proceed_of_finishes {x : Step α} {a : α} {t : EngineState} (hx : Finishes a t x)
    (s : EngineState) (fuel : Nat) :
    ∃ deadline turns, ∀ deadline' turns', deadline ≤ deadline' → turns ≤ turns' →
      ((alone s).proceed fuel deadline' turns' x).2 = .done a ∧
        ((alone s).proceed fuel deadline' turns' x).1.state = { t with notices := #[] } := by
  induction hx generalizing s with
  | done => exact ⟨0, 0, fun _ _ _ _ => ⟨rfl, settle_state _ _ _⟩⟩
  | @wait s₁ on resume now hcalm hfree hnow _ ih =>
    obtain ⟨deadline, turns, hrest⟩ := ih { s₁ with notices := #[], now }
    -- the deadline must be after the wait, and the wait takes two turns of the scheduler
    refine ⟨max deadline (max now (s₁.now + 1)), turns + 2, fun deadline' turns' hd ht => ?_⟩
    have hearly : s₁.now < deadline' := by omega
    have hlate : now ≤ deadline' := by omega
    obtain ⟨turns', rfl⟩ := Nat.exists_eq_add_of_le' (Nat.le_of_add_left_le ht)
    have hresumes : (alone s).proceed fuel deadline' (turns' + 2) (.wait s₁ on resume) =
        (alone { s₁ with notices := #[], now }).proceed fuel deadline' turns'
          (resume (s₁.resumed now)) := by
      rw [proceed, settle_alone s fuel hcalm]
      exact drive_resumes (s := { s₁ with notices := #[] }) hfree hnow hearly hlate fuel turns'
    rw [hresumes]
    exact hrest deadline' turns' (by omega) (by omega)

/-- What the scheduler does while the task waits: it lets time pass, and may wake the task. -/
theorem idle_alone_eq (s : EngineState) (main : Foreground α) (deadline : Nat) :
    ∃ now woken, (alone s).idle main deadline = (alone { s with now }, { main with woken }) := by
  unfold idle
  split
  · exact ⟨s.now, _, rfl⟩
  · split
    · exact ⟨s.now, main.woken, rfl⟩
    · exact ⟨_, _, rfl⟩

/-- If the task is done, then it has gone on at some time. -/
theorem exists_proceed_of_done {fuel deadline turns : Nat} {main : Foreground α} {sch : Scheduler}
    {a : α} (hdone : (alone s).drive fuel deadline turns main = (sch, .done a)) :
    ∃ now turns', (alone { s with now }).proceed fuel deadline turns'
      (main.resume { s with now, current := 0 }) = (sch, .done a) := by
  induction turns generalizing s main with
  | zero => cases hdone
  | succ turns ih =>
    cases hwoken : main.woken with
    | true =>
      rw [drive_woken hwoken] at hdone
      exact ⟨s.now, turns, hdone⟩
    | false =>
      rw [drive, if_neg (by rw [hwoken]; exact Bool.false_ne_true)] at hdone
      split at hdone
      · cases hdone
      · obtain ⟨now, woken, hidle⟩ := idle_alone_eq s main deadline
        rw [show (alone s).batch fuel deadline batchSize main =
          .ok ((alone s).idle main deadline) from rfl, hidle] at hdone
        obtain ⟨later, turns', hgoes⟩ := ih hdone
        exact ⟨later, turns', hgoes⟩

/-- **A task that is alone and is done has ended along a path on which only time has passed**, if it
observes a law by which it starts no task. -/
theorem exists_path_of_done {G : EngineState → EngineState → Prop} (hG : Law G)
    (hcalm : ∀ s, G s s → s.Calm) (hlater : ∀ s now, G s s → G s (s.resumed now)) {x : Step α}
    {k : EngineState} (hx : ObservesOn id G x k) {fuel deadline turns : Nat} {sch : Scheduler} {a : α}
    (hdone : (alone s).proceed fuel deadline turns x = (sch, .done a)) :
    ∃ path t, x.EndsAlong path a t ∧ x.Amid (fun w w' => G w w ∧ ∃ now, w' = w.resumed now) path ∧
      sch.state = { t with notices := #[] } := by
  induction x generalizing s k turns with
  | done t b =>
    cases hdone
    exact ⟨[], t, .done t a, trivial, settle_state _ _ _⟩
  | stop t why => cases hdone
  | wait w on resume ih =>
    have hw := hG.stays hx.1
    rw [proceed, settle_alone s fuel (hcalm w hw)] at hdone
    obtain ⟨now, turns', hgoes⟩ := exists_proceed_of_done hdone
    obtain ⟨path, t, hends, hamid, hstate⟩ := ih (w.resumed now) (hx.2 _ (hlater w now hw)) hgoes
    exact ⟨_, t, .wait hends, ⟨⟨hw, now, rfl⟩, hamid⟩, hstate⟩

end Scheduler
end ScriptEngine
