import ScriptEngine.Proofs.EngineState.Signals
import ScriptEngine.Proofs.Task.Equations

/-! # Tasks that attain a result

A task **attains** a result (`Step.Attains`) if it comes to one: however often it waits, and in whatever
states it is resumed, as long as they are states in which it may go on, it is done in the end, and then
what is said of its result and the state holds.  It neither breaks down nor waits for ever.

A run may go on while it is there and its signal is off (`EngineState.GoesOn`).  As long as it does, a
pulse is attained, and so are the items of anything that is built, one after the other
(`Eval.gives_build`).
-/
namespace ScriptEngine

/-! ## Attaining -/

/-- **The task is done in the end**, with `Q` of its result and the state, if it is resumed in states
with `R` only. -/
inductive Step.Attains {α : Type} (R : EngineState → Prop) (Q : α → EngineState → Prop) :
    Step α → Prop where
  | done {s : EngineState} {a : α} (h : Q a s) : Attains R Q (.done s a)
  | wait {s : EngineState} {on : Wait} {resume : EngineState → Step α}
    (h : ∀ s', R s' → Attains R Q (resume s')) : Attains R Q (.wait s on resume)

namespace Step.Attains
variable {α β : Type} {R : EngineState → Prop} {P : α → EngineState → Prop}
  {Q : β → EngineState → Prop} {x : Step α} {f : α → EngineState → Step β}

/-- One task after the other. -/
theorem bind (hx : x.Attains R P) (hf : ∀ a s, P a s → (f a s).Attains R Q) :
    (x.bind f).Attains R Q := by
  induction hx with
  | done h => exact hf _ _ h
  | wait _ ih => exact .wait ih

end Step.Attains

/-! ## Runs that go on -/

namespace EngineState
variable {run : RunId} {signal : SignalId} {s s' : EngineState}

/-- **The run goes on**: it is there, and its signal is not on. -/
structure GoesOn (run : RunId) (signal : SignalId) (s : EngineState) : Prop where
  there : ∃ r, s.runs.get? run = some r ∧ r.signal = signal
  off : s.isCancelled signal = false

theorem GoesOn.signal_eq (hs : GoesOn run signal s) : (s.run run).signal = signal := by
  obtain ⟨r, hr, rfl⟩ := hs.there
  rw [EngineState.run, hr]
  rfl

theorem GoesOn.aloof (hs : GoesOn run signal s) (ha : s.Aloof s') : GoesOn run signal s' := by
  obtain ⟨r, hr, hsignal⟩ := hs.there
  obtain ⟨r', hr', hsame⟩ := ha.runs run r hr
  exact ⟨⟨r', hr', hsame.trans hsignal⟩, (ha.isCancelled signal).trans hs.off⟩

end EngineState

namespace Eval
variable {α β : Type} {run : RunId} {signal : SignalId} {s : EngineState}

/-- The evaluation attains a value while the run goes on, and the run still does. -/
abbrev Gives (run : RunId) (signal : SignalId) (Q : α → Prop) (x : Step (Except EvalError α)) : Prop :=
  x.Attains (EngineState.GoesOn run signal) fun r t =>
    (∃ a, r = .ok a ∧ Q a) ∧ EngineState.GoesOn run signal t

theorem gives_done (hs : s.GoesOn run signal) {Q : α → Prop} {a : α} (ha : Q a) :
    Gives run signal Q (.done s (.ok a)) := .done ⟨⟨a, rfl, ha⟩, hs⟩

/-- What goes on after a value goes on. -/
theorem Gives.andThen {x : Step (Except EvalError α)} {P : α → Prop} {Q : β → Prop}
    (hx : Gives run signal P x) {f : α → Eval β}
    (hf : ∀ a s, P a → s.GoesOn run signal → Gives run signal Q (f a s)) :
    Gives run signal Q (x.bind (Eval.andThen f)) := by
  refine hx.bind ?_
  rintro _ t ⟨⟨a, rfl, ha⟩, ht⟩
  exact hf a t ha ht

theorem gives_holding {x : Holding} {m : Eval α} {P : α → Prop}
    (hm : Gives run signal P (m (s.hold x))) : Gives run signal P (holding x m s) := by
  rw [holding_apply]
  refine hm.bind ?_
  rintro _ t ⟨⟨a, rfl, ha⟩, ht⟩
  exact gives_done (ht.aloof (t.apart_letGoOf t.current).aloof) ha

/-! ## Pulses -/

theorem checkSignal_of_goesOn (hs : s.GoesOn run signal) :
    checkSignal signal s = .done s (.ok ()) := by
  rw [checkSignal_apply, hs.off]
  rfl

/-- A wait for anything that only this signal can end ends well. -/
theorem gives_await (hs : s.GoesOn run signal) {on : Wait} (hon : ∀ id ∈ on.signal?, id = signal) :
    Gives run signal (fun _ => True) (await on s) := by
  have hoff {t : EngineState} (ht : t.GoesOn run signal) :
      on.signal?.any t.isCancelled = false := by
    cases hsignal : on.signal? with
    | none => rfl
    | some id =>
      rw [hon id hsignal]
      exact ht.off
  rw [await_apply, hoff hs]
  refine .wait fun t ht => ?_
  rw [checkWait_apply, hoff ht]
  exact gives_done ht trivial

theorem gives_tick (hs : s.GoesOn run signal) : Gives run signal (fun _ => True) (tick run s) := by
  have hcounted := hs.aloof (s.aloof_modifyRun run (f := fun r =>
    { r with limiter := ((s.run run).limiter.tick s.now).1 }) fun _ => rfl)
  rw [tick_apply]
  split
  · exact gives_done hcounted trivial
  · exact gives_await hcounted fun id hid => (Option.some.inj hid).symm.trans hcounted.signal_eq

theorem gives_pulse (hs : s.GoesOn run signal) : Gives run signal (fun _ => True) (pulse run s) := by
  have hcheck : checkRun run s = .done s (.ok ()) := by
    rw [checkRun, bind_apply, signalOf, read_apply, Step.bind_of_done, andThen_ok, hs.signal_eq]
    exact checkSignal_of_goesOn hs
  have hcounted := hs.aloof (s.aloof_modifyRun run (f := fun r =>
    { r with cycles := r.cycles + turnInterval }) fun _ => rfl)
  rw [pulse, bind_apply, hcheck, Step.bind_of_done, andThen_ok, bind_apply, countCycles, bind_apply,
    modify_apply, Step.bind_of_done, andThen_ok, read_apply, Step.bind_of_done, andThen_ok, bind_apply]
  exact (gives_await hcounted fun _ hid => by cases hid).andThen fun _ t _ ht => gives_tick ht

/-! ## Building -/

/-- The items that are built from a function of their numbers. -/
def itemsOf (f : Nat → Value) (length : Nat) : Array Value := ((List.range length).map f).toArray

/-- The item with a number, which needs nothing of the state. -/
def plainItem (f : Nat → Value) (i : Nat) (s : EngineState) : Outcome Value × EngineState :=
  (.ok (f i), s)

theorem fill_plainItem (f : Nat → Value) (count index : Nat) (items : Array Value) (s : EngineState) :
    fill (plainItem f) count index items s =
      (.ok (items ++ ((List.range' index count).map f).toArray), s) := by
  induction count generalizing index items with
  | zero => simp [fill]
  | succ count ih =>
    simp only [fill]
    show fill (plainItem f) count (index + 1) (items.push (f index)) s = _
    rw [ih]
    simp [List.range'_succ]

/-- The stretches, the last one first, are put together to the first items. -/
def Covers (f : Nat → Value) (size : Nat) (built : List (Array Value)) : Prop :=
  built.foldr (fun stretch items => items ++ stretch) #[] = itemsOf f size

theorem Covers.stretch {f : Nat → Value} {size : Nat} {built : List (Array Value)}
    (hbuilt : Covers f size built) (count : Nat) :
    Covers f (size + count) ((#[] ++ ((List.range' size count).map f).toArray) :: built) := by
  have happend := @List.range'_append_1 0 size count
  rw [Nat.zero_add] at happend
  unfold Covers at hbuilt ⊢
  rw [List.foldr_cons, hbuilt]
  simp [itemsOf, List.range_eq_range', ← happend]

/-- **The stretches that are left are built**, with a pulse before each that is not the first. -/
theorem gives_buildStretches (f : Nat → Value) {length : Nat} (stretches : Nat) {size : Nat}
    {built : List (Array Value)} (hs : s.GoesOn run signal) (hsize : size ≤ length)
    (hleft : length ≤ size + stretches * turnInterval) (hbuilt : Covers f size built) :
    Gives run signal (Covers f length)
      (buildStretches run length (plainItem f) stretches size built s) := by
  induction stretches generalizing size built s with
  | zero =>
    obtain rfl : size = length := by omega
    exact gives_done hs hbuilt
  | succ stretches ih =>
    -- The rest is the same whether or not there was a pulse.
    have hrest {t : EngineState} (ht : t.GoesOn run signal) :
        Gives run signal (Covers f length) ((do
          let stretch ← ofOutcome
            (← update (fill (plainItem f) (min turnInterval (length - size)) size #[]))
          buildStretches run length (plainItem f) stretches
            (size + min turnInterval (length - size)) (stretch :: built)) t) := by
      rw [bind_apply, update_apply, fill_plainItem, Step.bind_of_done, andThen_ok]
      refine ih ht (by omega) ?_ (hbuilt.stretch _)
      have hinterval : turnInterval = 512 := rfl
      rw [hinterval] at hleft ⊢
      omega
    unfold buildStretches
    split
    · exact hrest hs
    · rw [bind_apply]
      refine (gives_holding (gives_pulse ?_)).andThen fun _ t _ ht => hrest ht
      exact hs.aloof (s.apart_hold _).aloof

/-- **What is built from a function of the numbers of its items** has these items, if there are no more
of them than the run may have. -/
theorem gives_build (f : Nat → Value) {length : Nat} (hs : s.GoesOn run signal)
    (hlength : ¬ (0 < (s.run run).maxElements ∧ (s.run run).maxElements < length)) :
    Gives run signal (· = itemsOf f length) (build run length (plainItem f) s) := by
  rw [build, bind_apply, checkLength_apply, if_neg hlength, Step.bind_of_done, andThen_ok, bind_apply]
  have hinterval : turnInterval = 512 := rfl
  have hnothing : Covers f 0 [] := rfl
  refine (gives_buildStretches f _ hs (Nat.zero_le _) ?_ hnothing).andThen fun built t hbuilt ht => ?_
  · rw [hinterval]
    omega
  · exact gives_done ht hbuilt

/-- **What would have too many items** is not begun. -/
theorem build_of_tooLong {item : Nat → EngineState → Outcome Value × EngineState} {length : Nat}
    (hlength : 0 < (s.run run).maxElements ∧ (s.run run).maxElements < length) :
    build run length item s =
      .done (s.refuse (.length run)) (.error { fault := .invalidOperation ("result of " ++
        toString length ++ " elements exceeds the limit of " ++
        toString (s.run run).maxElements) }) := by
  rw [build, bind_apply, checkLength_apply, if_pos hlength]
  rfl

end Eval

end ScriptEngine
