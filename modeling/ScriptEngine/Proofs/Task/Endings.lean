import ScriptEngine.Evaluator.Basic
import ScriptEngine.Proofs.Task.Equations

/-! # How tasks end

A task may wait many times before it is done, and while it waits the state may become anything.
`Step.Ends` says that, whatever happens meanwhile, the task ends, if it does, with a result of a given
kind; `Eval.Yields` says it of the values of an evaluation, errors being left open.

Both pass through everything that evaluations are put together with.  What an evaluation yields also
tells which of its continuations matter: two that agree on what it yields are interchangeable
(`Eval.Yields.bind_congr`).
-/
namespace ScriptEngine

variable {α β : Type}

namespace Step

/-- **The step ends with `Q`**, if it comes to an end, whatever the states in which it is resumed. -/
def Ends (Q : α → Prop) : Step α → Prop
  | .done _ a => Q a
  | .wait _ _ resume => ∀ s, Ends Q (resume s)
  | .stop _ _ => True

variable {P : α → Prop} {Q : β → Prop}

theorem Ends.bind {x : Step α} {f : α → EngineState → Step β} (hx : x.Ends P)
    (hf : ∀ a s, P a → (f a s).Ends Q) : (x.bind f).Ends Q := by
  induction x with
  | done s a => exact hf a s hx
  | wait s on resume ih =>
    intro s'
    exact ih s' (hx s')
  | stop s why => exact trivial

theorem ends_true (x : Step α) : x.Ends fun _ => True := by
  induction x with
  | done s a => exact trivial
  | wait s on resume ih => exact ih
  | stop s why => exact trivial

/-- What comes after a step matters only for what the step ends with. -/
theorem Ends.bind_congr {x : Step α} {f g : α → EngineState → Step β} (hx : x.Ends P)
    (hfg : ∀ a, P a → f a = g a) : x.bind f = x.bind g := by
  induction x with
  | done s a =>
    rw [bind_of_done, bind_of_done, hfg a hx]
  | wait s on resume ih =>
    rw [bind_of_wait, bind_of_wait]
    congr 1
    funext s'
    exact ih s' (hx s')
  | stop s why => rfl

end Step

namespace Eval

variable {P P' : α → Prop} {Q : β → Prop}

/-- **The evaluation yields `P`**: its values, if it comes to one, satisfy `P`. -/
structure Yields (P : α → Prop) (m : Eval α) : Prop where
  ends : ∀ s, (m s).Ends fun r => ∀ a, r = .ok a → P a

theorem yields_pure {a : α} (ha : P a) : Yields P (pure a) := by
  refine ⟨fun s b hb => ?_⟩
  cases hb
  exact ha

theorem yields_fail (f : Fault) : Yields P (fail f) := by
  refine ⟨fun s b hb => ?_⟩
  cases hb

theorem yields_outOfFuel : Yields P outOfFuel := ⟨fun _ => trivial⟩

/-- One evaluation after another. -/
theorem Yields.bind {m : Eval α} {k : α → Eval β} (hm : Yields P m)
    (hk : ∀ a, P a → Yields Q (k a)) : Yields Q (m >>= k) := by
  refine ⟨fun s => ?_⟩
  rw [bind_apply]
  refine (hm.ends s).bind fun r s' hr => ?_
  cases r with
  | error e =>
    intro b hb
    cases hb
  | ok a => exact (hk a (hr a rfl)).ends s'

/-- What holds of every value an evaluation may come to. -/
theorem Yields.of_forall {m : Eval α} (h : ∀ a, P a) : Yields P m := by
  refine ⟨fun s => Step.bind_done (m s) ▸ (m s).ends_true.bind fun r s' _ => ?_⟩
  exact fun a _ => h a

/-- What is evaluated first may yield anything. -/
theorem yields_bind {m : Eval α} {k : α → Eval β} (hk : ∀ a, Yields Q (k a)) :
    Yields Q (m >>= k) :=
  (Yields.of_forall (P := fun _ => True) fun _ => trivial).bind fun a _ => hk a

/-- A check that comes first, on one side of a condition or on the other. -/
theorem yields_when {c : Prop} [Decidable c] {m : Eval α} {k : Eval β} (hk : Yields Q k) :
    Yields Q (if c then m >>= fun _ => k else k) := by
  split
  · exact yields_bind fun _ => hk
  · exact hk

@[inherit_doc yields_when]
theorem yields_unless {c : Prop} [Decidable c] {m : Eval α} {k : Eval β} (hk : Yields Q k) :
    Yields Q (if c then k else m >>= fun _ => k) := by
  split
  · exact hk
  · exact yields_bind fun _ => hk

/-- Continuations that agree on what the evaluation yields do the same. -/
theorem Yields.bind_congr {m : Eval α} {k k' : α → Eval β} (hm : Yields P m)
    (hk : ∀ a, P a → k a = k' a) : m >>= k = m >>= k' := by
  funext s
  rw [bind_apply, bind_apply]
  refine (hm.ends s).bind_congr fun r hr => ?_
  cases r with
  | error e => rfl
  | ok a =>
    funext s'
    rw [andThen_ok, andThen_ok, hk a (hr a rfl)]

theorem Yields.mono {m : Eval α} (hm : Yields P m) (h : ∀ a, P a → P' a) : Yields P' m := by
  refine ⟨fun s => ?_⟩
  rw [← Step.bind_done (m s)]
  exact (hm.ends s).bind fun r s' hr a ha => h a (hr a ha)

theorem Yields.holding {m : Eval α} (hm : Yields P m) (x : Holding) : Yields P (holding x m) := by
  refine ⟨fun s => ?_⟩
  rw [holding_apply]
  exact (hm.ends _).bind fun r s' hr => hr

theorem Yields.holdingValue {m : Eval α} (hm : Yields P m) (v : Value) :
    Yields P (holdingValue v m) :=
  hm.holding (.value v)

theorem Yields.located {m : Eval α} (hm : Yields P m) (p : Position) : Yields P (located p m) := by
  refine ⟨fun s => ?_⟩
  rw [located_apply]
  refine (hm.ends s).bind fun r s' hr => ?_
  cases r with
  | error e =>
    intro b hb
    cases hb
  | ok a => exact hr

theorem Yields.attempt {m : Eval α} (hm : Yields P m) :
    Yields (fun r => ∀ a, r = .ok a → P a) (attempt m) := by
  refine ⟨fun s => ?_⟩
  rw [attempt_apply]
  refine (hm.ends s).bind fun r s' hr o ho => ?_
  cases ho
  exact hr

/-- The value of an outcome. -/
theorem yields_ofExcept {r : Except EvalError α} (hr : ∀ a, r = .ok a → P a) :
    Yields P (MonadExcept.ofExcept r) := by
  cases r with
  | error e =>
    refine ⟨fun s b hb => ?_⟩
    cases hb
  | ok a => exact yields_pure (hr a rfl)

theorem yields_inChild {m : ScopeId → Eval α} (parent : ScopeId) (hm : ∀ scope, Yields P (m scope)) :
    Yields P (inChild parent m) :=
  yields_bind fun scope => (hm scope).holding _

theorem yields_inFrame {m : FrameId → Eval α} (hm : ∀ frame, Yields P (m frame)) :
    Yields P (inFrame m) :=
  yields_bind fun frame => (hm frame).holding _

end Eval

end ScriptEngine
