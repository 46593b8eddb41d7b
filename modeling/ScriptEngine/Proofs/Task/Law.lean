import ScriptEngine.Proofs.Task.Equations

/-! # Tasks that observe a law

A task runs in stretches, from one wait to the next, and while it waits other tasks run.  What matters
of the state is its **view**, and a **law** says how the view may develop from one moment to a later
one.  A task **observes** the law (`Observes`) if each of its stretches does, provided that the same
is true of whatever the others do while it waits.

Tasks that are put together from tasks that observe a law observe it too, so a law need only be shown
of what tasks are made of.
-/
namespace ScriptEngine

variable {κ : Type}

/-- How a view may develop: from any moment to any later one, and what was reached may stay. -/
structure Law (G : κ → κ → Prop) : Prop where
  trans : ∀ {a b c}, G a b → G b c → G a c
  stays : ∀ {a b}, G a b → G b b

/-- **The task observes the law** from the view `k` on; when it is done, `Q` holds of its result and
the view. -/
def Observes {α : Type} (view : EngineState → κ) (G : κ → κ → Prop) (Q : α → κ → Prop) :
    Step α → κ → Prop
  | .done s a, k => G k (view s) ∧ Q a (view s)
  | .wait s _ resume, k =>
    G k (view s) ∧ ∀ s', G (view s) (view s') → Observes view G Q (resume s') (view s')
  | .stop s _, k => G k (view s)

/-- A task that observes the law, whatever its result. -/
abbrev ObservesOn {α : Type} (view : EngineState → κ) (G : κ → κ → Prop) (x : Step α) (k : κ) :
    Prop :=
  Observes view G (fun _ _ => True) x k

variable {α β : Type} {view : EngineState → κ} {G : κ → κ → Prop} {P : α → κ → Prop}
  {Q : β → κ → Prop} {k k' : κ}

theorem Observes.after (hG : Law G) (hk : G k k') {x : Step α} (hx : Observes view G P x k') :
    Observes view G P x k := by
  cases x with
  | done s a => exact ⟨hG.trans hk hx.1, hx.2⟩
  | wait s on resume => exact ⟨hG.trans hk hx.1, hx.2⟩
  | stop s why => exact hG.trans hk hx

/-- One task after the other. The second starts at a moment that the first one has led to. -/
theorem Observes.bind (hG : Law G) {x : Step α} {f : α → EngineState → Step β}
    (hx : Observes view G P x k)
    (hf : ∀ a s, G k (view s) → P a (view s) → Observes view G Q (f a s) (view s)) :
    Observes view G Q (x.bind f) k := by
  induction x generalizing k with
  | done s a => exact .after hG hx.1 (hf a s hx.1 hx.2)
  | wait s on resume ih =>
    refine ⟨hx.1, fun s' hs' => ih s' (hx.2 s' hs') fun a s'' ha => ?_⟩
    exact hf a s'' (hG.trans (hG.trans hx.1 hs') ha)
  | stop s why => exact hx

theorem Observes.weaken (hG : Law G) {P' : α → κ → Prop} {x : Step α} (hx : Observes view G P x k)
    (hP : ∀ a k', G k k' → P a k' → P' a k') : Observes view G P' x k := by
  rw [← Step.bind_done x]
  exact hx.bind hG fun a s hs ha => ⟨hG.stays hs, hP a _ hs ha⟩

theorem Observes.on (hG : Law G) {x : Step α} (hx : Observes view G P x k) :
    ObservesOn view G x k :=
  hx.weaken hG fun _ _ _ _ => trivial

/-! ## Tasks that observe a law up to their end -/

/-- **The task observes the law until it is done**; then `E` holds of its result, the view from which it
went on last and the view that it has come to. -/
def ObservesUntil {α : Type} (view : EngineState → κ) (G : κ → κ → Prop) (E : α → κ → κ → Prop) :
    Step α → κ → Prop
  | .done s a, k => E a k (view s)
  | .wait s _ resume, k =>
    G k (view s) ∧ ∀ s', G (view s) (view s') → ObservesUntil view G E (resume s') (view s')
  | .stop s _, k => G k (view s)

variable {E : α → κ → κ → Prop} {E' : β → κ → κ → Prop}

/-- Who observes a law does so also where it ends. -/
theorem observes_iff {x : Step α} :
    Observes view G P x k ↔ ObservesUntil view G (fun a k s => G k s ∧ P a s) x k := by
  induction x generalizing k with
  | done s a => exact .rfl
  | wait s on resume ih =>
    exact and_congr_right fun _ => forall_congr' fun s' => imp_congr_right fun _ => ih s'
  | stop s why => exact .rfl

theorem ObservesUntil.after (hG : Law G) (hE : ∀ {a k k' s}, G k k' → E a k' s → E a k s)
    (hk : G k k') {x : Step α} (hx : ObservesUntil view G E x k') : ObservesUntil view G E x k := by
  cases x with
  | done s a => exact hE hk hx
  | wait s on resume => exact ⟨hG.trans hk hx.1, hx.2⟩
  | stop s why => exact hG.trans hk hx

/-- One task after the other, with nothing lawful in between. -/
theorem ObservesUntil.bind {x : Step α} {f : α → EngineState → Step β}
    (hx : ObservesUntil view G E x k)
    (hf : ∀ a k s, E a k (view s) → ObservesUntil view G E' (f a s) k) :
    ObservesUntil view G E' (x.bind f) k := by
  induction x generalizing k with
  | done s a => exact hf a k s hx
  | wait s on resume ih => exact ⟨hx.1, fun s' hs' => ih s' (hx.2 s' hs')⟩
  | stop s why => exact hx

end ScriptEngine
