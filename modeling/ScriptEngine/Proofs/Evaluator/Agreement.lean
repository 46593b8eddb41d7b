import ScriptEngine.Proofs.Evaluator.Families
import ScriptEngine.Proofs.Task.Paths

/-! # Three evaluators that agree

To tell what becomes of an error on its way out, the evaluator is run side by side with two variants, from
the same state, and they are resumed with the same states.  The strict variant stops when a node *ends* badly,
the watchful one when something else takes the place of a bad end: when the bad end is *put aside*.  As long as nothing happens the three **agree**; once the
strict one has stopped, only the fate of the other two matters: the evaluator is **doomed** to end badly, or
the watchful one stops.

What is bad is to end with an error of a certain kind: a **marked** one.  Agreement on marked errors is
compositional, for every kind of errors that an error does not leave by being given a place.
-/
namespace ScriptEngine

/-- How a node is evaluated. -/
inductive Mode where
  | plain
  | strict
  | watchful
deriving Repr, DecidableEq, Inhabited

section
variable {α : Type}

/-- The outcome is a marked error. -/
def marked (marks : EvalError → Bool) : Except EvalError α → Bool
  | .ok _ => false
  | .error e => marks e

/-- An outcome that is a marked error, or carries one. -/
def carriesMarked (marks : EvalError → Bool) : Except EvalError (Except EvalError α) → Bool
  | .ok outcome => marked marks outcome
  | .error e => marks e

/-- Stops the task if `m` ends in such a way. -/
def Eval.stoppingIf (test : Except EvalError α → Bool) (m : Eval α) : Eval α := fun s =>
  (m s).bind fun r s => if test r then .stop s (.breakDown none) else .done s r

theorem Eval.stoppingIf_apply (test : Except EvalError α → Bool) (m : Eval α) (s : EngineState) :
    m.stoppingIf test s =
      (m s).bind fun r s => if test r then .stop s (.breakDown none) else .done s r := rfl

/-- What is done with a node that was evaluated. -/
def Mode.marking (marks : EvalError → Bool) : Mode → Eval α → Eval α
  | .strict, m => m.stoppingIf (marked marks)
  | .plain, m | .watchful, m => m

end

namespace Step
variable {α β : Type}

/-- The task has stopped. -/
def Halted (x : Step α) : Prop := ∃ s why, x = .stop s why

/-- The task has stopped, as a test. -/
def isHalted : Step α → Bool
  | .stop _ _ => true
  | .done _ _ | .wait _ _ _ => false

theorem isHalted_iff {x : Step α} : x.isHalted = true ↔ x.Halted := by
  cases x <;> simp [isHalted, Halted]

theorem Halted.bind {x : Step α} (hx : x.Halted) (f : α → EngineState → Step β) :
    (x.bind f).Halted := by
  obtain ⟨s, why, rfl⟩ := hx
  exact ⟨s, why, rfl⟩

theorem Halted.follow {x : Step α} (hx : x.Halted) (path : List EngineState) :
    (x.follow path).Halted := by
  obtain ⟨s, why, rfl⟩ := hx
  cases path with
  | nil => exact ⟨s, why, rfl⟩
  | cons s' path => exact ⟨s, why, rfl⟩

end Step

namespace Propagation
variable {ρ σ : Type} {bad : ρ → Prop} {bad' : σ → Prop}

open Step (Halted)

/-! ## Doom -/

/-- However it is resumed, `x` ends badly, or something is put aside and `z` stops. -/
def Doomed (bad : ρ → Prop) : Step ρ → Step ρ → Prop
  | .done s r, z => Halted z ∨ z = .done s r ∧ bad r
  | .wait s on resume, z =>
    Halted z ∨ ∃ resume', z = .wait s on resume' ∧ ∀ s, Doomed bad (resume s) (resume' s)
  | .stop _ _, _ => True

theorem Doomed.of_halted {x z : Step ρ} (hz : Halted z) : Doomed bad x z := by
  cases x with
  | done | wait => exact .inl hz
  | stop => trivial

theorem Doomed.bind {x z : Step ρ} {f g : ρ → EngineState → Step σ} (hx : Doomed bad x z)
    (hf : ∀ r s, bad r → Doomed bad' (f r s) (g r s)) : Doomed bad' (x.bind f) (z.bind g) := by
  induction x generalizing z with
  | done s r =>
    obtain hz | ⟨rfl, hr⟩ := hx
    · exact .of_halted (hz.bind g)
    · exact hf r s hr
  | wait s on resume ih =>
    obtain hz | ⟨resume', rfl, hresume⟩ := hx
    · exact .of_halted (hz.bind g)
    · exact .inr ⟨_, rfl, fun s => ih s (hresume s)⟩
  | stop s why => trivial

theorem Doomed.mono {x z : Step ρ} {worse : ρ → Prop} (hx : Doomed bad x z)
    (hbad : ∀ r, bad r → worse r) : Doomed worse x z := by
  induction x generalizing z with
  | done s r =>
    obtain hz | ⟨rfl, hr⟩ := hx
    · exact .inl hz
    · exact .inr ⟨rfl, hbad r hr⟩
  | wait s on resume ih =>
    obtain hz | ⟨resume', rfl, hresume⟩ := hx
    · exact .inl hz
    · exact .inr ⟨_, rfl, fun s => ih s (hresume s)⟩
  | stop s why => trivial

theorem Doomed.follow {x z : Step ρ} (hx : Doomed bad x z) {path : List EngineState}
    {s : EngineState} {r : ρ} (hend : x.follow path = .done s r) :
    bad r ∨ Halted (z.follow path) := by
  induction path generalizing x z with
  | nil =>
    rw [Step.follow_nil] at hend ⊢
    subst hend
    obtain hz | ⟨-, hr⟩ := hx
    · exact .inr hz
    · exact .inl hr
  | cons s' path ih =>
    cases x with
    | done s r =>
      cases hend
      obtain hz | ⟨-, hr⟩ := hx
      · exact .inr (hz.follow _)
      · exact .inl hr
    | wait s on resume =>
      obtain hz | ⟨resume', rfl, hresume⟩ := hx
      · exact .inr (hz.follow _)
      · exact ih (hresume s') hend
    | stop s why => cases hend

/-! ## Agreement -/

/-- `x` and `y` and `z` go on in the same way; or `y` has stopped and `x` is doomed; or something
was put aside and `z` has stopped. -/
def Agree (bad : ρ → Prop) : Step ρ → Step ρ → Step ρ → Prop
  | .done s r, y, z =>
    Halted z ∨ Halted y ∧ Doomed bad (.done s r) z ∨ y = .done s r ∧ z = .done s r
  | .wait s on resume, y, z =>
    Halted z ∨ Halted y ∧ Doomed bad (.wait s on resume) z ∨
      ∃ resume' resume'', y = .wait s on resume' ∧ z = .wait s on resume'' ∧
        ∀ s, Agree bad (resume s) (resume' s) (resume'' s)
  | .stop _ _, _, _ => True

theorem Agree.of_halted {x y z : Step ρ} (hz : Halted z) : Agree bad x y z := by
  cases x with
  | done | wait => exact .inl hz
  | stop => trivial

theorem Agree.of_doomed {x y z : Step ρ} (hy : Halted y) (hx : Doomed bad x z) :
    Agree bad x y z := by
  cases x with
  | done | wait => exact .inr (.inl ⟨hy, hx⟩)
  | stop => trivial

theorem Agree.refl (x : Step ρ) : Agree bad x x x := by
  induction x with
  | done s r => exact .inr (.inr ⟨rfl, rfl⟩)
  | wait s on resume ih => exact .inr (.inr ⟨resume, resume, rfl, rfl, ih⟩)
  | stop s why => trivial

theorem Agree.bind {x y z : Step ρ} {f g h : ρ → EngineState → Step σ} (hx : Agree bad x y z)
    (hok : ∀ r s, Agree bad' (f r s) (g r s) (h r s))
    (hbad : ∀ r s, bad r → Doomed bad' (f r s) (h r s)) :
    Agree bad' (x.bind f) (y.bind g) (z.bind h) := by
  induction x generalizing y z with
  | done s r =>
    obtain hz | ⟨hy, hd⟩ | ⟨rfl, rfl⟩ := hx
    · exact .of_halted (hz.bind h)
    · exact .of_doomed (hy.bind g) (hd.bind hbad)
    · exact hok r s
  | wait s on resume ih =>
    obtain hz | ⟨hy, hd⟩ | ⟨resume', resume'', rfl, rfl, hresume⟩ := hx
    · exact .of_halted (hz.bind h)
    · exact .of_doomed (hy.bind g) (hd.bind hbad)
    · exact .inr (.inr ⟨_, _, rfl, rfl, fun s => ih s (hresume s)⟩)
  | stop s why => trivial

/-- The strict variant may stop at a bad end, and the watchful one at any. -/
theorem Agree.check {x y z : Step ρ} {g h : ρ → EngineState → Step ρ} (hx : Agree bad x y z)
    (hg : ∀ r s, g r s = .done s r ∨ bad r ∧ Halted (g r s))
    (hh : ∀ r s, h r s = .done s r ∨ Halted (h r s)) : Agree bad x (y.bind g) (z.bind h) := by
  rw [← Step.bind_done x]
  refine hx.bind (fun r s => ?_) fun r s hr => ?_
  · obtain hz | hz := (hh r s).symm
    · exact .of_halted hz
    · obtain hy | ⟨hr, hy⟩ := hg r s
      · exact .inr (.inr ⟨hy, hz⟩)
      · exact .of_doomed hy (.inr ⟨hz, hr⟩)
  · obtain hz | hz := (hh r s).symm
    · exact .inl hz
    · exact .inr ⟨hz, hr⟩

/-- Whether or not `y` has stopped, `x` and `z` end in the same way unless `z` stops. -/
theorem Agree.doomed {x y z : Step ρ} (hx : Agree bad x y z) : Doomed (fun _ => True) x z := by
  induction x generalizing y z with
  | done s r =>
    obtain hz | ⟨-, hd⟩ | ⟨-, rfl⟩ := hx
    · exact .inl hz
    · exact hd.mono fun _ _ => trivial
    · exact .inr ⟨rfl, trivial⟩
  | wait s on resume ih =>
    obtain hz | ⟨-, hd⟩ | ⟨resume', resume'', -, rfl, hresume⟩ := hx
    · exact .inl hz
    · exact hd.mono fun _ _ => trivial
    · exact .inr ⟨_, rfl, fun s => ih s (hresume s)⟩
  | stop s why => trivial

theorem Agree.follow {x y z : Step ρ} (hx : Agree bad x y z) {path : List EngineState}
    {s : EngineState} {r : ρ} (hend : x.follow path = .done s r) :
    y.follow path = .done s r ∨ bad r ∨ Halted (z.follow path) := by
  induction path generalizing x y z with
  | nil =>
    rw [Step.follow_nil] at hend
    subst hend
    obtain hz | ⟨-, hd⟩ | ⟨rfl, -⟩ := hx
    · exact .inr (.inr (hz.follow _))
    · exact .inr (hd.follow (Step.follow_nil _))
    · exact .inl (Step.follow_nil _)
  | cons s' path ih =>
    cases x with
    | done s r =>
      obtain hz | ⟨-, hd⟩ | ⟨rfl, -⟩ := hx
      · exact .inr (.inr (hz.follow _))
      · exact .inr (hd.follow hend)
      · exact .inl hend
    | wait s on resume =>
      obtain hz | ⟨-, hd⟩ | ⟨resume', resume'', rfl, rfl, hresume⟩ := hx
      · exact .inr (.inr (hz.follow _))
      · exact .inr (hd.follow hend)
      · exact ih (hresume s') hend
    | stop s why => cases hend

/-! ## Families in the three modes -/

/-- In every state the three computations agree. -/
structure Sound {α : Type} (bad : Except EvalError α → Bool) (m : Mode → Eval α) : Prop where
  agree : ∀ s, Agree (bad · = true) (m .plain s) (m .strict s) (m .watchful s)

namespace Sound
variable {α β : Type} {bad : Except EvalError α → Bool} {marks : EvalError → Bool}

theorem same (m : Eval α) : Sound bad fun _ => m := ⟨fun s => .refl (m s)⟩

/-- Whatever comes first does not differ. -/
theorem after {m : Eval β} {k : Mode → β → Eval α} (hk : ∀ b, Sound bad fun i => k i b) :
    Sound bad fun i => m >>= k i := by
  refine ⟨fun s => ?_⟩
  simp only [Eval.bind_apply]
  have hm : Agree (fun _ => False) (m s) (m s) (m s) := .refl _
  refine hm.bind (fun r s => ?_) fun r s hr => hr.elim
  cases r with
  | error e => exact .refl _
  | ok b => exact (hk b).agree s

theorem bind {m : Mode → Eval β} {k : Mode → β → Eval α} (hm : Sound (marked marks) m)
    (hk : ∀ b, Sound (marked marks) fun i => k i b) : Sound (marked marks) fun i => m i >>= k i := by
  refine ⟨fun s => ?_⟩
  simp only [Eval.bind_apply]
  refine (hm.agree s).bind (fun r s => ?_) fun r s hr => ?_
  · cases r with
    | error e => exact .refl _
    | ok b => exact (hk b).agree s
  · cases r with
    | error e => exact .inr ⟨rfl, hr⟩
    | ok b => cases hr

theorem holding (x : Holding) {m : Mode → Eval α} (hm : Sound bad m) :
    Sound bad fun i => Eval.holding x (m i) :=
  ⟨fun s => (hm.agree (s.hold x)).bind (fun _ _ => .refl _) fun _ _ hr => .inr ⟨rfl, hr⟩⟩

theorem inChild (parent : ScopeId) {m : Mode → ScopeId → Eval α}
    (hm : ∀ scope, Sound bad fun i => m i scope) :
    Sound bad fun i => Eval.inChild parent (m i) :=
  after fun scope => holding _ (hm scope)

theorem inFrame {m : Mode → FrameId → Eval α} (hm : ∀ frame, Sound bad fun i => m i frame) :
    Sound bad fun i => Eval.inFrame (m i) :=
  after fun frame => holding _ (hm frame)

theorem located (hmarks : ∀ e p, marks e = true → marks (e.locate p) = true) (p : Position)
    {m : Mode → Eval α} (hm : Sound (marked marks) m) :
    Sound (marked marks) fun i => Eval.located p (m i) := by
  refine ⟨fun s => (hm.agree s).bind (fun _ _ => .refl _) fun r s hr => .inr ⟨rfl, ?_⟩⟩
  cases r with
  | ok a => cases hr
  | error e => exact hmarks e p hr

/-- An attempt hands on what it has found. -/
theorem attempt {m : Mode → Eval α} (hm : Sound (marked marks) m) :
    Sound (carriesMarked marks) fun i => Eval.attempt (m i) :=
  ⟨fun s => (hm.agree s).bind (fun _ _ => .refl _) fun _ _ hr => .inr ⟨rfl, hr⟩⟩

/-- The watchful variant may stop at any end. -/
theorem stopping {m : Mode → Eval α} (hm : Sound bad m) (test : Except EvalError α → Bool)
    (s : EngineState) :
    Agree (bad · = true) (m .plain s) (m .strict s) ((m .watchful).stoppingIf test s) := by
  rw [← Step.bind_done (m .strict s)]
  refine (hm.agree s).check (fun _ _ => .inl rfl) fun r s => ?_
  split
  · exact .inr ⟨_, _, rfl⟩
  · exact .inl rfl

theorem marking {m : Mode → Eval α} (hm : Sound (marked marks) m) :
    Sound (marked marks) fun i => i.marking marks (m i) := by
  refine ⟨fun s => ?_⟩
  show Agree _ (m .plain s) ((m .strict s).bind _) (m .watchful s)
  rw [← Step.bind_done (m .watchful s)]
  refine (hm.agree s).check (fun r s => ?_) fun r s => .inl rfl
  split
  · rename_i hr
    exact .inr ⟨hr, _, _, rfl⟩
  · exact .inl rfl

end Sound

/-- Agreement on marked errors is compositional, whatever the host functions are. -/
theorem compositional_marked {marks : EvalError → Bool}
    (hmarks : ∀ e p, marks e = true → marks (e.locate p) = true) :
    Compositional (fun _ => True) fun {α} (m : Mode → Eval α) => Sound (marked marks) m where
  same m _ := .same m
  bind := .bind
  holding := .holding
  located := .located hmarks
  callee id k hscript hhost := Sound.after fun f => by
    cases f with
    | script definition scope selfBound => exact hscript definition scope selfBound
    | host f => exact hhost f trivial
  give _ _ := .same _
  throw _ _ := .same _

end Propagation
end ScriptEngine
