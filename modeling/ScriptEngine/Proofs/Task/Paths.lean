import ScriptEngine.Evaluator.Basic
import ScriptEngine.Proofs.Task.Endings
import ScriptEngine.Proofs.Task.Law

/-! # Paths

A task that waits is resumed in whatever state the others have left.  The states in which it is
resumed, one after the other, are its **path**: together with the state in which it begins they decide
everything that it does (`Step.follow`).  A path may take a task exactly to its end (`Step.EndsAlong`).

A task that consists of two ends along a path if the first ends along a part of it, and the second,
which begins where the first has ended, along the rest (`Step.endsAlong_bind`).  `Eval.Runs` says this
of evaluation, with one law for everything that evaluations are put together with.

What others do while a task waits can be seen from its path, too (`Step.Amid`).  If the task observes a
law and the others do what the law allows, then the law holds of where the task ends.
-/
namespace ScriptEngine

namespace Step
variable {α β : Type} {x : Step α} {f : α → EngineState → Step β}

/-- How far a task has come after it was resumed with these states, one after the other. -/
def follow : Step α → List EngineState → Step α
  | x, [] => x
  | .wait _ _ resume, s :: path => (resume s).follow path
  | x, _ :: _ => x

theorem follow_nil (x : Step α) : x.follow [] = x := by
  cases x <;> rfl

/-- The task is done at once, with such a result, as a test. -/
def endsWith (test : α → Bool) : Step α → Bool
  | .done _ a => test a
  | .wait _ _ _ | .stop _ _ => false

theorem exists_of_endsWith {test : α → Bool} (h : x.endsWith test = true) :
    ∃ s a, x = .done s a ∧ test a = true := by
  cases x with
  | done s a => exact ⟨s, a, rfl, h⟩
  | wait | stop => cases h

/-- The state in which a step is. -/
def state : Step α → EngineState
  | .done s _ | .wait s _ _ | .stop s _ => s

/-- The task is done at once, with this value. -/
def gives [DecidableEq α] (a : α) (x : Step (Except EvalError α)) : Bool :=
  x.endsWith fun
    | .ok b => b = a
    | .error _ => false

/-- The task is done at once, with this fault. -/
def fails (f : Fault) (x : Step (Except EvalError α)) : Bool :=
  x.endsWith fun
    | .ok _ => false
    | .error e => e.fault = f

/-- **The step ends along the path**: resumed with these states, one after the other, it is done when
the last of them has been used, and not before. -/
inductive EndsAlong : Step α → List EngineState → α → EngineState → Prop where
  | done (s : EngineState) (a : α) : EndsAlong (.done s a) [] a s
  | wait {s s' t : EngineState} {on : Wait} {resume : EngineState → Step α}
      {path : List EngineState} {a : α} (h : EndsAlong (resume s') path a t) :
      EndsAlong (.wait s on resume) (s' :: path) a t

theorem endsAlong_done {s t : EngineState} {a b : α} {path : List EngineState} :
    (Step.done s a).EndsAlong path b t ↔ path = [] ∧ b = a ∧ t = s := by
  constructor
  · rintro ⟨⟩
    exact ⟨rfl, rfl, rfl⟩
  · rintro ⟨rfl, rfl, rfl⟩
    exact .done _ _

theorem EndsAlong.follow_eq {path : List EngineState} {a : α} {t : EngineState}
    (h : x.EndsAlong path a t) : x.follow path = .done t a := by
  induction h with
  | done s a => rfl
  | wait h ih => exact ih

/-- Where the first of two tasks has ended, the second begins. -/
theorem EndsAlong.follow_bind {path : List EngineState} {a : α} {t : EngineState}
    (h : x.EndsAlong path a t) (f : α → EngineState → Step β) : (x.bind f).follow path = f a t := by
  induction h with
  | done s a => exact follow_nil _
  | wait h ih => exact ih

theorem EndsAlong.bind {path rest : List EngineState} {a : α} {b : β} {t u : EngineState}
    (h : x.EndsAlong path a t) (hf : (f a t).EndsAlong rest b u) :
    (x.bind f).EndsAlong (path ++ rest) b u := by
  induction h with
  | done s a => exact hf
  | wait h ih => exact .wait (ih hf)

/-- **Two tasks, one after the other**, end along a path that is put together of a path for each. -/
theorem endsAlong_bind {path : List EngineState} {b : β} {u : EngineState} :
    (x.bind f).EndsAlong path b u ↔ ∃ first rest a t, path = first ++ rest ∧
      x.EndsAlong first a t ∧ (f a t).EndsAlong rest b u := by
  refine ⟨fun h => ?_, ?_⟩
  · induction x generalizing path with
    | done s a => exact ⟨[], path, a, s, rfl, .done s a, h⟩
    | wait s on resume ih =>
      cases h with
      | wait h =>
        obtain ⟨first, rest, a, t, rfl, hx, hf⟩ := ih _ h
        exact ⟨_ :: first, rest, a, t, rfl, .wait hx, hf⟩
    | stop s why => cases h
  · rintro ⟨first, rest, a, t, rfl, hx, hf⟩
    exact hx.bind hf

/-- What is done at once afterwards does not need a path. -/
theorem endsAlong_bind_done {g : α → β} {h : EngineState → EngineState} {path : List EngineState}
    {b : β} {u : EngineState} :
    (x.bind fun a s => .done (h s) (g a)).EndsAlong path b u ↔
      ∃ a t, x.EndsAlong path a t ∧ b = g a ∧ u = h t := by
  rw [endsAlong_bind]
  constructor
  · rintro ⟨first, rest, a, t, rfl, hx, hdone⟩
    obtain ⟨rfl, rfl, rfl⟩ := endsAlong_done.mp hdone
    rw [List.append_nil]
    exact ⟨a, t, hx, rfl, rfl⟩
  · rintro ⟨a, t, hx, rfl, rfl⟩
    exact ⟨path, [], a, t, (List.append_nil _).symm, hx, .done _ _⟩

/-- **The step leads along the path to another one**: resumed with these states, one after the other, it
has become that one, and it still waits before each of them. -/
inductive Leads : Step α → List EngineState → Step α → Prop where
  | refl (x : Step α) : Leads x [] x
  | wait {s s' : EngineState} {on : Wait} {resume : EngineState → Step α} {path : List EngineState}
      {y : Step α} (h : Leads (resume s') path y) : Leads (.wait s on resume) (s' :: path) y

namespace Leads
variable {y z : Step α} {path rest : List EngineState}

theorem follow_eq (h : x.Leads path y) : x.follow path = y := by
  induction h with
  | refl x => exact follow_nil x
  | wait h ih => exact ih

theorem trans (h : x.Leads path y) (h' : y.Leads rest z) : x.Leads (path ++ rest) z := by
  induction h with
  | refl x => exact h'
  | wait h ih => exact .wait (ih h')

theorem bind (h : x.Leads path y) (f : α → EngineState → Step β) :
    (x.bind f).Leads path (y.bind f) := by
  induction h with
  | refl x => exact .refl _
  | wait h ih => exact .wait ih

/-- What it leads to decides how it ends. -/
theorem endsAlong_iff (h : x.Leads path y) {a : α} {t : EngineState} :
    x.EndsAlong (path ++ rest) a t ↔ y.EndsAlong rest a t := by
  induction h with
  | refl x => rfl
  | wait h ih =>
    refine Iff.trans ⟨?_, .wait⟩ ih
    rintro ⟨⟩
    assumption

end Leads

theorem EndsAlong.leads {path : List EngineState} {a : α} {t : EngineState}
    (h : x.EndsAlong path a t) : x.Leads path (.done t a) := by
  induction h with
  | done s a => exact .refl _
  | wait h ih => exact .wait ih

/-- Where the first of two tasks ends, the second one begins. -/
theorem EndsAlong.leads_bind {path : List EngineState} {a : α} {t : EngineState}
    (h : x.EndsAlong path a t) (f : α → EngineState → Step β) : (x.bind f).Leads path (f a t) :=
  h.leads.bind f

/-! ## What others do -/

/-- **While the task waits, others do only what `R` allows**, as far as the path goes. -/
def Amid (R : EngineState → EngineState → Prop) : Step α → List EngineState → Prop
  | .wait s _ resume, s' :: path => R s s' ∧ (resume s').Amid R path
  | _, _ => True

variable {R R' : EngineState → EngineState → Prop}

theorem amid_nil (x : Step α) : x.Amid R [] := by
  cases x <;> trivial

theorem Amid.mono {path : List EngineState} (hx : x.Amid R path) (hR : ∀ s s', R s s' → R' s s') :
    x.Amid R' path := by
  induction path generalizing x with
  | nil => exact amid_nil x
  | cons s' path ih =>
    cases x with
    | wait s on resume => exact ⟨hR s s' hx.1, ih hx.2⟩
    | done s a | stop s why => trivial

theorem Amid.of_bind {path : List EngineState} (hx : (x.bind f).Amid R path) : x.Amid R path := by
  induction path generalizing x with
  | nil => exact amid_nil x
  | cons s' path ih =>
    cases x with
    | wait s on resume => exact ⟨hx.1, ih hx.2⟩
    | done s a | stop s why => trivial

/-- What others do while the first of two tasks waits, and while the second one does. -/
theorem EndsAlong.amid_bind {path rest : List EngineState} {a : α} {t : EngineState}
    (h : x.EndsAlong path a t) :
    (x.bind f).Amid R (path ++ rest) ↔ x.Amid R path ∧ (f a t).Amid R rest := by
  induction h with
  | done s a => exact ⟨fun hf => ⟨trivial, hf⟩, fun hf => hf.2⟩
  | wait h ih => exact (and_congr_right fun _ => ih).trans and_assoc.symm

/-- What a task ends with, along any path. -/
theorem Ends.endsAlong {Q : α → Prop} (hx : x.Ends Q) {path : List EngineState} {a : α}
    {t : EngineState} (h : x.EndsAlong path a t) : Q a := by
  induction h with
  | done s a => exact hx
  | wait h ih => exact ih (hx _)

/-- Where a task ends that observes a law while the others do. -/
theorem EndsAlong.observes {G : EngineState → EngineState → Prop} {Q : α → EngineState → Prop}
    {k t : EngineState} {path : List EngineState} {a : α} (h : x.EndsAlong path a t) (hG : Law G)
    (hx : Observes id G Q x k) (hothers : x.Amid R path)
    (hR : ∀ s s', R s s' → G s s → G s s') : G k t ∧ Q a t := by
  induction h generalizing k with
  | done s a => exact hx
  | wait h ih =>
    have hwait := hR _ _ hothers.1 (hG.stays hx.1)
    obtain ⟨hrest, ha⟩ := ih (hx.2 _ hwait) hothers.2
    exact ⟨hG.trans (hG.trans hx.1 hwait) hrest, ha⟩

end Step

namespace Eval
variable {α β : Type} {m : Eval α} {s t : EngineState} {path : List EngineState}

/-- **The evaluation runs along the path**: begun in `s` and resumed with these states, it ends in `t`
with this outcome. -/
def Runs (m : Eval α) (s : EngineState) (path : List EngineState) (r : Except EvalError α)
    (t : EngineState) : Prop :=
  (m s).EndsAlong path r t

/-- What is done at once runs along no path but the empty one. -/
theorem runs_of_done {a r : Except EvalError α} (h : m s = .done t a) {u : EngineState} :
    m.Runs s path r u ↔ path = [] ∧ r = a ∧ u = t := by
  rw [Runs, h, Step.endsAlong_done]

/-- What gives a value at once. -/
theorem runs_of_gives [DecidableEq α] {a : α} (h : (m s).gives a = true) :
    m.Runs s [] (.ok a) (m s).state := by
  obtain ⟨t, r, hdone, hr⟩ := Step.exists_of_endsWith h
  rw [hdone]
  cases r with
  | ok b =>
    obtain rfl := of_decide_eq_true hr
    exact (runs_of_done hdone).mpr ⟨rfl, rfl, rfl⟩
  | error e => cases hr

/-- What fails at once. -/
theorem runs_of_fails {f : Fault} (h : (m s).fails f = true) :
    ∃ e, m.Runs s [] (.error e) (m s).state ∧ e.fault = f := by
  obtain ⟨t, r, hdone, hr⟩ := Step.exists_of_endsWith h
  rw [hdone]
  cases r with
  | ok a => cases hr
  | error e => exact ⟨e, (runs_of_done hdone).mpr ⟨rfl, rfl, rfl⟩, of_decide_eq_true hr⟩

theorem runs_pure {a : α} {r : Except EvalError α} :
    (pure a : Eval α).Runs s path r t ↔ path = [] ∧ r = .ok a ∧ t = s :=
  runs_of_done rfl

/-- Looking something up takes no time. -/
theorem runs_tryHeap_ok {f : Heap → Outcome α} {s t : EngineState} {path : List EngineState} {a : α}
    (hruns : (tryHeap f).Runs s path (.ok a) t) : path = [] ∧ t = s ∧ f s.heap = .ok a := by
  rw [Runs, tryHeap_apply] at hruns
  cases hf : f s.heap with
  | ok b =>
    rw [hf] at hruns
    obtain ⟨hpath, hb, ht⟩ := Step.endsAlong_done.mp hruns
    cases hb
    exact ⟨hpath, ht, rfl⟩
  | error e =>
    rw [hf] at hruns
    cases e with
    | fault f =>
      obtain ⟨-, hb, -⟩ := Step.endsAlong_done.mp hruns
      cases hb
    | overflow => cases hruns

/-- Operations on the heap take no time. -/
theorem runs_onHeap_ok {f : Heap → Outcome (α × Heap)} {a : α}
    (hruns : (onHeap f).Runs s path (.ok a) t) :
    ∃ h, path = [] ∧ t = { s with heap := h } ∧ f s.heap = .ok (a, h) := by
  cases hf : f s.heap with
  | ok r =>
    obtain ⟨b, h⟩ := r
    rw [Runs, onHeap_ok hf] at hruns
    obtain ⟨hpath, hb, ht⟩ := Step.endsAlong_done.mp hruns
    cases hb
    exact ⟨h, hpath, ht, rfl⟩
  | error e =>
    rw [Runs, onHeap_error hf] at hruns
    cases e with
    | fault f =>
      obtain ⟨-, hb, -⟩ := Step.endsAlong_done.mp hruns
      cases hb
    | overflow => cases hruns

/-- What an evaluation yields, along any path. -/
theorem Yields.of_runs {P : α → Prop} (hm : Yields P m) {a : α} (h : m.Runs s path (.ok a) t) : P a :=
  (hm.ends s).endsAlong h a rfl

/-- One evaluation after another: the second begins if the first has not failed. -/
theorem runs_bind {k : α → Eval β} {r : Except EvalError β} :
    (m >>= k).Runs s path r t ↔
      (∃ first rest a u, path = first ++ rest ∧ m.Runs s first (.ok a) u ∧ (k a).Runs u rest r t) ∨
        ∃ e, m.Runs s path (.error e) t ∧ r = .error e := by
  rw [Runs, bind_apply, Step.endsAlong_bind]
  constructor
  · rintro ⟨first, rest, o, u, rfl, hm, hk⟩
    cases o with
    | ok a => exact .inl ⟨first, rest, a, u, rfl, hm, hk⟩
    | error e =>
      obtain ⟨rfl, rfl, rfl⟩ := Step.endsAlong_done.mp hk
      rw [List.append_nil]
      exact .inr ⟨e, hm, rfl⟩
  · rintro (⟨first, rest, a, u, rfl, hm, hk⟩ | ⟨e, hm, rfl⟩)
    · exact ⟨first, rest, .ok a, u, rfl, hm, hk⟩
    · exact ⟨path, [], .error e, t, (List.append_nil _).symm, hm, .done _ _⟩

/-- Continuations that do the same wherever the evaluation before them ends. -/
theorem runs_bind_congr {k k' : α → Eval β} {r : Except EvalError β}
    (hk : ∀ first rest a u, path = first ++ rest → m.Runs s first (.ok a) u → k a u = k' a u) :
    (m >>= k).Runs s path r t ↔ (m >>= k').Runs s path r t := by
  rw [runs_bind, runs_bind]
  refine or_congr_left ⟨?_, ?_⟩
  · rintro ⟨first, rest, a, u, rfl, hm, hrest⟩
    rw [Runs, hk first rest a u rfl hm] at hrest
    exact ⟨first, rest, a, u, rfl, hm, hrest⟩
  · rintro ⟨first, rest, a, u, rfl, hm, hrest⟩
    rw [Runs, ← hk first rest a u rfl hm] at hrest
    exact ⟨first, rest, a, u, rfl, hm, hrest⟩

/-- After something that is done at once. -/
theorem runs_after {a : α} {u : EngineState} (h : m s = .done u (.ok a)) {k : α → Eval β}
    {r : Except EvalError β} : (m >>= k).Runs s path r t ↔ (k a).Runs u path r t := by
  rw [Runs, bind_apply, h, Runs]
  rfl

theorem runs_holding {x : Holding} {r : Except EvalError α} :
    (holding x m).Runs s path r t ↔ ∃ u, m.Runs (s.hold x) path r u ∧ t = u.letGo := by
  rw [Runs, holding_apply]
  refine Step.endsAlong_bind_done.trans ⟨?_, ?_⟩
  · rintro ⟨_, u, hm, rfl, rfl⟩
    exact ⟨u, hm, rfl⟩
  · rintro ⟨u, hm, rfl⟩
    exact ⟨r, u, hm, rfl, rfl⟩

/-- Errors are given a place. -/
theorem runs_located {p : Position} {r : Except EvalError α} :
    (located p m).Runs s path r t ↔ ∃ o, m.Runs s path o t ∧ r = o.mapError (·.locate p) := by
  rw [Runs, located_apply]
  refine (Step.endsAlong_bind_done (h := id)).trans ⟨?_, ?_⟩
  · rintro ⟨o, _, hm, rfl, rfl⟩
    exact ⟨o, hm, rfl⟩
  · rintro ⟨o, hm, rfl⟩
    exact ⟨o, t, hm, rfl, rfl⟩

theorem runs_attempt {r : Except EvalError (Except EvalError α)} :
    (attempt m).Runs s path r t ↔ ∃ o, m.Runs s path o t ∧ r = .ok o := by
  rw [Runs, attempt_apply]
  refine (Step.endsAlong_bind_done (h := id)).trans ⟨?_, ?_⟩
  · rintro ⟨o, _, hm, rfl, rfl⟩
    exact ⟨o, hm, rfl⟩
  · rintro ⟨o, hm, rfl⟩
    exact ⟨o, t, hm, rfl, rfl⟩

/-- The outcome of one evaluation, and then another one. -/
theorem runs_attempt_bind {k : Except EvalError α → Eval β} {r : Except EvalError β} :
    (attempt m >>= k).Runs s path r t ↔
      ∃ first rest o u, path = first ++ rest ∧ m.Runs s first o u ∧ (k o).Runs u rest r t := by
  rw [runs_bind]
  constructor
  · rintro (⟨first, rest, o, u, rfl, hm, hk⟩ | ⟨e, hm, rfl⟩)
    · obtain ⟨_, hm, heq⟩ := runs_attempt.mp hm
      cases heq
      exact ⟨first, rest, o, u, rfl, hm, hk⟩
    · obtain ⟨_, _, heq⟩ := runs_attempt.mp hm
      cases heq
  · rintro ⟨first, rest, o, u, rfl, hm, hk⟩
    exact .inl ⟨first, rest, o, u, rfl, runs_attempt.mpr ⟨o, hm, rfl⟩, hk⟩

end Eval

end ScriptEngine
