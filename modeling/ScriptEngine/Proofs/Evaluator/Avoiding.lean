import ScriptEngine.Proofs.Evaluator.Agreement
import ScriptEngine.Proofs.Evaluator.Failing
import ScriptEngine.Proofs.Task.Paths

/-! # Where errors come from

Which places an evaluation comes by is told by a variant of the evaluator that **avoids** some places: it
evaluates everything as the evaluator does, but stops the task before any expression or statement at such a
place.  If it does not stop, it ends as the evaluator does (`Avoidance.runs_or_halted`).

An error is **well placed** if it has no place, or else a known one that is not avoided, and may be caught.
The variant fails with errors that are well placed only: the places of errors are those of nodes that were
evaluated.
-/
namespace ScriptEngine

/-- Whatever place the error has is known and not avoided, and the error may be caught. -/
def EvalError.WellPlaced (avoid : Position → Bool) (e : EvalError) : Prop :=
  ∀ p, e.position = some p → p.isKnown = true ∧ e.fault.isCatchable = true ∧ avoid p = false

namespace EvalError.WellPlaced
variable {avoid : Position → Bool}

instance : TakesFaults (WellPlaced avoid) := ⟨fun _ => nofun⟩

theorem keptAt {p : Position} (hp : avoid p = false) : KeptAt (WellPlaced avoid) p := by
  refine ⟨fun e he => ?_⟩
  unfold locate
  split
  · rename_i h
    simp only [Bool.and_eq_true] at h
    intro q hq
    cases hq
    exact ⟨h.1.1, h.1.2, hp⟩
  · exact he

end EvalError.WellPlaced

/-- The places a statement gives to errors: its own, and that of a single right side. -/
def Stmt.places (stmt : Stmt) : List Position :=
  stmt.pos :: (stmt.kind.rightSide?.map Expr.pos).toList

/-- Does not begin if the test says so. -/
def Eval.unlessAt {α : Type} (test : Bool) (m : Eval α) : Eval α := if test then breakDown none else m

/-- The variant of the evaluator that avoids these places. -/
def Evaluator.avoiding (run : RunId) (avoid : Position → Bool) : Nat → Evaluator
  | 0 => ofFuel run 0
  | fuel + 1 =>
    { run
      rounds := fuel
      expr := fun e scope => .unlessAt (avoid e.pos) ((avoiding run avoid fuel).evalExpr e scope)
      stmt := fun stmt scope frame =>
        .unlessAt (stmt.places.any avoid) ((avoiding run avoid fuel).evalStmt stmt scope frame)
      inner := (avoiding run avoid fuel).evalInner
      body := (avoiding run avoid fuel).evalBody
      call := (avoiding run avoid fuel).callValue }

/-- There is nothing to avoid. -/
theorem Evaluator.avoiding_nothing (run : RunId) (fuel : Nat) :
    avoiding run (fun _ => false) fuel = ofFuel run fuel := by
  induction fuel with
  | zero => rfl
  | succ fuel ih =>
    unfold avoiding ofFuel
    rw [ih]
    simp only [List.any_eq_false.mpr fun _ _ => Bool.false_ne_true]
    rfl

namespace Avoidance
variable {α β : Type} {avoid : Position → Bool}

open Eval (Fails)
open Propagation (Doomed)

/-! ## The places of errors -/

theorem fails_unlessAt {E : EvalError → Prop} {test : Bool} {m : Eval α} (hm : test = false → Fails E m) :
    Fails E (.unlessAt test m) := by
  cases test with
  | true => exact inferInstanceAs (Fails E (Eval.breakDown none))
  | false => exact hm rfl

/-- The variant fails with errors of a kind only that they keep at all places that are not avoided. -/
theorem failing_avoiding {E : EvalError → Prop} [TakesFaults E]
    (hkept : ∀ p, avoid p = false → KeptAt E p) (run : RunId) (fuel : Nat) :
    (Evaluator.avoiding run avoid fuel).Failing E := by
  induction fuel with
  | zero =>
    have hout {α : Type} : Fails E (Eval.outOfFuel : Eval α) := inferInstance
    exact ⟨fun _ _ => hout, fun _ _ _ => hout, fun _ _ _ => hout, fun _ _ => hout, fun _ _ _ => hout⟩
  | succ fuel ih =>
    refine ⟨fun e scope => ?_, fun stmt scope frame => ?_, fun block scope frame => ?_,
      fun block scope => ?_, fun callee args spread => ?_⟩
    · refine fails_unlessAt fun he => ?_
      have := hkept _ he
      infer_instance
    · refine fails_unlessAt fun hstmt => ?_
      have hplaces : ∀ p ∈ stmt.places, avoid p = false := by simpa using hstmt
      have := hkept _ (hplaces _ List.mem_cons_self)
      refine Evaluator.Failing.evalStmt stmt scope frame fun e he => hkept _ (hplaces _ ?_)
      simp [Stmt.places, he]
    · exact inferInstanceAs (Fails E (Evaluator.evalInner _ block scope frame))
    · exact inferInstanceAs (Fails E (Evaluator.evalBody _ block scope))
    · exact inferInstanceAs (Fails E (Evaluator.callValue _ callee args spread))

/-- The evaluator fails with errors of a kind only that they keep wherever they are located. -/
instance {E : EvalError → Prop} [TakesFaults E] [hkept : ∀ p, KeptAt E p] (run : RunId) (fuel : Nat) :
    (Evaluator.ofFuel run fuel).Failing E := by
  rw [← Evaluator.avoiding_nothing]
  exact failing_avoiding (fun p _ => hkept p) run fuel

theorem fails_node {E : EvalError → Prop} [TakesFaults E] {ev : Evaluator} [ev.Failing E] (node : Node α) :
    Fails E (node.eval ev) := by
  cases node with
  | expr e scope => exact inferInstanceAs (Fails E (ev.expr e scope))
  | stmt stmt scope frame => exact inferInstanceAs (Fails E (ev.stmt stmt scope frame))
  | inner block scope frame => exact inferInstanceAs (Fails E (ev.inner block scope frame))
  | body block scope => exact inferInstanceAs (Fails E (ev.body block scope))
  | call callee args spread => exact inferInstanceAs (Fails E (ev.call callee args spread))
  | program script scope => exact Evaluator.Failing.program script scope

/-! ## The same, or no end at all -/

/-- The second computation does what the first does, unless it stops. -/
structure Cautious (m : Bool → Eval α) : Prop where
  agree : ∀ s, Doomed (fun _ => True) (m false s) (m true s)

namespace Cautious

theorem same (m : Eval α) : Cautious fun _ => m :=
  ⟨fun s => (Propagation.Agree.refl (m s) : Propagation.Agree (fun _ => True) _ _ _).doomed⟩

theorem bind {m : Bool → Eval β} {k : Bool → β → Eval α} (hm : Cautious m)
    (hk : ∀ b, Cautious fun i => k i b) : Cautious fun i => m i >>= k i := by
  refine ⟨fun s => ?_⟩
  simp only [Eval.bind_apply]
  refine (hm.agree s).bind fun r s _ => ?_
  cases r with
  | error e =>
    simp only [Eval.andThen_error]
    exact .inr ⟨rfl, trivial⟩
  | ok b => exact (hk b).agree s

theorem unlessAt (test : Bool) {m : Bool → Eval α} (hm : Cautious m) :
    Cautious fun i => .unlessAt (i && test) (m i) := by
  cases test with
  | true => exact ⟨fun s => .of_halted ⟨_, _, rfl⟩⟩
  | false =>
    simp only [Bool.and_false, Eval.unlessAt, Bool.false_eq_true, if_false]
    exact hm

theorem holding (x : Holding) {m : Bool → Eval α} (hm : Cautious m) :
    Cautious fun i => Eval.holding x (m i) :=
  ⟨fun s => (hm.agree (s.hold x)).bind fun _ _ _ => .inr ⟨rfl, trivial⟩⟩

theorem located (p : Position) {m : Bool → Eval α} (hm : Cautious m) :
    Cautious fun i => Eval.located p (m i) :=
  ⟨fun s => (hm.agree s).bind fun _ _ _ => .inr ⟨rfl, trivial⟩⟩

theorem attempt {m : Bool → Eval α} (hm : Cautious m) : Cautious fun i => Eval.attempt (m i) :=
  ⟨fun s => (hm.agree s).bind fun _ _ _ => .inr ⟨rfl, trivial⟩⟩

end Cautious

theorem closed_cautious : Closed (fun _ => True) fun {α} (m : Bool → Eval α) => Cautious m where
  same m _ := .same m
  bind := .bind
  holding := .holding
  located := .located
  callee id k hscript hhost := Cautious.bind (.same _) fun f => by
    cases f with
    | script definition scope selfBound => exact hscript definition scope selfBound
    | host f => exact hhost f trivial
  give _ _ := .same _
  throw _ _ := .same _
  attempt := .attempt

/-- The evaluator, and the variant that avoids these places. -/
abbrev variants (run : RunId) (avoid : Position → Bool) (fuel : Nat) (i : Bool) : Evaluator :=
  Evaluator.avoiding run (fun p => i && avoid p) fuel

theorem requests_cautious (run : RunId) (avoid : Position → Bool) (fuel : Nat) :
    ∃ rounds, Requests (fun _ => True) (fun {α} (m : Bool → Eval α) => Cautious m) run rounds
      (variants run avoid fuel) := by
  induction fuel with
  | zero =>
    exact ⟨0, closed_cautious.outOfFuel run⟩
  | succ fuel ih =>
    obtain ⟨rounds, h⟩ := ih
    refine ⟨fuel, {
      closed_cautious.toCompositional with
      run_eq := fun _ => rfl
      rounds_eq := fun _ => rfl
      expr := fun e scope => (h.evalExpr e scope).unlessAt (avoid e.pos)
      stmt := fun stmt scope frame => ?_
      inner := fun block scope frame => h.evalInner block scope frame
      body := fun block scope => closed_cautious.evalBody h block scope
      call := fun callee args spread => h.callValue callee args spread }⟩
    have hstmt := (closed_cautious.evalStmt h stmt scope frame).unlessAt (stmt.places.any avoid)
    simp only [List.and_any_distrib_left] at hstmt
    exact hstmt

theorem cautious_node (run : RunId) (avoid : Position → Bool) (fuel : Nat) (node : Node α) :
    Cautious fun i => node.eval (variants run avoid fuel i) :=
  have ⟨_, h⟩ := requests_cautious run avoid fuel
  h.node node

theorem runs_or_halted_of_doomed {x z : Step α} (hx : Doomed (fun _ => True) x z)
    {path : List EngineState} {a : α} {t : EngineState} (h : x.EndsAlong path a t) :
    z.EndsAlong path a t ∨ (z.follow path).Halted := by
  induction h generalizing z with
  | done s a =>
    obtain hz | ⟨rfl, -⟩ := hx
    · exact .inr (hz.follow _)
    · exact .inl (.done s a)
  | wait h ih =>
    obtain hz | ⟨resume', rfl, hresume⟩ := hx
    · exact .inr (hz.follow _)
    · exact (ih (hresume _)).imp .wait id

/-- **What avoids some places ends as the evaluator does, or stops.** -/
theorem runs_or_halted (run : RunId) (avoid : Position → Bool) (fuel : Nat) (node : Node α)
    {s t : EngineState} {path : List EngineState} {r : Except EvalError α}
    (h : (node.eval (Evaluator.ofFuel run fuel)).Runs s path r t) :
    (node.eval (Evaluator.avoiding run avoid fuel)).Runs s path r t ∨
      ((node.eval (Evaluator.avoiding run avoid fuel) s).follow path).Halted := by
  have hcautious := (cautious_node run avoid fuel node).agree s
  simp only [variants, Bool.false_and, Bool.true_and, Evaluator.avoiding_nothing] at hcautious
  exact runs_or_halted_of_doomed hcautious h

/-- **The place of an error is that of a node that was evaluated**: had its place been avoided, the task
would have stopped. -/
theorem halted_at_position (run : RunId) (fuel : Nat) (node : Node α) {s t : EngineState}
    {path : List EngineState} {e : EvalError} {p : Position}
    (h : (node.eval (Evaluator.ofFuel run fuel)).Runs s path (.error e) t) (hp : e.position = some p) :
    ((node.eval (Evaluator.avoiding run (· == p) fuel) s).follow path).Halted := by
  obtain hruns | hhalted := runs_or_halted run (· == p) fuel node h
  · have : (Evaluator.avoiding run (· == p) fuel).Failing (EvalError.WellPlaced (· == p)) :=
      failing_avoiding (fun _ => EvalError.WellPlaced.keptAt) run fuel
    have hfails : Fails (EvalError.WellPlaced (· == p))
      (node.eval (Evaluator.avoiding run (· == p) fuel)) := fails_node node
    have hplaced := (hfails.ends s).endsAlong hruns e rfl p hp
    simp at hplaced
  · exact hhalted

end Avoidance
end ScriptEngine
