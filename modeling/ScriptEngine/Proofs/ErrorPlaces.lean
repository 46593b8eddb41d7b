import ScriptEngine.Proofs.Evaluator.Avoiding
import ScriptEngine.Proofs.Evaluator.Marking
import ScriptEngine.Tree.Builder

/-! # The places of errors

Expressions and statements locate the errors that leave them, one around the other.  Nothing about an error
as such keeps it from being located again and again (`WrappedError`); but locating leaves an error alone that
has a place, so that an error has one place at most, the first that it was given, and what no script may
catch has none.

This is true of every error that evaluation ends with (`errors_keep_first_place`): it has at most one place;
that place is known, and is the place of a node that was evaluated; errors that leave a statement or an
expression at a known place have one, if they may be caught; and an error that has a place is handed on as it
is, unless something takes its place.
-/
namespace ScriptEngine

deriving instance DecidableEq for EvalError

/-- An error with any number of places around it. -/
inductive WrappedError where
  | bare (f : Fault)
  | placed (p : Position) (e : WrappedError)

namespace WrappedError

/-- The error without the places. -/
def root : WrappedError → Fault
  | bare f => f
  | placed _ e => e.root

/-- The outermost place. -/
def position : WrappedError → Option Position
  | bare _ => none
  | placed p _ => some p

/-- The error at this place.  The innermost place wins; what no script may catch stays bare. -/
def locate (e : WrappedError) (p : Position) : WrappedError :=
  if !p.isKnown || !e.root.isCatchable then e
  else match e with
    | placed q e => placed q e
    | bare f => placed p (bare f)

/-- The error comes of a bare one that was located any number of times. -/
inductive Arises : WrappedError → Prop where
  | bare (f : Fault) : Arises (bare f)
  | locate {e : WrappedError} (p : Position) (h : Arises e) : Arises (e.locate p)

/-- The error is bare, or it may be caught and has one known place. -/
def Single (e : WrappedError) : Prop :=
  ∃ f, e = bare f ∨ ∃ p, e = placed p (bare f) ∧ p.isKnown = true ∧ f.isCatchable = true

theorem Single.locate {e : WrappedError} (he : e.Single) (p : Position) : (e.locate p).Single := by
  unfold WrappedError.locate
  split
  · exact he
  · rename_i hp
    simp only [Bool.or_eq_true, Bool.not_eq_true', not_or, Bool.not_eq_false] at hp
    obtain ⟨f, rfl | ⟨q, rfl, hq⟩⟩ := he
    · exact ⟨f, .inr ⟨p, rfl, hp⟩⟩
    · exact ⟨f, .inr ⟨q, rfl, hq⟩⟩

theorem Arises.single {e : WrappedError} (h : Arises e) : e.Single := by
  induction h with
  | bare f => exact ⟨f, .inl rfl⟩
  | locate p _ ih => exact ih.locate p

end WrappedError

namespace EvalError

/-- The error with its place around it. -/
def wrapped (e : EvalError) : WrappedError :=
  match e.position with
  | none => .bare e.fault
  | some p => .placed p (.bare e.fault)

theorem wrapped_root (e : EvalError) : e.wrapped.root = e.fault := by
  obtain ⟨fault, position⟩ := e
  cases position <;> rfl

theorem wrapped_position (e : EvalError) : e.wrapped.position = e.position := by
  obtain ⟨fault, position⟩ := e
  cases position <;> rfl

/-- An error is located as if it could have any number of places. -/
theorem wrapped_locate (e : EvalError) (p : Position) : (e.locate p).wrapped = e.wrapped.locate p := by
  unfold WrappedError.locate
  rw [wrapped_root]
  obtain ⟨fault, position⟩ := e
  cases hp : p.isKnown <;> cases hf : fault.isCatchable <;> cases position <;> simp [locate, wrapped, hp, hf]

/-- It comes of a bare error that was located. -/
def Located (e : EvalError) : Prop := e.wrapped.Arises

instance : TakesFaults Located := ⟨fun f => .bare f⟩

instance (p : Position) : KeptAt Located p := by
  refine ⟨fun e he => ?_⟩
  rw [Located, wrapped_locate]
  exact .locate p he

/-- The error has a place, unless it cannot have one. -/
def Settled (e : EvalError) : Prop := e.fault.isCatchable = true → e.position.isSome = true

instance : TakesInterrupts Settled := ⟨nofun⟩

theorem settled_locate {p : Position} (hp : p.isKnown = true) (e : EvalError) : (e.locate p).Settled := by
  obtain ⟨fault, position⟩ := e
  cases hf : fault.isCatchable <;> cases position <;> simp [Settled, locate, hp, hf]

theorem locate_of_isSome {e : EvalError} (he : e.position.isSome = true) (p : Position) : e.locate p = e := by
  obtain ⟨fault, position⟩ := e
  cases position with
  | none => cases he
  | some q => simp [locate]

end EvalError

namespace Eval.Fails
variable {α : Type} {E : EvalError → Prop}

/-- What fails with any errors, which are then located. -/
theorem located_of_forall {p : Position} (hE : ∀ e : EvalError, E (e.locate p)) (m : Eval α) :
    Fails E (located p m) := by
  refine ⟨fun s => ?_⟩
  rw [located_apply]
  refine (Step.ends_true (m s)).bind fun r t _ e he => ?_
  cases r with
  | ok a => cases he
  | error e' =>
    cases he
    exact hE e'

end Eval.Fails

open Eval (Fails)
open Step (Halted)

namespace Node
variable {α : Type}

/-- Where errors that leave the node are located. -/
def place? : Node α → Option Position
  | .expr e _ => some e.pos
  | .stmt statement _ _ => some statement.pos
  | .inner _ _ _ | .body _ _ | .call _ _ _ | .program _ _ => none

variable (node : Node α) (run : RunId) (fuel : Nat) (s : EngineState) (path : List EngineState)

/-- An expression or a statement at this place is evaluated inside the node: who avoids the place stops. -/
def ComesBy (p : Position) : Prop :=
  Halted ((node.eval (Evaluator.avoiding run (· == p) fuel) s).follow path)

end Node

section
variable {α : Type} (run : RunId) (fuel : Nat) (node : Node α)

/-- What leaves an expression or a statement has a place or cannot have one. -/
theorem fails_settled {p : Position} (hnode : node.place? = some p) (hp : p.isKnown = true) :
    Fails EvalError.Settled (node.eval (Evaluator.ofFuel run fuel)) := by
  cases fuel with
  | zero =>
    cases node with
    | expr | stmt => exact inferInstanceAs (Fails _ Eval.outOfFuel)
    | inner | body | call | program => cases hnode
  | succ fuel =>
    cases node with
    | expr e scope =>
      cases hnode
      exact Fails.bind (inferInstanceAs (Fails _ (Eval.step _)))
        fun _ => .located_of_forall (EvalError.settled_locate hp) _
    | stmt stmt scope frame =>
      cases hnode
      exact Fails.bind (inferInstanceAs (Fails _ (Eval.checkpoint _)))
        fun _ => .located_of_forall (EvalError.settled_locate hp) _
    | inner | body | call | program => cases hnode

variable {s t : EngineState} {path : List EngineState} {r : Except EvalError α}

/-- An error that has a place leaves as it is, unless it is put aside. -/
theorem handed_on {e : EvalError} (hend : (node.eval (Evaluator.ofFuel run fuel)).Runs s path r t)
    (he : e.position.isSome = true) (hraised : node.Raises (fun x => decide (x = e)) run fuel s path)
    (hkept : ¬node.PutsAside (fun x => decide (x = e)) run fuel s path) : r = .error e := by
  have hmarks (x : EvalError) (p : Position) (hx : decide (x = e) = true) :
      decide (x.locate p = e) = true := by
    obtain rfl := of_decide_eq_true hx
    exact decide_eq_true (EvalError.locate_of_isSome he p)
  obtain ⟨x, rfl, hx⟩ := Propagation.marked_propagates hmarks run fuel node hend hraised hkept
  rw [of_decide_eq_true hx]

/-- **Errors have at most one place, the first that they were given.**  Take any node, and any way in which
the task is resumed while it is evaluated, to an end.

An error that it ends with is bare, or it may be caught and has one known place.  If the node is an expression
or a statement at a known place and the error may be caught, then it has a place.  Its place is that of a node
that was evaluated.

If something inside ended with an error that has a place, then the node itself ends with this very error, place
and all, unless something takes its place: a handler that it goes to, a last block of a `try` that ends with
control flow or with another error, or another error, of a body or of a deferred call before the one that ended
with it. -/
theorem errors_keep_first_place (hend : (node.eval (Evaluator.ofFuel run fuel)).Runs s path r t) :
    (∀ e, r = .error e →
      e.wrapped.Single ∧
      (∀ p, node.place? = some p → p.isKnown = true → e.wrapped.root.isCatchable = true →
        e.wrapped.position.isSome = true) ∧
      ∀ p, e.wrapped.position = some p → node.ComesBy run fuel s path p) ∧
    ∀ e : EvalError, e.wrapped.position.isSome = true →
      node.Raises (fun x => decide (x = e)) run fuel s path →
      ¬node.PutsAside (fun x => decide (x = e)) run fuel s path → r = .error e := by
  simp only [EvalError.wrapped_root, EvalError.wrapped_position]
  refine ⟨?_, fun e he hraised hkept => handed_on run fuel node hend he hraised hkept⟩
  rintro e rfl
  refine ⟨?_, fun p hnode hp => ?_, fun p hp => Avoidance.halted_at_position run fuel node hend hp⟩
  · have hlocated : Fails EvalError.Located (node.eval (Evaluator.ofFuel run fuel)) :=
      Avoidance.fails_node node
    exact ((hlocated.ends s).endsAlong hend e rfl).single
  · exact ((fails_settled run fuel node hnode hp).ends s).endsAlong hend e rfl

end

/-! ## An error in a function -/

/-- A state with a scope and a run. -/
def begun : EngineState :=
  { EngineState.initial with
    heap := { scopes := ({} : Store Scope).push {} }
    runs := ({} : Store Run).push ⟨0, ⟨0, 0, 0, 0⟩, 0, 0⟩ }

/-- A function tries to return what is not defined, has a last block and a deferred call, and is called where
it was declared: `func f() { defer func() { }(); try { return missing } finally { 1 } }; f()`. -/
def misreturning (inside around : Position) : Node Flow :=
  let deferral := .mk (.defer (Expr.call (Expr.func [] []) [])) around
  let trial := .mk (.tryCatch [.mk (.ret [Expr.ident "missing"]) inside] none none
    (some [Stmt.expr (Expr.int 1)])) around
  let declaration := .mk (.func (.mk (some "f") [] false [deferral, trial])) around
  .stmt (.mk (.block [declaration, .mk (.expr (Expr.call (Expr.ident "f") [])) around]) around) 0 0

/-- What comes of it. -/
def missingAt (p : Position) : EvalError := ⟨.undefinedSymbol "missing", some p⟩

/-- The error keeps the place of the innermost statement on its way past the last block and the deferred call,
out of the call and of the block. -/
theorem errors_keep_first_place_misreturning :
    ∃ t, ((misreturning ⟨3, 5⟩ ⟨1, 1⟩).eval (Evaluator.ofFuel 0 20)).Runs begun []
        (.error (missingAt ⟨3, 5⟩)) t ∧
      (misreturning ⟨3, 5⟩ ⟨1, 1⟩).ComesBy 0 20 begun [] ⟨3, 5⟩ := by
  have hends : ((misreturning ⟨3, 5⟩ ⟨1, 1⟩).eval (Evaluator.ofFuel 0 20) begun).endsWith fun _ => true := by
    decide +kernel
  have hraised : (((misreturning ⟨3, 5⟩ ⟨1, 1⟩).eval (Evaluator.marking
      (fun x => decide (x = missingAt ⟨3, 5⟩)) 0 .strict 20) begun).follow []).isHalted = true := by
    decide +kernel
  have hkept : (((misreturning ⟨3, 5⟩ ⟨1, 1⟩).eval (Evaluator.marking
      (fun x => decide (x = missingAt ⟨3, 5⟩)) 0 .watchful 20) begun).follow []).isHalted = false := by
    decide +kernel
  obtain ⟨t, r, hdone, -⟩ := Step.exists_of_endsWith hends
  have hend := (Eval.runs_of_done hdone).mpr ⟨rfl, rfl, rfl⟩
  obtain ⟨hplaces, hkeeps⟩ := errors_keep_first_place 0 20 (misreturning ⟨3, 5⟩ ⟨1, 1⟩) hend
  obtain rfl := hkeeps (missingAt ⟨3, 5⟩) rfl (Step.isHalted_iff.mp hraised)
    fun h => by rw [Step.isHalted_iff.mpr h] at hkept; cases hkept
  exact ⟨t, hend, (hplaces _ rfl).2.2 ⟨3, 5⟩ rfl⟩

end ScriptEngine
