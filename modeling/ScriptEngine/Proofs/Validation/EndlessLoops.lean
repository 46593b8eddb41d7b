import ScriptEngine.Proofs.Evaluator.Flows
import ScriptEngine.Proofs.Evaluator.Rounds
import ScriptEngine.Proofs.LastBlocks
import ScriptEngine.Proofs.Validation.Bodies
import ScriptEngine.Tree.Builder

/-! # Endless loops

A loop without condition is reported by the checks if nothing in its body may leave it
(`Validation.exits`).  The question is asked of the text: a `break` counts where the loop would take it,
but not inside a loop, a `switch` or a `select`, which would take it first; a `return` counts everywhere.

What the text cannot leave, the evaluation does not leave: a block without a way out ends with a value
or with a `continue`, if it does not fail (`Evaluator.Remains`).  So every round of a loop that is
reported is followed by another one, and the loop as a whole never ends except with an error that comes
up inside it (`endless_loop_never_ends`).
-/
namespace ScriptEngine

open Eval Validation

/-- The flow leaves a loop around it. Inside something that takes a `break` of its own (`nested`), only
a `return` does. -/
def Flow.leaves (nested : Bool) : Flow → Bool
  | .brk => !nested
  | .ret _ => true
  | .value _ | .cont => false

/-- **The flow remains** in the loops around it. -/
def Flow.Remains (nested : Bool) (flow : Flow) : Prop := flow.leaves nested = false

namespace Flow
variable {nested : Bool} {flow : Flow}

theorem remains_value (v : Value) : (Flow.value v).Remains nested := rfl

/-- What only a `break` could leave, a case that takes it does not let out. -/
theorem Remains.consumeBreak (h : flow.Remains true) : flow.consumeBreak.Remains nested := by
  cases flow with
  | ret v => cases h
  | value v | brk | cont => rfl

/-- Nor does a loop. -/
theorem Remains.loopStep {P : Flow → Prop} (h : flow.Remains true) : flow.loopStep.LeavesWith P := by
  cases flow with
  | ret v => cases h
  | value v | cont => exact LoopStep.leavesWith_next
  | brk => exact LoopStep.leavesWith_exit

/-- A loop goes on after what remains in it. -/
theorem Remains.loopStep_eq (h : flow.Remains false) : flow.loopStep = .next := by
  cases flow with
  | ret v | brk => cases h
  | value v | cont => rfl

end Flow

/-! ## Blocks without a way out -/

/-- The evaluator remains in statements and blocks that have no way out. -/
structure Evaluator.Remains (ev : Evaluator) : Prop where
  stmt : ∀ {nested s} scope frame,
    stmtExits nested s = false → Yields (·.Remains nested) (ev.stmt s scope frame)
  inner : ∀ {nested body} scope frame,
    exits nested body = false → Yields (·.Remains nested) (ev.inner body scope frame)

namespace Evaluator

variable {ev : Evaluator} {nested : Bool}

/-! ### The parts of what has no way out -/

theorem stmtExits_of_mem {body : Block} (h : exits nested body = false) :
    ∀ stmt ∈ body, stmtExits nested stmt = false := by
  induction body with
  | nil => exact fun _ hmem => absurd hmem List.not_mem_nil
  | cons first rest ih =>
    rw [exits, Bool.or_eq_false_iff] at h
    exact List.forall_mem_cons.mpr ⟨h.1, ih h.2⟩

theorem exits_of_some {block : Option Block} (h : optionExits nested block = false) {body : Block}
    (hsome : block = some body) : exits nested body = false := by
  subst hsome
  exact h

theorem exits_of_mem_switchCases {cases : List SwitchCase} (h : switchExits cases = false)
    {values : List Expr} {body : Block} (hc : .mk values body ∈ cases) : exits true body = false := by
  induction cases with
  | nil => cases hc
  | cons first rest ih =>
    obtain ⟨candidates, block⟩ := first
    rw [switchExits, Bool.or_eq_false_iff] at h
    rcases List.mem_cons.mp hc with hfirst | hrest
    · cases hfirst
      exact h.1
    · exact ih h.2 hrest

theorem exits_of_mem_selectCases {cases : List SelectCase} (h : selectExits cases = false)
    {c : SelectCase} (hc : c ∈ cases) : exits true c.body = false := by
  induction cases with
  | nil => cases hc
  | cons first rest ih =>
    obtain ⟨op, block⟩ := first
    rw [selectExits, Bool.or_eq_false_iff] at h
    rcases List.mem_cons.mp hc with rfl | hrest
    · exact h.1
    · exact ih h.2 hrest

/-! ### Evaluation -/

theorem Remains.block (hev : ev.Remains) {body : Block} (scope : ScopeId) (frame : FrameId)
    (h : exits nested body = false) : Yields (·.Remains nested) (ev.block body scope frame) :=
  yields_blockFrom Flow.remains_value .nil fun _ hstmt =>
    hev.stmt scope frame (stmtExits_of_mem h _ hstmt)

theorem Remains.evalInner (hev : ev.Remains) {body : Block} (scope : ScopeId) (frame : FrameId)
    (h : exits nested body = false) : Yields (·.Remains nested) (ev.evalInner body scope frame) :=
  yields_inChild scope fun inner => hev.block inner frame h

/-- The parts of a statement without a way out end with nothing that would leave. -/
theorem Remains.partsYield (hev : ev.Remains) {kind : StmtKind} (scope : ScopeId) (frame : FrameId)
    (h : kindExits nested kind = false) :
    ev.PartsYield (·.Remains nested) scope frame kind := by
  cases kind with
  | ifElse condition thenBlock elseBlock =>
    rw [kindExits, Bool.or_eq_false_iff] at h
    exact ⟨hev.inner scope frame h.1,
      fun body hsome => hev.inner scope frame (exits_of_some h.2 hsome)⟩
  | switch discriminant cases default =>
    rw [kindExits, Bool.or_eq_false_iff] at h
    refine ⟨fun values body hc => ?_, fun body hsome => ?_⟩
    · exact (hev.inner scope frame (exits_of_mem_switchCases h.1 hc)).mono fun _ => .consumeBreak
    · exact (hev.inner scope frame (exits_of_some h.2 hsome)).mono fun _ => .consumeBreak
  | select cases default =>
    rw [kindExits, Bool.or_eq_false_iff] at h
    refine ⟨fun c hc inner => ?_, fun body hsome => ?_⟩
    · exact (hev.block inner frame (exits_of_mem_selectCases h.1 hc)).mono fun _ => .consumeBreak
    · exact (hev.inner scope frame (exits_of_some h.2 hsome)).mono fun _ => .consumeBreak
  | loop condition body => exact (hev.inner scope frame h).mono fun _ => .loopStep
  | forClause init condition post body =>
    exact fun scope => (hev.inner scope frame h).mono fun _ => .loopStep
  | forIn vars iterable body => exact fun inner => (hev.block inner frame h).mono fun _ => .loopStep
  | tryCatch body catchVar handler last =>
    simp only [kindExits, Bool.or_eq_false_iff] at h
    exact ⟨hev.inner scope frame h.1.1,
      fun block hsome inner => hev.block inner frame (exits_of_some h.1.2 hsome),
      fun block hsome => hev.inner scope frame (exits_of_some h.2 hsome)⟩
  | block body => exact hev.inner scope frame h
  | ret values => cases h
  | brk => exact h
  | cont => exact rfl
  | expr | var | assign | opAssign | func | throw | defer | module | go | send => trivial

theorem Remains.evalStmt (hev : ev.Remains) {s : Stmt} (scope : ScopeId) (frame : FrameId)
    (h : stmtExits nested s = false) : Yields (·.Remains nested) (ev.evalStmt s scope frame) := by
  obtain ⟨kind, pos⟩ := s
  exact yields_evalStmt Flow.remains_value (hev.partsYield scope frame h)

/-- **Blocks without a way out are not left**, whatever the fuel. -/
theorem remains_ofFuel (run : RunId) : ∀ fuel, (ofFuel run fuel).Remains
  | 0 =>
    { stmt := fun _ _ _ => yields_outOfFuel
      inner := fun _ _ _ => yields_outOfFuel }
  | fuel + 1 =>
    have ih := remains_ofFuel run fuel
    { stmt := fun scope frame h => ih.evalStmt scope frame h
      inner := fun scope frame h => ih.evalInner scope frame h }

end Evaluator

/-! ## Endless loops -/

/-- **An endless loop**: it has no condition, and its body has no way out. -/
inductive Endless : StmtKind → Prop where
  | loop {body : Block} (h : exits false body = false) : Endless (.loop none body)
  | clauses {init post : Option Stmt} {body : Block} (h : exits false body = false) :
    Endless (.forClause init none post body)

/-- The statement that a loop begins with. -/
def StmtKind.init? : StmtKind → Option Stmt
  | .forClause init _ _ _ => init
  | _ => none

/-- The checks report an endless loop, unless they find a fault in the statement that it begins with. -/
theorem Endless.reported {kind : StmtKind} (h : Endless kind) {e : Enclosure} {pos : Position}
    (hinit : checkOptionStmt e kind.init? = .ok ()) :
    checkKind e pos kind = .error ⟨.unboundedLoop, pos⟩ := by
  cases h with
  | loop hbody =>
    rw [checkKind, hbody]
    rfl
  | @clauses init post body hbody =>
    have hpasses : checkOptionStmt e init = .ok () := hinit
    rw [checkKind, hpasses, hbody]
    rfl

namespace Evaluator

variable {scope : ScopeId} {frame : FrameId}

/-- A round of an endless loop is followed by another one, unless it fails. -/
theorem Begins.remains {run : RunId} {fuel : Nat} {kind : StmtKind} (hkind : Endless kind)
    {s t : EngineState} {path : List EngineState} {round : Eval LoopStep} {held : Nat}
    (h : (ofFuel run fuel).Begins scope frame s kind path round t held) :
    Yields (· = .next) round := by
  have hround {body : Block} (hbody : exits false body = false) (scope : ScopeId) :
      Yields (· = .next) ((ofFuel run fuel).conditional none body scope frame) := by
    refine yields_bind fun _ => ?_
    refine ((remains_ofFuel run fuel).inner scope frame hbody).bind fun flow hflow => ?_
    exact yields_pure hflow.loopStep_eq
  cases h with
  | bare =>
    obtain ⟨hbody⟩ := hkind
    exact hround hbody scope
  | @clauses init post _ body inner _ _ _ _ hscope hinit =>
    cases hkind with
    | clauses hbody =>
      refine (hround hbody inner).bind fun step hstep => ?_
      subst hstep
      cases post with
      | none => exact yields_pure rfl
      | some post => exact yields_bind fun _ => yields_pure rfl

/-- The rounds of an endless loop end only when one of them fails. -/
theorem fails_of_rounds {run : RunId} {fuel : Nat} {kind : StmtKind} (hkind : Endless kind)
    {s t u : EngineState} {first rest : List EngineState} {round : Eval LoopStep} {held : Nat}
    {r : Except EvalError Flow}
    (hbegins : (ofFuel run fuel).Begins scope frame s kind first round t held)
    (hloop : (loop round (ofFuel run fuel).rounds).Runs t rest r u) :
    ∃ e, r = .error e ∧ (ofFuel run fuel).FailsInside scope frame s kind (first ++ rest) e
      (EngineState.letGo^[held] u) := by
  obtain ⟨count, middle, last, v, o, -, rfl, hrounds, hround, ho⟩ := runs_loop.mp hloop
  cases o with
  | ok step =>
    rw [(hbegins.remains hkind).of_runs hround] at ho
    cases ho
  | error e =>
    cases ho
    refine ⟨e, rfl, ?_⟩
    rw [← List.append_assoc]
    exact .round hbegins hrounds hround

/-- An endless loop ends only when something inside it fails. -/
theorem fails_of_endless {run : RunId} {fuel : Nat} {kind : StmtKind} (hkind : Endless kind)
    {s t : EngineState} {path : List EngineState} {r : Except EvalError Flow}
    (h : ((ofFuel run fuel).dispatchStmt scope frame kind).Runs s path r t) :
    ∃ e, r = .error e ∧ (ofFuel run fuel).FailsInside scope frame s kind path e t := by
  cases hkind with
  | loop hbody => exact fails_of_rounds (.loop hbody) .bare h
  | clauses hbody =>
    obtain hfails | ⟨first, rest, round, u, held, v, rfl, hbegins, hloop, rfl⟩ := runs_forClause h
    · exact hfails
    · exact fails_of_rounds (.clauses hbody) hbegins hloop

/-- **Loops that the checks report as endless never end normally.**  Let a loop have no condition, and a
body that `exits` finds no way out of.  In any scope, from any state and whatever others do while it
waits: when the statement ends, then it ends with an error, that of its checkpoint or one that has come
up inside it, at its beginning or in one of its rounds (`FailsInside`).  As long as its rounds do not
fail, it is back where it was, with the next round to come.  And the checks do report it. -/
theorem endless_loop_never_ends (run : RunId) (fuel : Nat) {stmt : Stmt} (h : Endless stmt.kind)
    (scope : ScopeId) (frame : FrameId) (s : EngineState) :
    (∀ path r t, ((ofFuel run (fuel + 1)).stmt stmt scope frame).Runs s path r t →
      ∃ e, r = .error e ∧ ((checkpoint run).Runs s path (.error e) t ∨
        ∃ first rest u e', path = first ++ rest ∧ (checkpoint run).Runs s first (.ok ()) u ∧
          (ofFuel run fuel).FailsInside scope frame u stmt.kind rest e' t ∧
          e = e'.locate stmt.pos)) ∧
    (∀ first middle rest u v w round held count,
      (checkpoint run).Runs s first (.ok ()) u →
      (ofFuel run fuel).Begins scope frame u stmt.kind middle round v held →
      Repeated round count v rest w → count ≤ (ofFuel run fuel).rounds →
      ((ofFuel run (fuel + 1)).stmt stmt scope frame s).follow (first ++ middle ++ rest) =
        (loop round ((ofFuel run fuel).rounds - count) w).bind fun r t =>
          .done (EngineState.letGo^[held] t) (r.mapError (·.locate stmt.pos))) ∧
    ∀ e pos, checkOptionStmt e stmt.kind.init? = .ok () →
      checkKind e pos stmt.kind = .error ⟨.unboundedLoop, pos⟩ := by
  refine ⟨fun path r t hruns => ?_, fun first middle rest u v w round held count hcheck hbegins
    hrounds hcount => ?_, fun e pos => h.reported⟩
  · rw [ofFuel_stmt] at hruns
    obtain ⟨first, rest, _, u, rfl, hcheck, hstmt⟩ | ⟨e, hcheck, rfl⟩ := runs_bind.mp hruns
    · obtain ⟨o, hloop, rfl⟩ := runs_located.mp hstmt
      obtain ⟨e, rfl, hfails⟩ := fails_of_endless h hloop
      exact ⟨_, rfl, .inr ⟨first, rest, u, e, rfl, hcheck, hfails, rfl⟩⟩
    · exact ⟨e, rfl, .inl hcheck⟩
  · have hbegun := (hbegins.leads.trans ((hrounds.leads hcount).bind _)).bind
      fun r t => .done t (r.mapError (·.locate stmt.pos))
    rw [Step.bind_assoc] at hbegun
    rw [List.append_assoc, ofFuel_stmt, bind_apply]
    exact ((hcheck.leads_bind _).trans hbegun).follow_eq

/-- `for { switch 1 { case 1: break }; x }`: the `break` is for the `switch`. -/
def spinning : Stmt :=
  .whileLoop none
    [(StmtKind.switch (.int 1) [.mk [.int 1] [.brk]] none).bare, .expr (.ident "x")]

/-- Where there is no variable `x`, this loop fails in its first round, behind the `switch`. -/
theorem endless_loop_never_ends_spinning :
    Endless spinning.kind ∧ ∃ e t, ((ofFuel 0 9).stmt spinning 0 0).Runs unbound [] (.error e) t ∧
      e.fault = .undefinedSymbol "x" ∧ ((checkpoint 0).Runs unbound [] (.error e) t ∨
        ∃ first rest u e', [] = first ++ rest ∧ (checkpoint 0).Runs unbound first (.ok ()) u ∧
          (ofFuel 0 8).FailsInside 0 0 u spinning.kind rest e' t ∧ e = e'.locate spinning.pos) := by
  have hendless : Endless spinning.kind := .loop rfl
  have hstmt : ((ofFuel 0 9).stmt spinning 0 0 unbound).fails (.undefinedSymbol "x") = true := by
    decide +kernel
  obtain ⟨e, hruns, hfault⟩ := runs_of_fails hstmt
  obtain ⟨_, ⟨⟩, hfails⟩ := (endless_loop_never_ends 0 8 hendless 0 0 unbound).1 [] _ _ hruns
  exact ⟨hendless, e, _, hruns, hfault, hfails⟩

end Evaluator
end ScriptEngine
