import ScriptEngine.Proofs.Evaluator.Flows
import ScriptEngine.Proofs.Validation.Bodies

/-! # Checked scripts contain their control flow

The checks keep account of what surrounds a statement within its function: something that takes a
`break`, something that takes a `continue`.  The evaluator knows nothing of that; a statement hands
its way of ending to whatever it stands in, and loops, `switch` and `select` take what they take.

The two agree: a block that passes the checks inside an `Enclosure` ends, when it is evaluated, only
with flows that the enclosure **takes** (`Enclosure.Takes`).  At the top of a script, of a function or
of a module nothing takes a `break` or `continue`, so no accepted body ever ends with one.  The errors
that the evaluator has for such ends (`Strays`) are therefore never raised for a body of a script that
passes: whatever is put in their place, nothing changes.
-/
namespace ScriptEngine

open Eval Validation

/-! ## What an enclosure takes -/

namespace Validation.Enclosure

/-- **The enclosure takes the flow**: a `break` or `continue` only where something is there for it. -/
def Takes (e : Enclosure) : Flow → Prop
  | .brk => e.inBreakable = true
  | .cont => e.inLoop = true
  | .value _ | .ret _ => True

/-- The enclosure inside so many loops and so many things that take a `break`. -/
def counting (loops breakables : Nat) : Enclosure := ⟨decide (0 < loops), decide (0 < breakables)⟩

variable {e : Enclosure} {flow : Flow}

/-- A case takes `break` by itself; all else is for what surrounds it. -/
theorem takes_consumeBreak (h : e.case.Takes flow) : e.Takes flow.consumeBreak := by
  cases flow with
  | value v => trivial
  | brk => trivial
  | cont => exact h
  | ret v => trivial

end Validation.Enclosure

/-- The flow is neither a `break` nor a `continue`. -/
def Flow.Contained (flow : Flow) : Prop := flow ≠ .brk ∧ flow ≠ .cont

theorem Flow.contained_of_top {flow : Flow} (h : Enclosure.top.Takes flow) : flow.Contained := by
  constructor
  · rintro rfl
    cases h
  · rintro rfl
    cases h

/-- What leaves a loop is taken everywhere. -/
theorem Flow.leavesWith_takes {e : Enclosure} (flow : Flow) : flow.loopStep.LeavesWith e.Takes :=
  flow.loopStep_leavesWith fun _ => trivial

/-! ## One level of the evaluator

What the evaluator with less fuel does with checked parts, the evaluator does with checked nodes. -/

/-- The evaluator ends checked statements and blocks with flows that their enclosure takes. -/
structure Evaluator.Contains (ev : Evaluator) : Prop where
  stmt : ∀ {e s} scope frame, checkStmt e s = .ok () → Yields e.Takes (ev.stmt s scope frame)
  inner : ∀ {e body} scope frame,
    checkBlock e body = .ok () → Yields e.Takes (ev.inner body scope frame)
  body : ∀ {e body} scope, checkBlock e body = .ok () → Yields e.Takes (ev.body body scope)

namespace Evaluator

variable {ev : Evaluator} {e : Enclosure} {pos : Position}

/-! ### The parts of what is checked -/

/-- Every statement of a block that passes passes. -/
theorem checkStmt_of_mem {body : Block} (h : checkBlock e body = .ok ()) :
    ∀ stmt ∈ body, checkStmt e stmt = .ok () := by
  induction body with
  | nil => exact fun _ hmem => absurd hmem List.not_mem_nil
  | cons first rest ih =>
    rw [checkBlock, both_ok] at h
    exact List.forall_mem_cons.mpr ⟨h.1, ih h.2⟩

/-- Every case of a `switch` that passes has a body that passes. -/
theorem checkBlock_of_mem_switchCases {cases : List SwitchCase} {values : List Expr} {body : Block}
    (h : checkSwitchCases e pos cases = .ok ()) (hc : .mk values body ∈ cases) :
    checkBlock e.case body = .ok () := by
  induction cases with
  | nil => cases hc
  | cons first rest ih =>
    obtain ⟨candidates, block⟩ := first
    simp only [checkSwitchCases, both_ok] at h
    rcases List.mem_cons.mp hc with hfirst | hrest
    · cases hfirst
      exact h.2.1
    · exact ih h.2.2 hrest

/-- Every case of a `select` that passes has a body that passes. -/
theorem checkBlock_of_mem_selectCases {cases : List SelectCase} {c : SelectCase}
    (h : checkSelectCases e pos cases = .ok ()) (hc : c ∈ cases) :
    checkBlock e.case c.body = .ok () := by
  induction cases with
  | nil => cases hc
  | cons first rest ih =>
    obtain ⟨op, body⟩ := first
    simp only [checkSelectCases, both_ok] at h
    rcases List.mem_cons.mp hc with rfl | hrest
    · exact h.2.1
    · exact ih h.2.2 hrest

/-- A block that is there, of those that are checked if they are there. -/
theorem checkBlock_of_some {block : Option Block} (h : checkOptionBlock e block = .ok ())
    {body : Block} (hsome : block = some body) : checkBlock e body = .ok () := by
  subst hsome
  exact h

/-! ### Blocks and bodies -/

theorem takes_value (v : Value) : e.Takes (.value v) := trivial

theorem Contains.block (hev : ev.Contains) {body : Block} (scope : ScopeId) (frame : FrameId)
    (h : checkBlock e body = .ok ()) : Yields e.Takes (ev.block body scope frame) :=
  yields_blockFrom takes_value .nil fun _ hstmt => hev.stmt scope frame (checkStmt_of_mem h _ hstmt)

theorem Contains.evalInner (hev : ev.Contains) {body : Block} (scope : ScopeId) (frame : FrameId)
    (h : checkBlock e body = .ok ()) : Yields e.Takes (ev.evalInner body scope frame) :=
  yields_inChild scope fun inner => hev.block inner frame h

/-- Deferred calls can make an error of the outcome, but no other flow. -/
theorem yields_runCalls {P : Flow → Prop} (frame : FrameId) :
    ∀ (calls : List DeferredCall) {outcome : Except EvalError Flow},
      (∀ flow, outcome = .ok flow → P flow) →
      Yields (fun r => ∀ flow, r = .ok flow → P flow) (ev.runCalls frame calls outcome)
  | [], _, h => yields_pure h
  | call :: rest, outcome, h => by
    -- The outcome of the body is kept, or an error takes its place.
    refine yields_bind fun _ => yields_bind fun result => yields_runCalls frame rest ?_
    intro flow hflow
    cases outcome with
    | error err => cases hflow
    | ok first =>
      cases result with
      | error err => cases hflow
      | ok v => exact h flow hflow

theorem Contains.evalBody (hev : ev.Contains) {body : Block} (scope : ScopeId)
    (h : checkBlock e body = .ok ()) : Yields e.Takes (ev.evalBody body scope) := by
  refine yields_inFrame fun frame => ?_
  refine (hev.block scope frame h).attempt.bind fun outcome houtcome => ?_
  refine yields_bind fun calls => ?_
  exact (yields_runCalls frame calls houtcome).bind fun r hr => yields_ofExcept hr

/-! ### Statements -/

/-- A `break` of a case is taken by the case. -/
theorem Contains.case (hev : ev.Contains) {body : Block} (scope : ScopeId) (frame : FrameId)
    (h : checkBlock e.case body = .ok ()) :
    Yields (fun flow => e.Takes flow.consumeBreak) (ev.inner body scope frame) :=
  (hev.inner scope frame h).mono fun _ => Enclosure.takes_consumeBreak

/-- The parts of a checked statement end with what the statement passes on. -/
theorem Contains.partsYield (hev : ev.Contains) {kind : StmtKind} (scope : ScopeId)
    (frame : FrameId) (h : checkKind e pos kind = .ok ()) : ev.PartsYield e.Takes scope frame kind := by
  have hround {m : Eval Flow} : Yields (·.loopStep.LeavesWith e.Takes) m :=
    Yields.of_forall fun flow => flow.leavesWith_takes
  cases kind with
  | ifElse condition thenBlock elseBlock =>
    simp only [checkKind, both_ok] at h
    exact ⟨hev.inner scope frame h.2.1,
      fun body hsome => hev.inner scope frame (checkBlock_of_some h.2.2 hsome)⟩
  | switch discriminant cases default =>
    simp only [checkKind, both_ok] at h
    exact ⟨fun values body hc => hev.case scope frame (checkBlock_of_mem_switchCases h.2.1 hc),
      fun body hsome => hev.case scope frame (checkBlock_of_some h.2.2 hsome)⟩
  | select cases default =>
    rw [checkKind, both_ok] at h
    refine ⟨fun c hc inner => ?_,
      fun body hsome => hev.case scope frame (checkBlock_of_some h.2 hsome)⟩
    have hbody := hev.block inner frame (checkBlock_of_mem_selectCases h.1 hc)
    exact hbody.mono fun _ => Enclosure.takes_consumeBreak
  | loop condition body => exact hround
  | forClause init condition post body => exact fun _ => hround
  | forIn vars iterable body => exact fun _ => hround
  | ret values => exact fun _ => trivial
  | brk => exact brk_parts h
  | cont => exact cont_parts h
  | tryCatch body catchVar handler last =>
    obtain ⟨hbody, hhandler, hlast⟩ := tryCatch_parts h
    exact ⟨hev.inner scope frame hbody,
      fun block hsome inner => hev.block inner frame (checkBlock_of_some hhandler hsome),
      fun block hsome => hev.inner scope frame (checkBlock_of_some hlast hsome)⟩
  | block body => exact hev.inner scope frame h
  | expr | var | assign | opAssign | func | throw | defer | module | go | send => trivial

theorem Contains.evalStmt (hev : ev.Contains) {s : Stmt} (scope : ScopeId) (frame : FrameId)
    (h : checkStmt e s = .ok ()) : Yields e.Takes (ev.evalStmt s scope frame) := by
  obtain ⟨kind, pos⟩ := s
  exact yields_evalStmt takes_value (hev.partsYield scope frame h)

/-- **The evaluator contains the control flow of checked scripts**, whatever its fuel. -/
theorem contains_ofFuel (run : RunId) : ∀ fuel, (ofFuel run fuel).Contains
  | 0 =>
    { stmt := fun _ _ _ => yields_outOfFuel
      inner := fun _ _ _ => yields_outOfFuel
      body := fun _ _ => yields_outOfFuel }
  | fuel + 1 =>
    have ih := contains_ofFuel run fuel
    { stmt := fun scope frame h => ih.evalStmt scope frame h
      inner := fun scope frame h => ih.evalInner scope frame h
      body := fun scope h => ih.evalBody scope h }

end Evaluator

end ScriptEngine
