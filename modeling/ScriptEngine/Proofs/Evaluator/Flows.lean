import ScriptEngine.Evaluator.Level
import ScriptEngine.Proofs.Task.Endings

/-! # What statements end with

A statement hands the flow that it ends with to whatever it stands in, and each kind of statement makes
something of the flows of its parts: loops take some and let others leave, cases take a `break`, a last
block may put its own flow in the place of another one.

These lemmas say, for each kind, what a statement ends with, given what its parts end with.  They are
about any condition `P` on flows that values satisfy.
-/
namespace ScriptEngine

open Eval

/-- **A round leaves with `P`**: if it leaves the loop with a flow, the flow satisfies `P`. -/
def LoopStep.LeavesWith (P : Flow → Prop) (step : LoopStep) : Prop :=
  ∀ flow, step = .leave flow → P flow

variable {P : Flow → Prop}

theorem LoopStep.leavesWith_next : LoopStep.next.LeavesWith P := fun _ h => by cases h

theorem LoopStep.leavesWith_exit : LoopStep.exit.LeavesWith P := fun _ h => by cases h

/-- Only a `return` leaves a loop. -/
theorem Flow.loopStep_leavesWith (hret : ∀ v, P (.ret v)) (flow : Flow) :
    flow.loopStep.LeavesWith P := by
  intro left hleft
  cases flow with
  | value v => cases hleft
  | brk => cases hleft
  | cont => cases hleft
  | ret v =>
    cases hleft
    exact hret v

section
variable (hvalue : ∀ v, P (.value v))
include hvalue

/-! ## Loops -/

namespace Eval

/-- After a round the loop goes on, or it ends with what left it. -/
theorem yields_afterRound {m : Eval LoopStep} {next : Eval Flow} (hm : Yields (·.LeavesWith P) m)
    (hnext : Yields P next) : Yields P (m >>= fun step => match step with
      | .next => next
      | .exit => return .unit
      | .leave flow => return flow) := by
  refine hm.bind fun step hstep => ?_
  cases step with
  | next => exact hnext
  | exit => exact yields_pure (hvalue .nil)
  | leave flow => exact yields_pure (hstep flow rfl)

theorem yields_loop {round : Eval LoopStep} (hround : Yields (·.LeavesWith P) round) :
    ∀ rounds, Yields P (loop round rounds)
  | 0 => yields_outOfFuel
  | rounds + 1 => yields_afterRound hvalue hround (yields_loop hround rounds)

variable {round : List Value → Eval LoopStep} (hround : ∀ row, Yields (·.LeavesWith P) (round row))
include hround

theorem yields_forRows {pick : Value × Value → List Value} :
    ∀ rows, Yields P (forRows pick round rows)
  | [] => yields_pure (hvalue .nil)
  | row :: rest =>
    yields_afterRound hvalue ((hround (pick row)).holding (.rows rest)) (yields_forRows rest)

theorem yields_forCount : ∀ count i, Yields P (forCount round count i)
  | 0, _ => yields_pure (hvalue .nil)
  | count + 1, i => yields_afterRound hvalue (hround _) (yields_forCount count (i + 1))

theorem yields_forReceived {chan : ChanId} {signal : SignalId} {waits : Nat} :
    ∀ rounds, Yields P (forReceived chan signal waits round rounds)
  | 0 => yields_outOfFuel
  | rounds + 1 => by
    refine yields_bind fun received => ?_
    obtain ⟨v, present⟩ := received
    cases present with
    | false => exact yields_pure (hvalue .nil)
    | true => exact yields_afterRound hvalue (hround [v]) (yields_forReceived rounds)

end Eval

namespace Evaluator

variable {ev : Evaluator} {scope : ScopeId} {frame : FrameId} {body : Block}

omit hvalue in
theorem yields_conditional {condition : Option Expr}
    (hbody : Yields (·.loopStep.LeavesWith P) (ev.inner body scope frame)) :
    Yields (·.LeavesWith P) (ev.conditional condition body scope frame) := by
  refine yields_bind fun _ => yields_bind fun holds => ?_
  cases holds with
  | true => exact hbody.bind fun flow hflow => yields_pure hflow
  | false => exact yields_pure LoopStep.leavesWith_exit

omit hvalue in
/-- What the statement after a round ends with is dropped. -/
theorem yields_clauseRound {condition : Option Expr} {post : Option Stmt}
    (hbody : Yields (·.loopStep.LeavesWith P) (ev.inner body scope frame)) :
    Yields (·.LeavesWith P) (ev.clauseRound condition post body scope frame) := by
  refine (yields_conditional hbody).bind fun step hstep => ?_
  cases step with
  | exit => exact yields_pure hstep
  | leave flow => exact yields_pure hstep
  | next =>
    cases post with
    | none => exact yields_pure hstep
    | some post => exact yields_bind fun _ => yields_pure hstep

/-- So is what the statement before the loop ends with. -/
theorem yields_clauseLoop {init post : Option Stmt} {condition : Option Expr}
    (hbody : Yields (·.loopStep.LeavesWith P) (ev.inner body scope frame)) :
    Yields P (ev.clauseLoop init condition post body scope frame) := by
  have hloop : Yields P (loop (ev.clauseRound condition post body scope frame) ev.rounds) :=
    yields_loop hvalue (yields_clauseRound hbody) ev.rounds
  cases init with
  | none => exact hloop
  | some init => exact yields_bind fun _ => hloop

theorem yields_forClause {init post : Option Stmt} {condition : Option Expr}
    (hbody : ∀ scope, Yields (·.loopStep.LeavesWith P) (ev.inner body scope frame)) :
    Yields P (ev.forClause init condition post body scope frame) := by
  unfold forClause
  split
  · exact yields_inChild scope fun inner => yields_clauseLoop hvalue (hbody inner)
  · exact yields_clauseLoop hvalue (hbody scope)

variable {vars : List String}

omit hvalue in
theorem yields_iteration
    (hbody : ∀ inner, Yields (·.loopStep.LeavesWith P) (ev.block body inner frame))
    (row : List Value) : Yields (·.LeavesWith P) (ev.iteration vars body scope frame row) := by
  refine yields_bind fun inner => Yields.holding ?_ _
  exact yields_bind fun _ => (hbody inner).bind fun flow hflow => yields_pure hflow

theorem yields_forChannel {chan : ChanId}
    (hbody : ∀ inner, Yields (·.loopStep.LeavesWith P) (ev.block body inner frame)) :
    Yields P (ev.forChannel vars chan body scope frame) := by
  refine yields_when (yields_bind fun signal => Yields.holdingValue ?_ _)
  exact yields_forReceived hvalue (yields_iteration hbody) ev.rounds

theorem yields_forIn {iterable : Expr}
    (hbody : ∀ inner, Yields (·.loopStep.LeavesWith P) (ev.block body inner frame)) :
    Yields P (ev.forIn vars iterable body scope frame) := by
  have hround (row : List Value) :
      Yields (·.LeavesWith P) (ev.iteration vars body scope frame row) := yields_iteration hbody row
  refine yields_unless ?_
  refine yields_bind fun v => ?_
  cases v with
  | list id => exact yields_bind fun rows => yields_forRows hvalue hround rows
  | map id => exact yields_bind fun rows => yields_forRows hvalue hround rows
  | str s => exact yields_forRows hvalue hround _
  | int n => exact yields_forCount hvalue hround _ _
  | chan chan => exact yields_forChannel hvalue hbody
  | nil => exact yields_pure (hvalue .nil)
  | _ => exact yields_bind fun name => yields_fail _

/-! ## Blocks -/

/-- Every statement of a block may be the one that leaves it. -/
theorem yields_blockFrom : ∀ {body : Block} (last : Value),
    (∀ stmt ∈ body, Yields P (ev.stmt stmt scope frame)) → Yields P (ev.blockFrom scope frame last body)
  | [], last, _ => yields_pure (hvalue last)
  | stmt :: rest, last, h => by
    obtain ⟨hstmt, hrest⟩ := List.forall_mem_cons.mp h
    refine (hstmt.holdingValue last).bind fun flow hflow => ?_
    cases flow with
    | value v => exact yields_blockFrom v hrest
    | brk => exact yields_pure hflow
    | cont => exact yields_pure hflow
    | ret v => exact yields_pure hflow

/-! ## Choice -/

theorem yields_ifElse {condition : Expr} {thenBlock : Block} {elseBlock : Option Block}
    (hthen : Yields P (ev.inner thenBlock scope frame))
    (helse : ∀ body, elseBlock = some body → Yields P (ev.inner body scope frame)) :
    Yields P (ev.ifElse condition thenBlock elseBlock scope frame) := by
  refine yields_bind fun v => yields_bind fun holds => ?_
  cases holds with
  | true => exact hthen
  | false =>
    cases elseBlock with
    | none => exact yields_pure (hvalue .nil)
    | some block => exact helse block rfl

omit hvalue in
/-- A `break` that ends a case ends there. -/
theorem yields_consumed {m : Eval Flow} (hm : Yields (fun flow => P flow.consumeBreak) m) :
    Yields P (do return (← m).consumeBreak) :=
  hm.bind fun _ hflow => yields_pure hflow

omit hvalue in
/-- The case that a `switch` finds is one of its cases. -/
theorem yields_matchingCase (subject : Value) (cases : List SwitchCase) :
    Yields (fun found => ∀ v body, found = some (v, body) → ∃ values, .mk values body ∈ cases)
      (ev.matchingCase subject scope cases) := by
  induction cases with
  | nil => exact yields_pure fun _ _ h => by cases h
  | cons c rest ih =>
    obtain ⟨candidates, body⟩ := c
    refine yields_bind fun found => ?_
    cases found with
    | none =>
      refine ih.mono fun found hfound v block hblock => ?_
      exact (hfound v block hblock).imp fun _ => List.mem_cons_of_mem _
    | some candidate =>
      refine yields_pure fun v block hblock => ?_
      cases hblock
      exact ⟨candidates, List.mem_cons_self⟩

theorem yields_switch {discriminant : Expr} {cases : List SwitchCase} {default : Option Block}
    (hcases : ∀ values body, .mk values body ∈ cases →
      Yields (fun flow => P flow.consumeBreak) (ev.inner body scope frame))
    (hdefault : ∀ body, default = some body →
      Yields (fun flow => P flow.consumeBreak) (ev.inner body scope frame)) :
    Yields P (ev.switch discriminant cases default scope frame) := by
  refine yields_bind fun subject => Yields.holdingValue ?_ subject
  refine (yields_matchingCase subject cases).bind fun found hfound => ?_
  match found, default with
  | some (candidate, body), _ =>
    obtain ⟨values, hmem⟩ := hfound candidate body rfl
    exact yields_consumed ((hcases values body hmem).holdingValue candidate)
  | none, some body => exact yields_consumed (hdefault body rfl)
  | none, none => exact yields_pure (hvalue subject)

omit hvalue in
theorem yields_takeCase {c : SelectCase} (received : Option (Value × Bool))
    (hbody : ∀ inner, Yields (fun flow => P flow.consumeBreak) (ev.block c.body inner frame)) :
    Yields P (ev.takeCase c received scope frame) := by
  refine yields_bind fun inner => Yields.holding ?_ _
  exact yields_bind fun _ => yields_consumed (hbody inner)

theorem yields_select {cases : List SelectCase} {default : Option Block}
    (hcases : ∀ c ∈ cases, ∀ inner,
      Yields (fun flow => P flow.consumeBreak) (ev.block c.body inner frame))
    (hdefault : ∀ body, default = some body →
      Yields (fun flow => P flow.consumeBreak) (ev.inner body scope frame)) :
    Yields P (ev.select cases default scope frame) := by
  refine yields_bind fun ops => Yields.holding ?_ _
  refine yields_bind fun signal => yields_bind fun taken => ?_
  match taken, default with
  | some (index, received), _ =>
    cases hc : cases[index]? with
    | none => simpa only [hc] using yields_pure (show P .unit from hvalue .nil)
    | some c =>
      have hbody := hcases c (List.mem_of_getElem? hc)
      simpa only [hc] using yields_takeCase received hbody
  | none, some body => exact yields_consumed (hdefault body rfl)
  | none, none => exact yields_pure (hvalue .nil)

/-! ## Errors -/

omit hvalue in
theorem yields_handle {e : EvalError} {catchVar : Option String} {handler : Block}
    (hhandler : ∀ inner, Yields P (ev.block handler inner frame)) :
    Yields (fun r => ∀ flow, r = .ok flow → P flow) (ev.handle e catchVar handler scope frame) := by
  refine yields_bind fun v => Yields.holdingValue (yields_inChild scope fun inner => ?_) v
  have htried := (hhandler inner).attempt
  cases catchVar with
  | none => exact htried
  | some name => exact yields_bind fun _ => htried

omit hvalue in
theorem yields_handled {catchVar : Option String} {handler : Option Block}
    (hbody : Yields P (ev.inner body scope frame))
    (hhandler : ∀ block, handler = some block → ∀ inner, Yields P (ev.block block inner frame)) :
    Yields (fun r => ∀ flow, r = .ok flow → P flow)
      (ev.handled body catchVar handler scope frame) := by
  refine hbody.attempt.bind fun first hfirst => ?_
  match first, handler with
  | .ok flow, _ => exact yields_pure hfirst
  | .error e, none => exact yields_pure hfirst
  | .error e, some handler =>
    dsimp only
    split
    · exact yields_handle (hhandler handler rfl)
    · exact yields_pure hfirst

omit hvalue in
/-- The last block replaces a flow only by a flow of its own. -/
theorem yields_finish {last : Option Block} {outcome : Except EvalError Flow}
    (hlast : ∀ block, last = some block → Yields P (ev.inner block scope frame))
    (houtcome : ∀ flow, outcome = .ok flow → P flow) :
    Yields P (ev.finish last scope frame outcome) := by
  cases last with
  | none => exact yields_ofExcept houtcome
  | some last =>
    refine ((hlast last rfl).holding _).bind fun flow hflow => ?_
    cases flow with
    | value v => exact yields_ofExcept houtcome
    | brk => exact yields_pure hflow
    | cont => exact yields_pure hflow
    | ret v => exact yields_pure hflow

omit hvalue in
theorem yields_tryCatch {catchVar : Option String} {handler last : Option Block}
    (hbody : Yields P (ev.inner body scope frame))
    (hhandler : ∀ block, handler = some block → ∀ inner, Yields P (ev.block block inner frame))
    (hlast : ∀ block, last = some block → Yields P (ev.inner block scope frame)) :
    Yields P (ev.tryCatch body catchVar handler last scope frame) :=
  (yields_handled hbody hhandler).bind fun _ houtcome => yields_finish hlast houtcome

/-! ## Declarations -/

theorem yields_declareModule {name : String} : Yields P (ev.declareModule name body scope) := by
  refine yields_inChild scope fun inner => yields_bind fun flow => ?_
  cases flow with
  | value v => exact yields_bind fun _ => yields_bind fun _ => yields_pure (hvalue .nil)
  | brk => exact yields_fail _
  | cont => exact yields_fail _
  | ret v => exact yields_fail _

theorem yields_declareFunc {definition : FuncDef} : Yields P (declareFunc definition scope) := by
  unfold declareFunc
  split
  · exact yields_fail _
  · exact yields_bind fun f => yields_bind fun _ => yields_pure (hvalue f)

/-! ## All statements -/

/-- **What the parts of a statement have to end with** for the statement to end with `P`. -/
def PartsYield (ev : Evaluator) (P : Flow → Prop) (scope : ScopeId) (frame : FrameId) :
    StmtKind → Prop
  | .ifElse _ thenBlock elseBlock =>
    Yields P (ev.inner thenBlock scope frame) ∧
      ∀ body, elseBlock = some body → Yields P (ev.inner body scope frame)
  | .switch _ cases default =>
    (∀ values body, .mk values body ∈ cases →
      Yields (fun flow => P flow.consumeBreak) (ev.inner body scope frame)) ∧
      ∀ body, default = some body →
        Yields (fun flow => P flow.consumeBreak) (ev.inner body scope frame)
  | .select cases default =>
    (∀ c ∈ cases, ∀ inner,
      Yields (fun flow => P flow.consumeBreak) (ev.block c.body inner frame)) ∧
      ∀ body, default = some body →
        Yields (fun flow => P flow.consumeBreak) (ev.inner body scope frame)
  | .loop _ body => Yields (·.loopStep.LeavesWith P) (ev.inner body scope frame)
  | .forClause _ _ _ body => ∀ scope, Yields (·.loopStep.LeavesWith P) (ev.inner body scope frame)
  | .forIn _ _ body => ∀ inner, Yields (·.loopStep.LeavesWith P) (ev.block body inner frame)
  | .tryCatch body _ handler last =>
    Yields P (ev.inner body scope frame) ∧
      (∀ block, handler = some block → ∀ inner, Yields P (ev.block block inner frame)) ∧
      ∀ block, last = some block → Yields P (ev.inner block scope frame)
  | .block body => Yields P (ev.inner body scope frame)
  | .ret _ => ∀ v, P (.ret v)
  | .brk => P .brk
  | .cont => P .cont
  | _ => True

/-- **A statement ends with `P`** if its parts end with what is needed for that. -/
theorem yields_dispatchStmt {kind : StmtKind} (h : ev.PartsYield P scope frame kind) :
    Yields P (ev.dispatchStmt scope frame kind) := by
  cases kind with
  | expr x => exact yields_bind fun v => yields_pure (hvalue v)
  | var names values => exact yields_bind fun vs => yields_bind fun _ => yields_pure (hvalue _)
  | assign targets values => exact yields_bind fun vs => yields_bind fun v => yields_pure (hvalue v)
  | opAssign target op value =>
    refine yields_bind fun place => yields_bind fun current => yields_bind fun operand => ?_
    exact yields_bind fun updated => yields_bind fun _ => yields_pure (hvalue updated)
  | ifElse condition thenBlock elseBlock => exact yields_ifElse hvalue h.1 h.2
  | switch discriminant cases default => exact yields_switch hvalue h.1 h.2
  | select cases default => exact yields_select hvalue h.1 h.2
  | loop condition body => exact yields_loop hvalue (yields_conditional h) ev.rounds
  | forClause init condition post body => exact yields_forClause hvalue h
  | forIn vars iterable body => exact yields_forIn hvalue h
  | func definition => exact yields_declareFunc hvalue
  | ret values => exact yields_bind fun v => yields_pure (h v)
  | brk => exact yields_pure h
  | cont => exact yields_pure h
  | throw value => exact yields_bind fun v => yields_fail _
  | tryCatch body catchVar handler last => exact yields_tryCatch h.1 h.2.1 h.2.2
  | defer call => exact yields_bind fun c => yields_bind fun _ => yields_pure (hvalue .nil)
  | module name body => exact yields_declareModule hvalue
  | go call => exact yields_bind fun c => yields_bind fun _ => yields_pure (hvalue .nil)
  | send channel value =>
    refine yields_bind fun chan => yields_bind fun v => yields_bind fun signal => ?_
    exact yields_bind fun _ => yields_pure (hvalue .nil)
  | block body => exact h

theorem yields_evalStmt {stmt : Stmt} (h : ev.PartsYield P scope frame stmt.kind) :
    Yields P (ev.evalStmt stmt scope frame) :=
  yields_bind fun _ => (yields_dispatchStmt hvalue h).located stmt.pos

end Evaluator
end
end ScriptEngine
