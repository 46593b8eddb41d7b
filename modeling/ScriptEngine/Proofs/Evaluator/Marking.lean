import ScriptEngine.Proofs.Evaluator.Agreement

/-! # Errors that are marked

These are the variants of the evaluator for errors of any kind that is marked.  The strict one stops as soon
as any expression, statement, block, body or call ends with a marked error; the watchful one as soon as
something takes the place of such an error, of which there are three kinds:

* the body of a `try` ends with a marked error that may be caught, and there is a handler;
* the last block of a `try` ends, behind a marked error, with control flow or with an error that is not marked;
* a deferred call ends with a marked error, after the body or a call before it has ended with an error that is
  not marked.

Each of them is told by how the blocks and calls end themselves, not by what the construct around them makes of
it (`Evaluator.overrules`, `Evaluator.caught`, `Evaluator.runCallsMarking`).

If a marked error stays marked when it is given a place, then it is marked errors only that come of it: where
the strict variant has stopped and the watchful one has not, the evaluator is doomed to end with a marked error
(`Propagation.marked_propagates`).
-/
namespace ScriptEngine

variable {α β : Type}

namespace Evaluator

open Eval

/-- How a `try` goes on after its body: with the handler, if the body failed with what a script may catch. -/
def answered (ev : Evaluator) (catchVar : Option String) (handler : Option Block) (scope : ScopeId)
    (frame : FrameId) (first : Except EvalError Flow) : Eval (Except EvalError Flow) :=
  match first, handler with
  | .error e, some handler =>
    if e.fault.isCatchable then ev.handle e catchVar handler scope frame else return .error e
  | first, _ => return first

theorem tryCatch_eq (ev : Evaluator) (body : Block) (catchVar : Option String)
    (handler last : Option Block) (scope : ScopeId) (frame : FrameId) :
    ev.tryCatch body catchVar handler last scope frame =
      attempt (ev.inner body scope frame) >>= fun first =>
        ev.answered catchVar handler scope frame first >>= ev.finish last scope frame :=
  bind_assoc (attempt (ev.inner body scope frame)) (ev.answered catchVar handler scope frame)
    (ev.finish last scope frame)

section
variable (marks : EvalError → Bool)

/-- The last block of a `try` ends in a way that takes the place of a marked error: with control flow, or with
an error of its own that is not marked. -/
def overrules : Except EvalError Flow → Bool
  | .ok (.value _) => false
  | .ok _ => true
  | .error e => !marks e

/-- The body of a `try` ends with a marked error that goes to the handler. -/
def caught (handler : Option Block) : Except EvalError Flow → Bool
  | .ok _ => false
  | .error e => marks e && e.fault.isCatchable && handler.isSome

/-- The evaluator, stopping the task where a block that it is asked for overrules a marked error. -/
def minding (ev : Evaluator) : Evaluator :=
  { ev with inner := fun block scope frame => stoppingIf (overrules marks) (ev.inner block scope frame) }

/-- How a `try` goes on after its body, if neither handler nor last block must put a marked error aside. -/
def afterBodyMarking (ev : Evaluator) (catchVar : Option String) (handler last : Option Block)
    (scope : ScopeId) (frame : FrameId) (first : Except EvalError Flow) : Eval Flow :=
  if caught marks handler first then breakDown none else do
    let outcome ← ev.answered catchVar handler scope frame first
    (if marked marks outcome then ev.minding marks else ev).finish last scope frame outcome

/-- The `try` statement that does so. -/
def tryMarking (ev : Evaluator) (body : Block) (catchVar : Option String) (handler last : Option Block)
    (scope : ScopeId) (frame : FrameId) : Eval Flow := do
  ev.afterBodyMarking marks catchVar handler last scope frame
    (← attempt (ev.inner body scope frame))

/-- The error that an outcome is. -/
def failure {α : Type} : Except EvalError α → Option EvalError
  | .ok _ => none
  | .error e => some e

/-- Deferred calls, none of whose marked errors must be put aside.  What the body and the calls so far have
ended with first, if with an error, is noted apart from the outcome that is handed on. -/
def runCallsMarking (ev : Evaluator) (frame : FrameId) :
    List DeferredCall → Option EvalError → Except EvalError Flow → Eval (Except EvalError Flow)
  | [], _, outcome => return outcome
  | call :: rest, earlier, outcome => do
    dropDeferred frame
    let result ← holding (.values (outcomeValues outcome))
      (attempt (ev.call call.callee call.args call.spread))
    if marked marks result && earlier.any (!marks ·) then breakDown none
    else runCallsMarking ev frame rest (earlier.or (failure result)) (firstError outcome result)

/-- A body, none of whose deferred calls must put a marked error aside. -/
def bodyMarking (ev : Evaluator) (block : Block) (scope : ScopeId) : Eval Flow :=
  inFrame fun frame => do
    let outcome ← attempt (ev.block block scope frame)
    MonadExcept.ofExcept
      (← ev.runCallsMarking marks frame (← deferred frame) (failure outcome) outcome)

/-- A statement; the watchful variant has a `try` of its own. -/
def stmtMarking (mode : Mode) (ev : Evaluator) (stmt : Stmt) (scope : ScopeId) (frame : FrameId) :
    Eval Flow :=
  match mode, stmt.kind with
  | .watchful, .tryCatch body catchVar handler last => do
    checkpoint ev.run
    located stmt.pos (ev.tryMarking marks body catchVar handler last scope frame)
  | _, _ => ev.evalStmt stmt scope frame

/-- The variants of the evaluator for these marks, with this much fuel. -/
def marking (run : RunId) (mode : Mode) : Nat → Evaluator
  | 0 => ofFuel run 0
  | fuel + 1 =>
    { run
      rounds := fuel
      expr := fun e scope => mode.marking marks ((marking run mode fuel).evalExpr e scope)
      stmt := fun stmt scope frame =>
        mode.marking marks ((marking run mode fuel).stmtMarking marks mode stmt scope frame)
      inner := fun block scope frame =>
        mode.marking marks ((marking run mode fuel).evalInner block scope frame)
      body := fun block scope =>
        mode.marking marks (match mode with
          | .watchful => (marking run mode fuel).bodyMarking marks block scope
          | .plain | .strict => (marking run mode fuel).evalBody block scope)
      call := fun callee args spread =>
        mode.marking marks ((marking run mode fuel).callValue callee args spread) }

/-- The plain variant is the evaluator itself. -/
theorem marking_plain (run : RunId) (fuel : Nat) : marking marks run .plain fuel = ofFuel run fuel := by
  induction fuel with
  | zero => rfl
  | succ fuel ih =>
    unfold marking ofFuel
    rw [ih]
    rfl

end

end Evaluator

open Step (Halted)

namespace Propagation
variable {marks : EvalError → Bool}

/-! ## The constructs that look at errors -/

section
variable {run : RunId} {rounds : Nat} {evs : Mode → Evaluator}

/-- The variants agree on everything they can be asked. -/
abbrev AgreeOnMarked (marks : EvalError → Bool) (run : RunId) (rounds : Nat) (evs : Mode → Evaluator) :
    Prop :=
  Requests (fun _ => True) (fun {α} (m : Mode → Eval α) => Sound (marked marks) m) run rounds evs

theorem marked_handle (h : AgreeOnMarked marks run rounds evs) (e : EvalError)
    (catchVar : Option String) (handler : Block) (scope : ScopeId) (frame : FrameId) :
    Sound (carriesMarked marks) fun i => (evs i).handle e catchVar handler scope frame := by
  refine Sound.after fun v => Sound.holding _ (Sound.inChild scope fun inner => ?_)
  have hblock := Sound.attempt (h.block handler inner frame)
  cases catchVar with
  | none => exact hblock
  | some name => exact Sound.after fun _ => hblock

theorem marked_answered (h : AgreeOnMarked marks run rounds evs) (catchVar : Option String)
    (handler : Option Block) (scope : ScopeId) (frame : FrameId) (first : Except EvalError Flow) :
    Sound (carriesMarked marks) fun i => (evs i).answered catchVar handler scope frame first := by
  match first, handler with
  | .ok flow, _ => exact .same (pure (Except.ok flow))
  | .error e, none => exact .same (pure (Except.error e))
  | .error e, some handler =>
    cases hc : e.fault.isCatchable with
    | true =>
      simp only [Evaluator.answered, hc, if_true]
      exact marked_handle h e catchVar handler scope frame
    | false =>
      simp only [Evaluator.answered, hc, Bool.false_eq_true, if_false]
      exact .same (pure (Except.error e))

/-- The last block of a `try`, where the watchful variant minds what takes the place of a marked error. -/
theorem marked_finish (h : AgreeOnMarked marks run rounds evs) (last : Option Block) (scope : ScopeId)
    (frame : FrameId) (outcome : Except EvalError Flow) (s : EngineState) :
    Agree (marked marks · = true) ((evs .plain).finish last scope frame outcome s)
      ((evs .strict).finish last scope frame outcome s)
      (((evs .watchful).minding marks).finish last scope frame outcome s) := by
  cases last with
  | none => exact .refl _
  | some last =>
    simp only [Evaluator.finish, Evaluator.minding, Eval.bind_apply, Eval.holding_apply, Step.bind_assoc]
    refine ((h.inner last scope frame).stopping _ _).bind (fun _ _ => .refl _) fun r s hr => ?_
    cases r with
    | ok flow => cases hr
    | error e => exact .inr ⟨rfl, hr⟩

/-- A marked outcome is the outcome of the whole `try`, unless the last block overrules it. -/
theorem doomed_finish (h : AgreeOnMarked marks run rounds evs) (last : Option Block) (scope : ScopeId)
    (frame : FrameId) {outcome : Except EvalError Flow} (ho : marked marks outcome = true)
    (s : EngineState) :
    Doomed (marked marks · = true) ((evs .plain).finish last scope frame outcome s)
      (((evs .watchful).minding marks).finish last scope frame outcome s) := by
  cases outcome with
  | ok flow => cases ho
  | error e =>
    cases last with
    | none => exact .inr ⟨rfl, ho⟩
    | some last =>
      simp only [Evaluator.finish, Evaluator.minding, Eval.bind_apply, Eval.holding_apply,
        Eval.stoppingIf_apply, Step.bind_assoc]
      refine ((h.inner last scope frame).agree _).doomed.bind fun r s _ => ?_
      match r with
      | .ok (.value v) => exact .inr ⟨rfl, ho⟩
      | .ok .brk => exact .inl ⟨_, _, rfl⟩
      | .ok .cont => exact .inl ⟨_, _, rfl⟩
      | .ok (.ret v) => exact .inl ⟨_, _, rfl⟩
      | .error e' =>
        cases he : marks e' with
        | true => exact .inr ⟨by simp [Evaluator.overrules, he], he⟩
        | false => exact .inl ⟨s, .breakDown none, by simp [Evaluator.overrules, he]⟩

/-- After the handler, or without one. -/
theorem marked_finishing (h : AgreeOnMarked marks run rounds evs) (last : Option Block) (scope : ScopeId)
    (frame : FrameId) (outcome : Except EvalError Flow) (s : EngineState) :
    Agree (marked marks · = true) ((evs .plain).finish last scope frame outcome s)
      ((evs .strict).finish last scope frame outcome s)
      ((if marked marks outcome then (evs .watchful).minding marks else evs .watchful).finish
        last scope frame outcome s) := by
  split
  · exact marked_finish h last scope frame outcome s
  · exact (h.finish last scope frame outcome).agree s

/-- Once the body of a `try` has ended, with whatever it did. -/
theorem marked_after_body (h : AgreeOnMarked marks run rounds evs) (catchVar : Option String)
    (handler last : Option Block) (scope : ScopeId) (frame : FrameId) (first : Except EvalError Flow)
    (s : EngineState) :
    Agree (marked marks · = true)
      (((evs .plain).answered catchVar handler scope frame first >>=
        (evs .plain).finish last scope frame) s)
      (((evs .strict).answered catchVar handler scope frame first >>=
        (evs .strict).finish last scope frame) s)
      ((evs .watchful).afterBodyMarking marks catchVar handler last scope frame first s) := by
  unfold Evaluator.afterBodyMarking
  split
  · exact .of_halted ⟨_, _, rfl⟩
  rw [Eval.bind_apply, Eval.bind_apply, Eval.bind_apply]
  refine ((marked_answered h catchVar handler scope frame first).agree s).bind (fun r s => ?_)
    fun r s hr => ?_
  · cases r with
    | error e => exact .refl _
    | ok outcome => exact marked_finishing h last scope frame outcome s
  · cases r with
    | error e => exact .inr ⟨rfl, hr⟩
    | ok outcome =>
      have ho : marked marks outcome = true := hr
      simp only [Eval.andThen_ok, ho, if_true]
      exact doomed_finish h last scope frame ho s

/-- What no handler catches is left as it is. -/
theorem answered_of_not_caught (ev : Evaluator) (catchVar : Option String) {handler : Option Block}
    (scope : ScopeId) (frame : FrameId) {first : Except EvalError Flow}
    (hfirst : marked marks first = true) (hcaught : Evaluator.caught marks handler first ≠ true) :
    ev.answered catchVar handler scope frame first = pure first := by
  cases first with
  | ok flow => cases hfirst
  | error e =>
    cases handler with
    | none => rfl
    | some handler =>
      have hmarks : marks e = true := hfirst
      have hcatch : e.fault.isCatchable = false := by simpa [Evaluator.caught, hmarks] using hcaught
      simp only [Evaluator.answered, hcatch, Bool.false_eq_true, if_false]

/-- Once the body of a `try` has ended with a marked error. -/
theorem doomed_after_body (h : AgreeOnMarked marks run rounds evs) (catchVar : Option String)
    (handler last : Option Block) (scope : ScopeId) (frame : FrameId) {first : Except EvalError Flow}
    (hfirst : marked marks first = true) (s : EngineState) :
    Doomed (marked marks · = true)
      (((evs .plain).answered catchVar handler scope frame first >>=
        (evs .plain).finish last scope frame) s)
      ((evs .watchful).afterBodyMarking marks catchVar handler last scope frame first s) := by
  unfold Evaluator.afterBodyMarking
  split
  · exact .of_halted ⟨_, _, rfl⟩
  rename_i hcaught
  rw [answered_of_not_caught _ catchVar scope frame hfirst hcaught,
    answered_of_not_caught _ catchVar scope frame hfirst hcaught]
  simp only [pure_bind, hfirst, if_true]
  exact doomed_finish h last scope frame hfirst s

theorem marked_try (h : AgreeOnMarked marks run rounds evs) (body : Block) (catchVar : Option String)
    (handler last : Option Block) (scope : ScopeId) (frame : FrameId) (s : EngineState) :
    Agree (marked marks · = true)
      ((evs .plain).tryCatch body catchVar handler last scope frame s)
      ((evs .strict).tryCatch body catchVar handler last scope frame s)
      ((evs .watchful).tryMarking marks body catchVar handler last scope frame s) := by
  rw [Evaluator.tryCatch_eq, Evaluator.tryCatch_eq, Evaluator.tryMarking, Eval.bind_apply,
    Eval.bind_apply, Eval.bind_apply]
  refine ((Sound.attempt (h.inner body scope frame)).agree s).bind (fun r s => ?_) fun r s hr => ?_
  · cases r with
    | error e =>
      simp only [Eval.andThen_error]
      exact .refl _
    | ok first => exact marked_after_body h catchVar handler last scope frame first s
  · cases r with
    | error e =>
      simp only [Eval.andThen_error]
      exact .inr ⟨rfl, hr⟩
    | ok first => exact doomed_after_body h catchVar handler last scope frame hr s

theorem failure_firstError (outcome : Except EvalError α) (result : Except EvalError β) :
    Evaluator.failure (firstError outcome result) =
      (Evaluator.failure outcome).or (Evaluator.failure result) := by
  cases outcome <;> cases result <;> rfl

/-- A marked error comes first, or comes of a call after no error but marked ones. -/
theorem marked_firstError {outcome : Except EvalError α} {result : Except EvalError β}
    (hr : marked marks result = true) (ho : ¬(Evaluator.failure outcome).any (!marks ·) = true) :
    marked marks (firstError outcome result) = true := by
  cases outcome with
  | ok a =>
    cases result with
    | ok b => cases hr
    | error e => exact hr
  | error e =>
    have he : marks e = true := by simpa [Evaluator.failure] using ho
    exact he

theorem firstError_of_marked {outcome : Except EvalError α} (ho : marked marks outcome = true)
    (result : Except EvalError β) : firstError outcome result = outcome := by
  cases outcome with
  | ok a => cases ho
  | error e => rfl

/-- After a marked error, deferred calls do not change the outcome. -/
theorem doomed_marked_calls (h : AgreeOnMarked marks run rounds evs) (frame : FrameId)
    (calls : List DeferredCall) {outcome : Except EvalError Flow} (ho : marked marks outcome = true)
    {earlier : Option EvalError} (hearlier : earlier = Evaluator.failure outcome) (s : EngineState) :
    Doomed (carriesMarked marks · = true) ((evs .plain).runCalls frame calls outcome s)
      ((evs .watchful).runCallsMarking marks frame calls earlier outcome s) := by
  induction calls generalizing earlier s with
  | nil => exact .inr ⟨rfl, ho⟩
  | cons call rest ih =>
    simp only [Evaluator.runCalls, Evaluator.runCallsMarking, Eval.bind_apply, Eval.dropDeferred,
      Eval.modify_apply, Step.bind_of_done, Eval.andThen_ok, Eval.holding_apply,
      Eval.attempt_apply, Step.bind_assoc]
    refine ((h.call call.callee call.args call.spread).agree _).doomed.bind fun r s _ => ?_
    split
    · exact .of_halted ⟨_, _, rfl⟩
    · rw [firstError_of_marked ho]
      refine ih ?_ _
      rw [hearlier, ← failure_firstError, firstError_of_marked ho]

/-- Deferred calls one after the other.  What is noted of the body and the calls so far is the error that is
handed on, if one is: with that, what the watchful variant looks at is what the body makes of the results. -/
theorem marked_calls (h : AgreeOnMarked marks run rounds evs) (frame : FrameId)
    (calls : List DeferredCall) (outcome : Except EvalError Flow) {earlier : Option EvalError}
    (hearlier : earlier = Evaluator.failure outcome) (s : EngineState) :
    Agree (carriesMarked marks · = true) ((evs .plain).runCalls frame calls outcome s)
      ((evs .strict).runCalls frame calls outcome s)
      ((evs .watchful).runCallsMarking marks frame calls earlier outcome s) := by
  induction calls generalizing outcome earlier s with
  | nil => exact .refl _
  | cons call rest ih =>
    simp only [Evaluator.runCalls, Evaluator.runCallsMarking, Eval.bind_apply, Eval.dropDeferred,
      Eval.modify_apply, Step.bind_of_done, Eval.andThen_ok, Eval.holding_apply,
      Eval.attempt_apply, Step.bind_assoc]
    have hnext (r : Except EvalError Value) :
        earlier.or (Evaluator.failure r) = Evaluator.failure (firstError outcome r) := by
      rw [hearlier, failure_firstError]
    refine ((h.call call.callee call.args call.spread).agree _).bind (fun r s => ?_) fun r s hr => ?_
    · split
      · exact .of_halted ⟨_, _, rfl⟩
      · exact ih _ (hnext r) _
    · split
      · exact .of_halted ⟨_, _, rfl⟩
      · rename_i hkept
        refine doomed_marked_calls h frame rest (marked_firstError hr ?_) (hnext r) _
        rw [← hearlier]
        exact fun hany => hkept (by rw [hany, show marked marks r = true from hr]; rfl)

/-- What is left of a body after its deferred calls is raised as it is. -/
theorem settle_marked {r : Except EvalError (Except EvalError Flow)} (hr : carriesMarked marks r = true)
    (s : EngineState) : ∃ e, Eval.andThen (MonadExcept.ofExcept ·) r s = .done s (.error e : Except _ Flow) ∧
      marks e = true := by
  match r with
  | .error e => exact ⟨e, rfl, hr⟩
  | .ok (.error e) => exact ⟨e, rfl, hr⟩

theorem marked_body (h : AgreeOnMarked marks run rounds evs) (block : Block) (scope : ScopeId)
    (s : EngineState) :
    Agree (marked marks · = true) ((evs .plain).evalBody block scope s)
      ((evs .strict).evalBody block scope s) ((evs .watchful).bodyMarking marks block scope s) := by
  simp only [Evaluator.evalBody, Evaluator.bodyMarking, Eval.inFrame, Eval.holding_apply,
    Eval.bind_apply, Eval.update_apply, Eval.attempt_apply, Eval.deferred, Eval.read_apply,
    Step.bind_of_done, Eval.andThen_ok, Step.bind_assoc]
  refine ((h.block block scope _).agree _).bind (fun r s => ?_) fun r s hr => ?_
  · refine (marked_calls h _ _ r rfl s).bind (fun _ _ => .refl _) fun r s hr => ?_
    obtain ⟨e, he, hmarked⟩ := settle_marked hr s
    rw [he]
    exact .inr ⟨rfl, hmarked⟩
  · refine (doomed_marked_calls h _ _ hr rfl s).bind fun r s hr => ?_
    obtain ⟨e, he, hmarked⟩ := settle_marked hr s
    rw [he]
    exact .inr ⟨rfl, hmarked⟩

theorem marked_stmt (hmarks : ∀ e p, marks e = true → marks (e.locate p) = true)
    (h : AgreeOnMarked marks run rounds evs) (stmt : Stmt) (scope : ScopeId) (frame : FrameId) :
    Sound (marked marks) fun i => (evs i).stmtMarking marks i stmt scope frame := by
  by_cases htry : ∃ body catchVar handler last, stmt.kind = .tryCatch body catchVar handler last
  · obtain ⟨body, catchVar, handler, last, hkind⟩ := htry
    -- The watchful variant has its own `try`; the checkpoint and the place are the same.
    have hsound : Sound (marked marks) fun i => (do
        Eval.checkpoint run
        Eval.located stmt.pos (if i = .watchful then
          (evs i).tryMarking marks body catchVar handler last scope frame
        else (evs i).tryCatch body catchVar handler last scope frame)) :=
      Sound.after fun _ =>
        Sound.located hmarks _ ⟨marked_try h body catchVar handler last scope frame⟩
    refine ⟨fun s => ?_⟩
    have hagree := hsound.agree s
    simpa only [Evaluator.stmtMarking, Evaluator.evalStmt, hkind, h.run_eq,
      Evaluator.dispatchStmt, reduceCtorEq, if_true, if_false] using hagree
  · have heq (i : Mode) : (evs i).stmtMarking marks i stmt scope frame =
        (evs i).evalStmt stmt scope frame := by
      unfold Evaluator.stmtMarking
      split
      · rename_i hkind
        exact absurd ⟨_, _, _, _, hkind⟩ htry
      · rfl
    simp only [heq, Evaluator.evalStmt, h.run_eq]
    refine Sound.after fun _ =>
      Sound.located hmarks _ (h.dispatchStmt scope frame stmt.kind ?_)
    intro body catchVar handler last hkind
    exact absurd ⟨_, _, _, _, hkind⟩ htry

end

/-! ## All evaluation -/

section
variable (hmarks : ∀ e p, marks e = true → marks (e.locate p) = true)
include hmarks

theorem agreeOnMarked_marking (run : RunId) (fuel : Nat) :
    ∃ rounds, AgreeOnMarked marks run rounds fun i => Evaluator.marking marks run i fuel := by
  induction fuel with
  | zero =>
    exact ⟨0, (compositional_marked hmarks).outOfFuel run⟩
  | succ fuel ih =>
    obtain ⟨rounds, h⟩ := ih
    exact ⟨fuel, {
      compositional_marked hmarks with
      run_eq := fun _ => rfl
      rounds_eq := fun _ => rfl
      expr := fun e scope => .marking (h.evalExpr e scope)
      stmt := fun stmt scope frame => .marking (marked_stmt hmarks h stmt scope frame)
      inner := fun block scope frame => .marking (h.evalInner block scope frame)
      body := fun block scope => .marking ⟨marked_body h block scope⟩
      call := fun callee args spread => .marking (h.callValue callee args spread) }⟩

end

theorem sound_marking (hmarks : ∀ e p, marks e = true → marks (e.locate p) = true) (run : RunId)
    (fuel : Nat) (node : Node α) :
    Sound (marked marks) fun i => node.eval (Evaluator.marking marks run i fuel) :=
  have ⟨_, h⟩ := agreeOnMarked_marking hmarks run fuel
  h.node node

end Propagation

namespace Node

variable (marks : EvalError → Bool) (node : Node α) (run : RunId) (fuel : Nat) (s : EngineState)
  (path : List EngineState)

/-- Something inside the node, or the node itself, ends with a marked error. -/
def Raises : Prop := Halted ((node.eval (Evaluator.marking marks run .strict fuel) s).follow path)

/-- Inside the node something takes the place of a marked error: a handler that the error goes to, a last block
of a `try` that ends with control flow or with an error that is not marked, or an error that is not marked, of
a body or of a deferred call before the one whose error is marked. -/
def PutsAside : Prop := Halted ((node.eval (Evaluator.marking marks run .watchful fuel) s).follow path)

end Node

namespace Propagation

/-- **Marked errors propagate.**  If something inside ended with a marked error, and no marked error was put
aside, then the node itself ends with a marked error. -/
theorem marked_propagates {marks : EvalError → Bool}
    (hmarks : ∀ e p, marks e = true → marks (e.locate p) = true) (run : RunId)
    (fuel : Nat) (node : Node α) {s t : EngineState} {path : List EngineState} {r : Except EvalError α}
    (hend : (node.eval (Evaluator.ofFuel run fuel)).Runs s path r t)
    (hraised : node.Raises marks run fuel s path) (hkept : ¬node.PutsAside marks run fuel s path) :
    ∃ e, r = .error e ∧ marks e = true := by
  rw [← Evaluator.marking_plain marks] at hend
  obtain hstrict | hbad | haside := ((sound_marking hmarks run fuel node).agree s).follow hend.follow_eq
  · obtain ⟨s'', why, hstop⟩ := hraised
    rw [hstop] at hstrict
    cases hstrict
  · cases r with
    | ok a => cases hbad
    | error e => exact ⟨e, rfl, hbad⟩
  · exact absurd haside hkept

end Propagation
end ScriptEngine
