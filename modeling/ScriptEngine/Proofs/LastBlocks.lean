import ScriptEngine.Evaluator.Level
import ScriptEngine.Proofs.Heap.Chains
import ScriptEngine.Proofs.Task.Paths
import ScriptEngine.Proofs.Task.Rules
import ScriptEngine.Tree.Builder

/-! # Last blocks

The last block of a `try` is run when the body has ended and its error, if a handler takes it, has been
handled.  What it then gives counts if it fails or leaves, and otherwise what came before it
(`overridden`).

Between the body and the handler a scope is opened for the handler, and its variable is bound.  Both may
fail: there may be no slot for the scope (`HandlerRefused.noSlot`), and the name of the variable may be
no identifier (`HandlerRefused.noIdentifier`).  Then the `try` ends there with that error, and its last
block is not run.  In all other cases it is run once, as the last thing that the `try` does
(`last_block_runs`).
-/
namespace ScriptEngine

/-- What a `try` gives after its last block: what the last block gives if it fails or leaves, and
otherwise the outcome before it. -/
def overridden (outcome : Except EvalError Flow) : Except EvalError Flow → Except EvalError Flow
  | .ok (.value _) => outcome
  | last => last

/-- The variable of a handler, if it has one, is bound to the error. -/
def Heap.bindError (h : Heap) (inner : ScopeId) (v : Value) : Option String → Outcome Heap
  | none => .ok h
  | some name => h.define inner name v

section
variable (e : EvalError) (catchVar : Option String) (scope : ScopeId)

/-- The state in which the handler of an error asks for a scope: the error is held, as a value. -/
def EngineState.holdError (s : EngineState) : EngineState := s.hold (.value (e.fault.toValue s.heap))

/-- **The handler is entered** in the scope `inner`: there was a slot for the scope, which is held, and
the variable of the handler is bound in it. -/
inductive HandlerEntered (s : EngineState) : ScopeId → EngineState → Prop where
  | mk {inner : ScopeId} {t : EngineState} {h : Heap}
      (hslot : (s.holdError e).addChild scope = (.ok inner, t))
      (hbound : t.heap.bindError inner (e.fault.toValue s.heap) catchVar = .ok h) :
      HandlerEntered s inner { t.hold (.block inner) with heap := h }

/-- **The handler cannot be entered**, and the `try` fails with another error in place of the one that
was to be handled. -/
inductive HandlerRefused (s : EngineState) : EvalError → EngineState → Prop where
  /-- There is no slot for its scope. -/
  | noSlot {limit : Nat} {t : EngineState}
      (hslot : (s.holdError e).addChild scope = (.error (.fault (.scopeLimit limit)), t)) :
      HandlerRefused s { fault := .scopeLimit limit }
        (t.refuse (.scope (s.heap.scope scope).governor)).letGo
  /-- The name of its variable is no identifier. -/
  | noIdentifier {inner : ScopeId} {t : EngineState} {name : String}
      (hslot : (s.holdError e).addChild scope = (.ok inner, t)) (hname : catchVar = some name)
      (hidentifier : isIdentifier name = false) :
      HandlerRefused s { fault := .invalidOperation ("invalid identifier '" ++ name ++ "'") }
        ((t.hold (.block inner)).complain (.name name)).letGo.letGo

end

namespace Evaluator
open Eval

variable (ev : Evaluator) (body : Block) (catchVar : Option String) (handler : Option Block)
  (scope : ScopeId) (frame : FrameId)

/-- **Along this path the body of a `try` ends, and so does its handler if it has to run**: with the
outcome that the last block finds. -/
inductive Settles (s : EngineState) : List EngineState → Except EvalError Flow → EngineState → Prop where
  /-- The body does not fail, or nothing handles its error. -/
  | body {path : List EngineState} {outcome : Except EvalError Flow} {t : EngineState}
      (hbody : (ev.inner body scope frame).Runs s path outcome t)
      (hunhandled : ∀ e, outcome = .error e → handler = none ∨ e.fault.isCatchable = false) :
      Settles s path outcome t
  /-- The body fails, and its error is handled. -/
  | handler {first rest : List EngineState} {outcome : Except EvalError Flow} {e : EvalError}
      {block : Block} {inner : ScopeId} {t u v : EngineState}
      (hbody : (ev.inner body scope frame).Runs s first (.error e) t)
      (hcatchable : e.fault.isCatchable = true) (hhandler : handler = some block)
      (hentered : HandlerEntered e catchVar scope t inner u)
      (hrun : (ev.block block inner frame).Runs u rest outcome v) :
      Settles s (first ++ rest) outcome v.letGo.letGo

/-- **Along this path the body of a `try` fails with an error that is to be handled, but its handler
cannot be entered.** -/
inductive Unsettled (s : EngineState) : List EngineState → EvalError → EngineState → Prop where
  | mk {path : List EngineState} {e error : EvalError} {block : Block} {t u : EngineState}
      (hbody : (ev.inner body scope frame).Runs s path (.error e) t)
      (hcatchable : e.fault.isCatchable = true) (hhandler : handler = some block)
      (hrefused : HandlerRefused e catchVar scope t error u) :
      Unsettled s path error u

variable {ev body catchVar handler scope frame}

/-! ## The handler -/

theorem handle_entered {e : EvalError} {block : Block} {inner : ScopeId} {s t : EngineState}
    (h : HandlerEntered e catchVar scope s inner t) :
    ev.handle e catchVar block scope frame s =
      (ev.block block inner frame t).bind fun r u => .done u.letGo.letGo (.ok r) := by
  obtain ⟨hslot, hbound⟩ := h
  rename_i u heap
  have hopen : openScope scope (s.holdError e) = .done u (.ok inner) := by
    rw [openScope_apply, hslot]
  rw [handle, bind_apply, readHeap_apply, Step.bind_of_done, andThen_ok, holdingValue, holding_apply]
  show (inChild scope _ (s.holdError e)).bind _ = _
  rw [inChild, bind_apply, hopen, Step.bind_of_done, andThen_ok, holding_apply, Step.bind_assoc]
  cases catchVar with
  | none =>
    cases hbound
    show (attempt _ _).bind _ = _
    rw [attempt_apply, Step.bind_assoc]
    rfl
  | some name =>
    have hdefine : define inner name (e.fault.toValue s.heap) (u.hold (.block inner)) =
        .done { u.hold (.block inner) with heap := heap } (.ok ()) :=
      bindName_ok hbound
    show ((define inner name _ >>= fun _ => attempt _) _).bind _ = _
    rw [bind_apply, hdefine, Step.bind_of_done, andThen_ok, attempt_apply, Step.bind_assoc]
    rfl

theorem handle_refused {e error : EvalError} {block : Block} {s t : EngineState}
    (h : HandlerRefused e catchVar scope s error t) :
    ev.handle e catchVar block scope frame s = .done t (.error error) := by
  rw [handle, bind_apply, readHeap_apply, Step.bind_of_done, andThen_ok, holdingValue, holding_apply]
  show (inChild scope _ (s.holdError e)).bind _ = _
  rw [inChild, bind_apply, openScope_apply]
  cases h with
  | noSlot hslot => rw [hslot]; rfl
  | noIdentifier hslot hname hidentifier =>
    subst hname
    rename_i inner u name
    have hbad : (u.hold (.block inner)).heap.define inner name (e.fault.toValue s.heap) = _ :=
      Heap.define_eq _ _ _ _
    rw [hidentifier, if_neg Bool.false_ne_true] at hbad
    have hdefine : define inner name (e.fault.toValue s.heap) (u.hold (.block inner)) = _ :=
      bindName_error hbad
    rw [hslot]
    show (holding _ (define inner name _ >>= fun _ => attempt _) u).bind _ = _
    rw [holding_apply, bind_apply, hdefine]
    rfl

/-- There is no third way. -/
theorem handler_entered_or_refused (e : EvalError) (catchVar : Option String) (scope : ScopeId)
    (s : EngineState) :
    (∃ inner t, HandlerEntered e catchVar scope s inner t) ∨
      ∃ error t, HandlerRefused e catchVar scope s error t := by
  cases hslot : (s.holdError e).addChild scope with
  | mk opened t =>
    cases opened with
    | error failure =>
      obtain ⟨limit, rfl⟩ := EngineState.addChild_error (congrArg Prod.fst hslot)
      exact .inr ⟨_, _, .noSlot hslot⟩
    | ok inner =>
      cases catchVar with
      | none => exact .inl ⟨_, _, .mk hslot rfl⟩
      | some name =>
        cases hidentifier : isIdentifier name with
        | false => exact .inr ⟨_, _, .noIdentifier hslot rfl hidentifier⟩
        | true =>
          have hbound := Heap.define_eq t.heap inner name (e.fault.toValue s.heap)
          rw [hidentifier, if_pos rfl] at hbound
          exact .inl ⟨_, _, .mk hslot hbound⟩

/-! ## Body and handler -/

/-- How a `try` goes on after its body, before its last block. -/
def afterBody (ev : Evaluator) (catchVar : Option String) (handler : Option Block) (scope : ScopeId)
    (frame : FrameId) (outcome : Except EvalError Flow) (t : EngineState) :
    Step (Except EvalError (Except EvalError Flow)) :=
  match outcome, handler with
  | .error e, some block =>
    if e.fault.isCatchable then ev.handle e catchVar block scope frame t else .done t (.ok outcome)
  | _, _ => .done t (.ok outcome)

theorem handled_apply (s : EngineState) :
    ev.handled body catchVar handler scope frame s =
      (ev.inner body scope frame s).bind (ev.afterBody catchVar handler scope frame) := by
  rw [handled, bind_apply, attempt_apply, Step.bind_assoc]
  congr 1
  funext r t
  cases r with
  | ok flow => cases handler <;> rfl
  | error e =>
    cases handler with
    | none => rfl
    | some block =>
      show (if e.fault.isCatchable then _ else _ : Eval _) t = if e.fault.isCatchable then _ else _
      split <;> rfl

/-- Nothing happens after a body that does not fail, or whose error is not handled. -/
theorem afterBody_unhandled {outcome : Except EvalError Flow}
    (h : ∀ e, outcome = .error e → handler = none ∨ e.fault.isCatchable = false) (t : EngineState) :
    ev.afterBody catchVar handler scope frame outcome t = .done t (.ok outcome) := by
  match outcome, handler with
  | .ok _, none | .ok _, some _ | .error _, none => rfl
  | .error e, some block =>
    obtain hnone | huncatchable := h e rfl
    · cases hnone
    · rw [afterBody, huncatchable]
      rfl

/-- An error that may be caught goes to the handler. -/
theorem afterBody_handled {e : EvalError} (hcatchable : e.fault.isCatchable = true) (block : Block)
    (t : EngineState) :
    ev.afterBody catchVar (some block) scope frame (.error e) t =
      ev.handle e catchVar block scope frame t :=
  if_pos hcatchable

/-- The body of a `try` and the handler of its error, if it has to run, end with an outcome for the last
block, unless the handler cannot be entered. -/
theorem runs_handled {s t : EngineState} {path : List EngineState}
    {r : Except EvalError (Except EvalError Flow)} :
    (ev.handled body catchVar handler scope frame).Runs s path r t ↔
      (∃ outcome, r = .ok outcome ∧ ev.Settles body catchVar handler scope frame s path outcome t) ∨
        ∃ e, r = .error e ∧ ev.Unsettled body catchVar handler scope frame s path e t := by
  rw [Runs, handled_apply, Step.endsAlong_bind]
  constructor
  · rintro ⟨first, rest, outcome, u, rfl, hbody, hrest⟩
    by_cases hunhandled : ∀ e, outcome = .error e → handler = none ∨ e.fault.isCatchable = false
    · rw [afterBody_unhandled hunhandled] at hrest
      obtain ⟨rfl, rfl, rfl⟩ := Step.endsAlong_done.mp hrest
      rw [List.append_nil]
      exact .inl ⟨_, rfl, .body hbody hunhandled⟩
    · push Not at hunhandled
      obtain ⟨e, rfl, hsome, hcatchable⟩ := hunhandled
      obtain ⟨block, rfl⟩ := Option.ne_none_iff_exists'.mp hsome
      rw [ne_eq, Bool.not_eq_false] at hcatchable
      rw [afterBody_handled hcatchable] at hrest
      obtain ⟨inner, v, hentered⟩ | ⟨error, v, hrefused⟩ :=
        handler_entered_or_refused e catchVar scope u
      · rw [handle_entered hentered] at hrest
        obtain ⟨outcome, w, hrun, rfl, rfl⟩ := Step.endsAlong_bind_done.mp hrest
        exact .inl ⟨_, rfl, .handler hbody hcatchable rfl hentered hrun⟩
      · rw [handle_refused hrefused] at hrest
        obtain ⟨rfl, rfl, rfl⟩ := Step.endsAlong_done.mp hrest
        rw [List.append_nil]
        exact .inr ⟨_, rfl, .mk hbody hcatchable rfl hrefused⟩
  · rintro (⟨_, rfl, hsettles⟩ | ⟨_, rfl, hunsettled⟩)
    · cases hsettles with
      | body hbody hunhandled =>
        refine ⟨path, [], _, _, (List.append_nil _).symm, hbody, ?_⟩
        rw [afterBody_unhandled hunhandled]
        exact .done _ _
      | handler hbody hcatchable hhandler hentered hrun =>
        subst hhandler
        refine ⟨_, _, _, _, rfl, hbody, ?_⟩
        rw [afterBody_handled hcatchable, handle_entered hentered]
        exact Step.endsAlong_bind_done.mpr ⟨_, _, hrun, rfl, rfl⟩
    · obtain ⟨hbody, hcatchable, rfl, hrefused⟩ := hunsettled
      refine ⟨path, [], _, _, (List.append_nil _).symm, hbody, ?_⟩
      rw [afterBody_handled hcatchable, handle_refused hrefused]
      exact .done _ _

/-- What the last block of a `try` makes of the outcome before it. -/
theorem finish_some (last : Block) (outcome : Except EvalError Flow) (s : EngineState) :
    ev.finish (some last) scope frame outcome s =
      (ev.inner last scope frame (s.hold (.values (outcomeValues outcome)))).bind fun r t =>
        .done t.letGo (overridden outcome r) := by
  rw [finish, bind_apply, holding_apply, Step.bind_assoc]
  congr 1
  funext r t
  cases r with
  | error e => rfl
  | ok flow => cases flow <;> cases outcome <;> rfl

/-! ## The whole statement -/

/-- **The last block runs once the rest has ended.**  Let the body of a `try` end, in whatever way, and
also the handler of its error if there is one and it may take the error.  Then the last block is
entered right there, and when it ends so does the `try`.

So a `try` that ends has run its body, then the handler if it had to, and then its last block, once
each, and it gives what the last block gives if that fails or leaves, and otherwise the outcome before
it.  There is one exception: if the handler of an error cannot be entered, for want of a slot for its
scope or because its variable is no identifier, the `try` ends with that error and without its last
block. -/
theorem last_block_runs (run : RunId) (fuel : Nat) (body : Block) (catchVar : Option String)
    (handler : Option Block) (last : Block) (scope : ScopeId) (frame : FrameId) (s : EngineState) :
    (∀ path outcome t,
      (ofFuel run fuel).Settles body catchVar handler scope frame s path outcome t →
      ((ofFuel run fuel).tryCatch body catchVar handler (some last) scope frame s).follow path =
        ((ofFuel run fuel).inner last scope frame (t.hold (.values (outcomeValues outcome)))).bind
          fun r u => .done u.letGo (overridden outcome r)) ∧
    ∀ path r t,
      ((ofFuel run fuel).tryCatch body catchVar handler (some last) scope frame).Runs s path r t ↔
        (∃ first rest outcome u r' v, path = first ++ rest ∧
          (ofFuel run fuel).Settles body catchVar handler scope frame s first outcome u ∧
          ((ofFuel run fuel).inner last scope frame).Runs
            (u.hold (.values (outcomeValues outcome))) rest r' v ∧
          r = overridden outcome r' ∧ t = v.letGo) ∨
        ∃ e, (ofFuel run fuel).Unsettled body catchVar handler scope frame s path e t ∧
          r = .error e := by
  constructor
  · intro path outcome t hsettles
    have hhandled := runs_handled.mpr (.inl ⟨outcome, rfl, hsettles⟩)
    rw [tryCatch, bind_apply, hhandled.follow_bind]
    exact finish_some last outcome t
  · intro path r t
    rw [tryCatch, runs_bind]
    refine or_congr ⟨?_, ?_⟩ (exists_congr fun e => ?_)
    · rintro ⟨first, rest, outcome, u, rfl, hhandled, hfinish⟩
      obtain ⟨_, ⟨⟩, hsettles⟩ | ⟨_, ⟨⟩, -⟩ := runs_handled.mp hhandled
      rw [Runs, finish_some] at hfinish
      obtain ⟨r', v, hlast, rfl, rfl⟩ := Step.endsAlong_bind_done.mp hfinish
      exact ⟨first, rest, outcome, u, r', v, rfl, hsettles, hlast, rfl, rfl⟩
    · rintro ⟨first, rest, outcome, u, r', v, rfl, hsettles, hlast, rfl, rfl⟩
      refine ⟨first, rest, outcome, u, rfl, runs_handled.mpr (.inl ⟨outcome, rfl, hsettles⟩), ?_⟩
      rw [Runs, finish_some]
      exact Step.endsAlong_bind_done.mpr ⟨r', v, hlast, rfl, rfl⟩
    · rw [runs_handled]
      refine and_congr_left fun _ => ⟨?_, fun hunsettled => .inr ⟨e, rfl, hunsettled⟩⟩
      rintro (⟨_, ⟨⟩, -⟩ | ⟨_, ⟨⟩, hunsettled⟩)
      exact hunsettled

/-- A root scope without bindings, and a run without limits. -/
def unbound : EngineState :=
  { EngineState.initial with
    heap := { scopes := ({} : Store Scope).push {} }
    governors := ({} : Store Governor).push { limit := 0 }
    runs := ({} : Store Run).push ⟨0, ⟨0, 0, 0, 0⟩, 0, 0⟩ }

/-- `throw 1`. -/
def throwing : Block := [(StmtKind.throw (.int 1)).bare]

/-- `return 7`. -/
def returning : Block := [(StmtKind.ret [.int 7]).bare]

/-- `try { throw 1 } catch (e) { } finally { return 7 }` handles its error; then its last block is
entered, which returns. -/
theorem last_block_runs_handled :
    ∃ t, (ofFuel 0 12).Settles throwing (some "e") (some []) 0 0 unbound [] (.ok .unit) t ∧
      ((ofFuel 0 12).tryCatch throwing (some "e") (some []) (some returning) 0 0 unbound).follow [] =
        ((ofFuel 0 12).inner returning 0 0 (t.hold (.values [.nil]))).bind
          fun r u => .done u.letGo (overridden (.ok .unit) r) := by
  have hends : ((ofFuel 0 12).handled throwing (some "e") (some []) 0 0 unbound).endsWith
      (fun r => r.toOption.bind Except.toOption = some .unit) = true := by decide +kernel
  obtain ⟨t, r, hhandled, hr⟩ := Step.exists_of_endsWith hends
  obtain rfl : r = .ok (.ok .unit) := by
    rcases r with e | e | flow
    · cases hr
    · cases hr
    · exact congrArg (fun flow => Except.ok (Except.ok flow)) (Option.some.inj (of_decide_eq_true hr))
  obtain ⟨_, ⟨⟩, hsettles⟩ | ⟨_, ⟨⟩, -⟩ := runs_handled.mp ((runs_of_done hhandled).mpr ⟨rfl, rfl, rfl⟩)
  exact ⟨t, hsettles, (last_block_runs 0 12 _ _ _ returning _ _ _).1 _ _ _ hsettles⟩

/-- `try { throw 1 } catch (1x) { } finally { return 7 }`: the body ends with an error that may be
handled, but the statement then fails because of the name, and does not return. -/
theorem last_block_skipped :
    (∃ e t, ((ofFuel 0 12).inner throwing 0 0).Runs unbound [] (.error e) t ∧
      e.fault.isCatchable = true) ∧
    ∃ e t, ((ofFuel 0 12).tryCatch throwing (some "1x") (some []) (some returning) 0 0).Runs unbound []
        (.error e) t ∧ e.fault = .invalidOperation "invalid identifier '1x'" := by
  constructor
  · have hbody : ((ofFuel 0 12).inner throwing 0 0 unbound).fails (.thrown (.int 1)) = true := by
      decide +kernel
    obtain ⟨e, hruns, hthrown⟩ := runs_of_fails hbody
    exact ⟨e, _, hruns, hthrown ▸ rfl⟩
  · have hstmt : ((ofFuel 0 12).tryCatch throwing (some "1x") (some []) (some returning) 0 0
        unbound).fails (.invalidOperation "invalid identifier '1x'") = true := by
      decide +kernel
    obtain ⟨e, hruns, hfault⟩ := runs_of_fails hstmt
    exact ⟨e, _, hruns, hfault⟩

end Evaluator
end ScriptEngine
