import Mathlib.Logic.Function.Iterate
import ScriptEngine.Evaluator.Level
import ScriptEngine.Proofs.Task.Paths
import ScriptEngine.Proofs.Task.Rules

/-! # Rounds

A loop runs its rounds one after the other, until one of them ends the loop.  For each kind of loop
there is a relation that says which rounds are over, all of them such that the loop goes on, and what
is still to come: `Repeated` for loops that only count their rounds, `RowsDone` for those over rows,
`NumbersDone` for those over numbers, and `Received` for those over what a channel gives.

After these rounds the loop is the same loop, with what is still to come (`Repeated.leads` and its
like).  A loop of the first kind comes to an end with the round that ends it, and in no other way
(`runs_loop`).
-/
namespace ScriptEngine

namespace Eval

variable {s t u : EngineState} {path : List EngineState}

section
variable {round : Eval LoopStep}

/-- **So many rounds are over**, one after the other, and none of them has ended the loop. -/
inductive Repeated (round : Eval LoopStep) :
    Nat → EngineState → List EngineState → EngineState → Prop where
  | zero (s : EngineState) : Repeated round 0 s [] s
  | succ {count : Nat} {s t u : EngineState} {first path : List EngineState}
      (hround : round.Runs s first (.ok .next) t) (hrest : Repeated round count t path u) :
      Repeated round (count + 1) s (first ++ path) u

/-- What becomes of a loop after a round: nothing yet, or it ends. -/
def ended : Except EvalError LoopStep → Option (Except EvalError Flow)
  | .ok .next => none
  | .ok .exit => some (.ok .unit)
  | .ok (.leave flow) => some (.ok flow)
  | .error e => some (.error e)

/-- A round that does not end the loop is followed by the rest of the loop. -/
theorem leads_of_next {m : Eval LoopStep} (hm : m.Runs s path (.ok .next) t) (next : Eval Flow) :
    ((m >>= fun step => match step with
      | .next => next
      | .exit => return .unit
      | .leave flow => return flow) s).Leads path (next t) := by
  rw [bind_apply]
  exact Step.EndsAlong.leads_bind hm _

theorem Repeated.leads {count : Nat} (h : Repeated round count s path t) {rounds : Nat}
    (hrounds : count ≤ rounds) : (loop round rounds s).Leads path (loop round (rounds - count) t) := by
  induction h generalizing rounds with
  | zero s => exact .refl _
  | succ hround hrest ih =>
    obtain ⟨rounds, rfl⟩ := Nat.exists_eq_add_of_le' (Nat.lt_of_lt_of_le (Nat.succ_pos _) hrounds)
    rw [Nat.add_sub_add_right]
    exact (leads_of_next hround _).trans (ih (Nat.le_of_succ_le_succ hrounds))

/-- **A loop ends with a round that ends it**, after others that did not. -/
theorem runs_loop {rounds : Nat} {r : Except EvalError Flow} :
    (loop round rounds).Runs s path r t ↔
      ∃ count first rest u o, count < rounds ∧ path = first ++ rest ∧
        Repeated round count s first u ∧ round.Runs u rest o t ∧ ended o = some r := by
  constructor
  · intro h
    induction rounds generalizing s path with
    | zero => cases h
    | succ rounds ih =>
      obtain ⟨first, rest, step, u, rfl, hround, hrest⟩ | ⟨e, hround, rfl⟩ := runs_bind.mp h
      · cases step with
        | next =>
          obtain ⟨count, middle, last, v, o, hcount, rfl, hdone, hlast, ho⟩ := ih hrest
          exact ⟨count + 1, first ++ middle, last, v, o, Nat.succ_lt_succ hcount,
            (List.append_assoc _ _ _).symm, .succ hround hdone, hlast, ho⟩
        | exit =>
          obtain ⟨rfl, rfl, rfl⟩ := runs_pure.mp hrest
          exact ⟨0, [], first, s, _, Nat.succ_pos _, List.append_nil _, .zero s, hround, rfl⟩
        | leave flow =>
          obtain ⟨rfl, rfl, rfl⟩ := runs_pure.mp hrest
          exact ⟨0, [], first, s, _, Nat.succ_pos _, List.append_nil _, .zero s, hround, rfl⟩
      · exact ⟨0, [], path, s, _, Nat.succ_pos _, rfl, .zero s, hround, rfl⟩
  · rintro ⟨count, first, rest, u, o, hcount, rfl, hdone, hround, ho⟩
    refine (hdone.leads (Nat.le_of_lt hcount)).endsAlong_iff.mpr ?_
    obtain ⟨left, hleft⟩ := Nat.exists_eq_add_of_le' (Nat.sub_pos_of_lt hcount)
    rw [hleft]
    refine runs_bind.mpr ?_
    match o, ho with
    | .ok .exit, rfl | .ok (.leave flow), rfl =>
      exact .inl ⟨rest, [], _, t, (List.append_nil _).symm, hround, runs_pure.mpr ⟨rfl, rfl, rfl⟩⟩
    | .error e, rfl => exact .inr ⟨e, hround, rfl⟩

end

section
variable {pick : Value × Value → List Value} {round : List Value → Eval LoopStep}

/-- **The rounds for some of the rows are over**, and these rows are still to come. -/
inductive RowsDone (pick : Value × Value → List Value) (round : List Value → Eval LoopStep) :
    List (Value × Value) → EngineState → List EngineState → List (Value × Value) → EngineState →
      Prop where
  | none (rows : List (Value × Value)) (s : EngineState) : RowsDone pick round rows s [] rows s
  | row {row : Value × Value} {rows left : List (Value × Value)} {s t u : EngineState}
      {first path : List EngineState}
      (hround : (holding (.rows rows) (round (pick row))).Runs s first (.ok .next) t)
      (hrest : RowsDone pick round rows t path left u) :
      RowsDone pick round (row :: rows) s (first ++ path) left u

theorem RowsDone.leads {rows left : List (Value × Value)}
    (h : RowsDone pick round rows s path left t) :
    (forRows pick round rows s).Leads path (forRows pick round left t) := by
  induction h with
  | none rows s => exact .refl _
  | row hround hrest ih => exact (leads_of_next hround _).trans ih

/-- The value that a loop over numbers binds. -/
def numberRow (i : Nat) : List Value := [.int (Int64.ofNat i), .int (Int64.ofNat i)]

/-- **The rounds for some numbers are over**, from `i` on; the next one is for `j`. -/
inductive NumbersDone (round : List Value → Eval LoopStep) :
    (i : Nat) → EngineState → List EngineState → (j : Nat) → EngineState → Prop where
  | none (i : Nat) (s : EngineState) : NumbersDone round i s [] i s
  | number {i j : Nat} {s t u : EngineState} {first path : List EngineState}
      (hround : (round (numberRow i)).Runs s first (.ok .next) t)
      (hrest : NumbersDone round (i + 1) t path j u) : NumbersDone round i s (first ++ path) j u

theorem NumbersDone.le {i j : Nat} (h : NumbersDone round i s path j t) : i ≤ j := by
  induction h with
  | none i s => exact Nat.le_refl _
  | number hround hrest ih => exact Nat.le_of_succ_le ih

theorem NumbersDone.leads {i j : Nat} (h : NumbersDone round i s path j t) {n : Nat} (hn : j ≤ n) :
    (forCount round (n - i) i s).Leads path (forCount round (n - j) j t) := by
  induction h with
  | none i s => exact .refl _
  | @number i j s t u first path hround hrest ih =>
    have hcount : n - i = n - (i + 1) + 1 := by
      have := hrest.le
      omega
    rw [hcount]
    exact (leads_of_next hround _).trans (ih hn)

variable {chan : ChanId} {signal : SignalId} {waits : Nat}

/-- **Some values have been received, each with a round that is over**, and so many rounds are still to
come. -/
inductive Received (chan : ChanId) (signal : SignalId) (waits : Nat)
    (round : List Value → Eval LoopStep) :
    (rounds : Nat) → EngineState → List EngineState → (left : Nat) → EngineState → Prop where
  | none (rounds : Nat) (s : EngineState) : Received chan signal waits round rounds s [] rounds s
  | value {rounds left : Nat} {v : Value} {s t u w : EngineState} {first middle path : List EngineState}
      (hrecv : (recv waits chan signal).Runs s first (.ok (v, true)) t)
      (hround : (round [v]).Runs t middle (.ok .next) u)
      (hrest : Received chan signal waits round rounds u path left w) :
      Received chan signal waits round (rounds + 1) s (first ++ middle ++ path) left w

/-- A value has been received: its round follows. -/
theorem leads_of_received {rounds : Nat} {v : Value}
    (hrecv : (recv waits chan signal).Runs s path (.ok (v, true)) t) :
    (forReceived chan signal waits round (rounds + 1) s).Leads path
      ((round [v] >>= fun step => match step with
        | .next => forReceived chan signal waits round rounds
        | .exit => return .unit
        | .leave flow => return flow) t) := by
  rw [forReceived, bind_apply]
  exact Step.EndsAlong.leads_bind hrecv _

theorem Received.leads {rounds left : Nat} (h : Received chan signal waits round rounds s path left t) :
    (forReceived chan signal waits round rounds s).Leads path
      (forReceived chan signal waits round left t) := by
  induction h with
  | none rounds s => exact .refl _
  | value hrecv hround hrest ih =>
    exact ((leads_of_received hrecv).trans (leads_of_next hround _)).trans ih

end

/-- A scope is opened at once, or not at all. -/
theorem runs_openScope {parent : ScopeId} {r : Except EvalError ScopeId} :
    (openScope parent).Runs s path r t ↔ path = [] ∧ openScope parent s = .done t r := by
  constructor
  · intro h
    rw [openScope_apply]
    rw [Runs, openScope_apply] at h
    cases hslot : (s.addChild parent).1 with
    | ok scope =>
      rw [hslot] at h
      obtain ⟨rfl, rfl, rfl⟩ := Step.endsAlong_done.mp h
      exact ⟨rfl, rfl⟩
    | error e =>
      obtain ⟨limit, rfl⟩ := EngineState.addChild_error hslot
      rw [hslot] at h
      obtain ⟨rfl, rfl, rfl⟩ := Step.endsAlong_done.mp h
      exact ⟨rfl, rfl⟩
  · rintro ⟨rfl, h⟩
    exact (runs_of_done h).mpr ⟨rfl, rfl, rfl⟩

end Eval

namespace Evaluator

open Eval

theorem ofFuel_run (run : RunId) (fuel : Nat) : (ofFuel run fuel).run = run := by
  cases fuel <;> rfl

/-- A statement is a checkpoint, and then what it does, with a place for its errors. -/
theorem ofFuel_stmt (run : RunId) (fuel : Nat) (stmt : Stmt) (scope : ScopeId) (frame : FrameId) :
    (ofFuel run (fuel + 1)).stmt stmt scope frame = (do
      checkpoint run
      located stmt.pos ((ofFuel run fuel).dispatchStmt scope frame stmt.kind)) := by
  show (ofFuel run fuel).evalStmt stmt scope frame = _
  rw [evalStmt, ofFuel_run]

/-! ## How a loop begins -/

/-- **The first clause has been evaluated**, if there is one. What it ends with is dropped. -/
inductive ClauseDone (ev : Evaluator) (scope : ScopeId) (frame : FrameId) :
    Option Stmt → EngineState → List EngineState → EngineState → Prop where
  | none (s : EngineState) : ClauseDone ev scope frame none s [] s
  | some {init : Stmt} {flow : Flow} {s t : EngineState} {path : List EngineState}
    (h : (ev.stmt init scope frame).Runs s path (.ok flow) t) :
    ClauseDone ev scope frame (some init) s path t

/-- **The loop has a scope for its first clause**: a new one that it holds if the clause declares
variables, and otherwise the one that it stands in. The number tells how many things are held. -/
inductive ClauseScope (scope : ScopeId) (init : Option Stmt) (s : EngineState) :
    ScopeId → EngineState → (held : Nat) → Prop where
  | around (h : declares init = false) : ClauseScope scope init s scope s 0
  | new {inner : ScopeId} {t : EngineState} (h : declares init = true)
    (hopen : openScope scope s = .done t (.ok inner)) :
    ClauseScope scope init s inner (t.hold (.block inner)) 1

variable (ev : Evaluator) (scope : ScopeId) (frame : FrameId)

/-- **The loop comes to its rounds**: along this path it does what is done once, at the beginning. -/
inductive Begins (s : EngineState) :
    StmtKind → List EngineState → Eval LoopStep → EngineState → (held : Nat) → Prop where
  | bare {condition : Option Expr} {body : Block} :
    Begins s (.loop condition body) [] (ev.conditional condition body scope frame) s 0
  | clauses {init post : Option Stmt} {condition : Option Expr} {body : Block} {inner : ScopeId}
    {t u : EngineState} {held : Nat} {path : List EngineState}
    (hscope : ClauseScope scope init s inner t held) (hinit : ev.ClauseDone inner frame init t path u) :
    Begins s (.forClause init condition post body) path
      (ev.clauseRound condition post body inner frame) u held

/-- **Something inside the loop fails**: what is done at the beginning, or a round after so many others
that have ended well. -/
inductive FailsInside (s : EngineState) : StmtKind → List EngineState → EvalError → EngineState → Prop where
  /-- There is no scope for the first clause. -/
  | scope {init post : Option Stmt} {condition : Option Expr} {body : Block} {e : EvalError}
    {t : EngineState} (hdeclares : declares init = true)
    (hopen : (openScope scope).Runs s [] (.error e) t) :
    FailsInside s (.forClause init condition post body) [] e t
  /-- The first clause fails. -/
  | init {init : Stmt} {post : Option Stmt} {condition : Option Expr} {body : Block}
    {inner : ScopeId} {t u : EngineState} {held : Nat} {path : List EngineState} {e : EvalError}
    (hscope : ClauseScope scope (some init) s inner t held)
    (hinit : (ev.stmt init inner frame).Runs t path (.error e) u) :
    FailsInside s (.forClause (some init) condition post body) path e (EngineState.letGo^[held] u)
  /-- A round fails. -/
  | round {kind : StmtKind} {round : Eval LoopStep} {first middle last : List EngineState}
    {t u v : EngineState} {held count : Nat} {e : EvalError}
    (hbegins : ev.Begins scope frame s kind first round t held) (hrounds : Repeated round count t middle u)
    (hround : round.Runs u last (.error e) v) :
    FailsInside s kind (first ++ middle ++ last) e (EngineState.letGo^[held] v)

variable {ev scope frame}

/-- After its beginning a loop is its rounds. -/
theorem Begins.leads {kind : StmtKind} {s t : EngineState} {path : List EngineState}
    {round : Eval LoopStep} {held : Nat} (h : ev.Begins scope frame s kind path round t held) :
    (ev.dispatchStmt scope frame kind s).Leads path
      ((loop round ev.rounds t).bind fun r u => .done (EngineState.letGo^[held] u) r) := by
  cases h with
  | bare => exact (Step.bind_done _).symm ▸ .refl _
  | @clauses init post condition body inner u _ _ _ hscope hinit =>
    have hloop : (ev.clauseLoop init condition post body inner frame u).Leads path
        (loop (ev.clauseRound condition post body inner frame) ev.rounds t) := by
      cases hinit with
      | none => exact .refl _
      | some h =>
        rw [clauseLoop, bind_apply]
        exact h.leads_bind _
    show (ev.forClause init condition post body scope frame s).Leads path _
    cases hscope with
    | around h =>
      rw [forClause, h, if_neg Bool.false_ne_true]
      exact (Step.bind_done _).symm ▸ hloop
    | new h hopen =>
      rw [forClause, h, if_pos rfl, inChild, bind_apply, hopen, Step.bind_of_done, andThen_ok,
        holding_apply]
      exact hloop.bind _

/-- A loop with clauses, in its scope, evaluates the first clause and then runs its rounds. -/
theorem runs_clauseLoop {init post : Option Stmt} {condition : Option Expr} {body : Block}
    {s t : EngineState} {path : List EngineState} {r : Except EvalError Flow}
    (h : (ev.clauseLoop init condition post body scope frame).Runs s path r t) :
    (∃ stmt e, init = some stmt ∧ (ev.stmt stmt scope frame).Runs s path (.error e) t ∧
      r = .error e) ∨
    ∃ first rest u, path = first ++ rest ∧ ev.ClauseDone scope frame init s first u ∧
      (loop (ev.clauseRound condition post body scope frame) ev.rounds).Runs u rest r t := by
  cases init with
  | none => exact .inr ⟨[], path, s, rfl, .none s, h⟩
  | some stmt =>
    obtain ⟨first, rest, flow, u, rfl, hstmt, hloop⟩ | ⟨e, hstmt, rfl⟩ := runs_bind.mp h
    · exact .inr ⟨first, rest, u, rfl, .some hstmt, hloop⟩
    · exact .inl ⟨stmt, e, rfl, hstmt, rfl⟩

/-- A loop fails before its rounds, or it comes to them and ends with them. -/
theorem runs_forClause {init post : Option Stmt} {condition : Option Expr} {body : Block}
    {s t : EngineState} {path : List EngineState} {r : Except EvalError Flow}
    (h : (ev.forClause init condition post body scope frame).Runs s path r t) :
    (∃ e, r = .error e ∧
      ev.FailsInside scope frame s (.forClause init condition post body) path e t) ∨
    ∃ first rest round u held v, path = first ++ rest ∧
      ev.Begins scope frame s (.forClause init condition post body) first round u held ∧
      (loop round ev.rounds).Runs u rest r v ∧ t = EngineState.letGo^[held] v := by
  -- what follows once there is a scope for the first clause
  have hscoped {inner : ScopeId} {u v : EngineState} {held : Nat}
      (hscope : ClauseScope scope init s inner u held)
      (h : (ev.clauseLoop init condition post body inner frame).Runs u path r v) :
      (∃ e, r = .error e ∧ ev.FailsInside scope frame s (.forClause init condition post body) path e
        (EngineState.letGo^[held] v)) ∨
      ∃ first rest round w held' v', path = first ++ rest ∧
        ev.Begins scope frame s (.forClause init condition post body) first round w held' ∧
        (loop round ev.rounds).Runs w rest r v' ∧
        EngineState.letGo^[held] v = EngineState.letGo^[held'] v' := by
    obtain ⟨stmt, e, rfl, hstmt, rfl⟩ | ⟨first, rest, w, rfl, hinit, hloop⟩ := runs_clauseLoop h
    · exact .inl ⟨e, rfl, .init hscope hstmt⟩
    · exact .inr ⟨first, rest, _, w, held, v, rfl, .clauses hscope hinit, hloop, rfl⟩
  unfold forClause at h
  split at h
  · rename_i hdeclares
    obtain ⟨first, rest, inner, u, rfl, hopen, hrest⟩ | ⟨e, hopen, rfl⟩ := runs_bind.mp h
    · obtain ⟨rfl, hdone⟩ := runs_openScope.mp hopen
      obtain ⟨v, hclauses, rfl⟩ := runs_holding.mp hrest
      exact hscoped (.new hdeclares hdone) hclauses
    · obtain ⟨rfl, hdone⟩ := runs_openScope.mp hopen
      exact .inl ⟨e, rfl, .scope hdeclares hopen⟩
  · rename_i hdeclares
    exact hscoped (.around (Bool.eq_false_iff.mpr hdeclares)) h

end Evaluator
end ScriptEngine
