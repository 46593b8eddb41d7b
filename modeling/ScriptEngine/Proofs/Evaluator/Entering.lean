import ScriptEngine.Proofs.Evaluator.Rounds
import ScriptEngine.Proofs.LastBlocks

/-! # How statements come to their blocks

Most statements are there to run a block: a branch, a case, the body of a loop in one of its rounds, the
body or the handler of a `try`.  `Evaluator.Enters` says, for each of them, along which path a statement
comes to which of its blocks, in which scope and in which state, and how many things it holds then.

What the statement then makes of a `return` of that block is the same for all of them: it **relays** it
(`Step.Relays`).  It does nothing more but let go of what it holds, and ends with the same `return`.  The
one exception are `try` statements with a last block, which are not treated here; and the clauses around
the body of a loop are no blocks.
-/
namespace ScriptEngine

open Eval

variable {α β γ : Type}

/-! ## Relaying -/

namespace Step

/-- **The step relays an outcome.**  Along the path it comes to `y`, and if `y` ends with `g v` it ends
there and then with `f v`, having let go of `held` things. -/
def Relays (x : Step (Except EvalError α)) (f : Value → α) (path : List EngineState)
    (y : Step (Except EvalError β)) (g : Value → β) (held : Nat) : Prop :=
  ∃ k : Except EvalError β → EngineState → Step (Except EvalError α), x.Leads path (y.bind k) ∧
    ∀ v t, k (.ok (g v)) t = .done (EngineState.letGo^[held] t) (.ok (f v))

namespace Relays
variable {x x' : Step (Except EvalError α)} {f : Value → α} {y : Step (Except EvalError β)}
  {g : Value → β} {z : Step (Except EvalError γ)} {h : Value → γ} {path rest : List EngineState}
  {held more : Nat}

theorem refl (x : Step (Except EvalError α)) : x.Relays f [] x f 0 :=
  ⟨fun r t => .done t r, (bind_done x).symm ▸ .refl x, fun _ _ => rfl⟩

theorem trans (hx : x.Relays f path y g held) (hy : y.Relays g rest z h more) :
    x.Relays f (path ++ rest) z h (held + more) := by
  obtain ⟨k, hleads, hk⟩ := hx
  obtain ⟨k', hleads', hk'⟩ := hy
  refine ⟨fun r t => (k' r t).bind k, ?_, fun v t => ?_⟩
  · rw [← bind_assoc]
    exact hleads.trans (hleads'.bind k)
  · show (k' (.ok (h v)) t).bind k = _
    rw [hk', bind_of_done, hk, Function.iterate_add_apply]

theorem after_leads (hleads : x.Leads path x') (hx : x'.Relays f rest y g held) :
    x.Relays f (path ++ rest) y g held := by
  obtain ⟨k, hleads', hk⟩ := hx
  exact ⟨k, hleads.trans hleads', hk⟩

/-- What is relayed ends the step. -/
theorem endsAlong (hx : x.Relays f path y g held) {v : Value} {t : EngineState}
    (hy : y.EndsAlong rest (.ok (g v)) t) :
    x.EndsAlong (path ++ rest) (.ok (f v)) (EngineState.letGo^[held] t) := by
  obtain ⟨k, hleads, hk⟩ := hx
  have hdone : (k (.ok (g v)) t).EndsAlong [] (.ok (f v)) (EngineState.letGo^[held] t) := by
    rw [hk]
    exact .done _ _
  have hends := hy.bind hdone
  rw [List.append_nil] at hends
  exact hleads.endsAlong_iff.mpr hends

end Relays
end Step

namespace Eval
variable {m : Eval α} {s t : EngineState} {path rest : List EngineState} {f : Value → α}
  {y : Step (Except EvalError γ)} {h : Value → γ} {held : Nat}

/-- Where evaluation is after something else. -/
theorem Runs.leads {a : α} (hm : m.Runs s path (.ok a) t) {k : α → Eval β}
    {z : Step (Except EvalError β)} (hk : k a t = z) : ((m >>= k) s).Leads path z := by
  rw [bind_apply, ← hk]
  exact hm.leads_bind _

/-- What comes after something else. -/
theorem Runs.relays {a : α} (hm : m.Runs s path (.ok a) t) {k : α → Eval β} {g : Value → β}
    (hk : (k a t).Relays g rest y h held) : ((m >>= k) s).Relays g (path ++ rest) y h held :=
  .after_leads (hm.leads rfl) hk

/-- The path is that of what comes first. -/
theorem Runs.relays_nil {a : α} (hm : m.Runs s path (.ok a) t) {k : α → Eval β} {g : Value → β}
    (hk : (k a t).Relays g [] y h held) : ((m >>= k) s).Relays g path y h held :=
  List.append_nil path ▸ hm.relays hk

/-- What is done at once with the value of an evaluation. -/
theorem relays_bind (hm : (m s).Relays f path y h held) {k : α → Eval β} {g : Value → β}
    (hk : ∀ v t, k (f v) t = .done t (.ok (g v))) : ((m >>= k) s).Relays g path y h held := by
  obtain ⟨k', hleads, hk'⟩ := hm
  refine ⟨fun r t => (k' r t).bind (andThen k), ?_, fun v t => ?_⟩
  · rw [bind_apply, ← Step.bind_assoc]
    exact hleads.bind _
  · show (k' (.ok (h v)) t).bind _ = _
    rw [hk', Step.bind_of_done, andThen_ok, hk]

theorem relays_holding {x : Holding} (hm : (m (s.hold x)).Relays f path y h held) :
    (holding x m s).Relays f path y h (held + 1) := by
  obtain ⟨k, hleads, hk⟩ := hm
  refine ⟨fun r t => (k r t).bind fun r t => .done t.letGo r, ?_, fun v t => ?_⟩
  · rw [holding_apply, ← Step.bind_assoc]
    exact hleads.bind _
  · show (k (.ok (h v)) t).bind _ = _
    rw [hk, Step.bind_of_done, Function.iterate_succ_apply']

theorem relays_located {p : Position} (hm : (m s).Relays f path y h held) :
    (located p m s).Relays f path y h held := by
  obtain ⟨k, hleads, hk⟩ := hm
  refine ⟨fun r t => (k r t).bind fun r t => .done t (r.mapError (·.locate p)), ?_, fun v t => ?_⟩
  · rw [located_apply, ← Step.bind_assoc]
    exact hleads.bind _
  · show (k (.ok (h v)) t).bind _ = _
    rw [hk]
    rfl

/-- A case takes a `break` of its block, but lets a `return` pass. -/
theorem relays_consumed {m : Eval Flow} (hm : (m s).Relays .ret path y h held) :
    ((do return (← m).consumeBreak : Eval Flow) s).Relays .ret path y h held :=
  relays_bind hm fun _ _ => rfl

/-- A round whose block returns leaves the loop. -/
theorem relays_loopStep {m : Eval Flow} (hm : (m s).Relays .ret path y h held) :
    ((do return (← m).loopStep : Eval LoopStep) s).Relays (.leave ∘ .ret) path y h held :=
  relays_bind hm fun _ _ => rfl

/-- A loop that is left in this round. -/
theorem relays_round {m : Eval LoopStep} (hm : (m s).Relays (.leave ∘ .ret) path y h held)
    (next : Eval Flow) :
    ((m >>= fun step => match step with
      | .next => next
      | .exit => return .unit
      | .leave flow => return flow) s).Relays .ret path y h held :=
  relays_bind hm fun _ _ => rfl

end Eval

/-! ## Rows -/

/-- What an iteration over this value goes through, as it is now. -/
def Heap.rows (h : Heap) : Value → Option (List (Value × Value))
  | .list id => some (numbered (h.list id).items.toList)
  | .map id => some ((h.map id).entries.map fun (k, v) => (k.toValue, v))
  | .str s => some (numbered (s.toList.map fun c => .str (String.ofList [c])))
  | _ => none

/-- What is bound of a row: both parts, or of a map the key, and otherwise the item. -/
def pickRow (pair : Bool) (iterated : Value) : Value × Value → List Value
  | (k, v) =>
    if pair then [k, v] else
      match iterated with
      | .map _ => [k]
      | _ => [v]

namespace Evaluator

variable {ev : Evaluator} {scope inner : ScopeId} {frame : FrameId} {s t u w : EngineState}
  {path first rest middle : List EngineState}

/-- **A round is entered**: past the checkpoint and the condition. -/
inductive RoundEntered (ev : Evaluator) (condition : Option Expr) (scope : ScopeId) (s : EngineState) :
    List EngineState → EngineState → Prop where
  | mk {first rest : List EngineState} {t u : EngineState}
    (hcheck : (checkpoint ev.run).Runs s first (.ok ()) t)
    (hholds : (ev.holds condition scope).Runs t rest (.ok true) u) :
    RoundEntered ev condition scope s (first ++ rest) u

/-- **A round for a row is entered**, in a scope in which the row is bound. -/
inductive RowEntered (ev : Evaluator) (vars : List String) (scope : ScopeId) (row : List Value)
    (s : EngineState) : List EngineState → ScopeId → EngineState → Prop where
  | mk {path : List EngineState} {inner : ScopeId} {t u w : EngineState}
    (hcheck : (checkpoint ev.run).Runs (s.hold (.values row)) path (.ok ()) t)
    (hopen : openScope scope t = .done u (.ok inner))
    (hbound : (defineAll inner (vars.zip row)).Runs (u.letGo.hold (.block inner)) [] (.ok ()) w) :
    RowEntered ev vars scope row s path inner w

/-- The operation that a `select` takes, if it takes one. -/
def chosenCase (ev : Evaluator) (ops : List (ChanId × Option Value)) (default : Option Block) :
    Eval (Option (Nat × Option (Value × Bool))) := do
  let signal ← signalOf ev.run
  receivingAll (if default.isNone then receiverChannels ops else [])
    (awaitCase ops default.isSome signal ev.rounds)

/-- **The statement comes to a block** that it runs in a scope of its own, in this scope. -/
inductive EntersInner (ev : Evaluator) (scope : ScopeId) (frame : FrameId) (s : EngineState) :
    StmtKind → List EngineState → Block → ScopeId → EngineState → (held : Nat) → Prop where
  | block {body : Block} : EntersInner ev scope frame s (.block body) [] body scope s 0
  | thenBlock {condition : Expr} {body : Block} {elseBlock : Option Block} {v : Value}
    {path : List EngineState} {t : EngineState}
    (hcondition : (ev.expr condition scope).Runs s path (.ok v) t) (htrue : t.heap.truthy v = true) :
    EntersInner ev scope frame s (.ifElse condition body elseBlock) path body scope t 0
  | elseBlock {condition : Expr} {thenBlock body : Block} {v : Value} {path : List EngineState}
    {t : EngineState} (hcondition : (ev.expr condition scope).Runs s path (.ok v) t)
    (hfalse : t.heap.truthy v = false) :
    EntersInner ev scope frame s (.ifElse condition thenBlock (some body)) path body scope t 0
  | switchCase {discriminant : Expr} {cases : List SwitchCase} {default : Option Block}
    {subject candidate : Value} {body : Block} {first rest : List EngineState} {t u : EngineState}
    (hsubject : (ev.expr discriminant scope).Runs s first (.ok subject) t)
    (hcase : (ev.matchingCase subject scope cases).Runs (t.hold (.value subject)) rest
      (.ok (some (candidate, body))) u) :
    EntersInner ev scope frame s (.switch discriminant cases default) (first ++ rest) body scope
      (u.hold (.value candidate)) 2
  | switchDefault {discriminant : Expr} {cases : List SwitchCase} {subject : Value} {body : Block}
    {first rest : List EngineState} {t u : EngineState}
    (hsubject : (ev.expr discriminant scope).Runs s first (.ok subject) t)
    (hcase : (ev.matchingCase subject scope cases).Runs (t.hold (.value subject)) rest (.ok none) u) :
    EntersInner ev scope frame s (.switch discriminant cases (some body)) (first ++ rest) body scope
      u 1
  | selectDefault {cases : List SelectCase} {body : Block} {ops : List (ChanId × Option Value)}
    {first rest : List EngineState} {t u : EngineState}
    (hops : (ev.prepareCases scope cases).Runs s first (.ok ops) t)
    (hchosen : (ev.chosenCase ops (some body)).Runs (t.hold (.values (ops.flatMap caseValues))) rest
      (.ok none) u) :
    EntersInner ev scope frame s (.select cases (some body)) (first ++ rest) body scope u 1
  /-- In the round after so many others. -/
  | loop {condition : Option Expr} {body : Block} {count : Nat} {first rest : List EngineState}
    {t u : EngineState}
    (hrounds : Repeated (ev.conditional condition body scope frame) count s first t)
    (hcount : count < ev.rounds) (hround : ev.RoundEntered condition scope t rest u) :
    EntersInner ev scope frame s (.loop condition body) (first ++ rest) body scope u 0
  | clauses {init post : Option Stmt} {condition : Option Expr} {body : Block} {inner : ScopeId}
    {count held : Nat} {first middle rest : List EngineState} {t u w : EngineState}
    (hbegins : ev.Begins scope frame s (.forClause init condition post body) first
      (ev.clauseRound condition post body inner frame) t held)
    (hrounds : Repeated (ev.clauseRound condition post body inner frame) count t middle u)
    (hcount : count < ev.rounds) (hround : ev.RoundEntered condition inner u rest w) :
    EntersInner ev scope frame s (.forClause init condition post body) (first ++ middle ++ rest) body
      inner w held
  /-- The body of a `try` without last block. -/
  | tryBody {body : Block} {catchVar : Option String} {handler : Option Block} :
    EntersInner ev scope frame s (.tryCatch body catchVar handler none) [] body scope s 0

/-- **The statement comes to a block** that it runs in this scope, which it has opened and in which it
has bound what the block may refer to. -/
inductive EntersBlock (ev : Evaluator) (scope : ScopeId) (frame : FrameId) (s : EngineState) :
    StmtKind → List EngineState → Block → ScopeId → EngineState → (held : Nat) → Prop where
  | selectCase {cases : List SelectCase} {default : Option Block} {c : SelectCase} {index : Nat}
    {received : Option (Value × Bool)} {ops : List (ChanId × Option Value)} {inner : ScopeId}
    {first rest : List EngineState} {t u v w : EngineState}
    (hops : (ev.prepareCases scope cases).Runs s first (.ok ops) t)
    (hchosen : (ev.chosenCase ops default).Runs (t.hold (.values (ops.flatMap caseValues))) rest
      (.ok (some (index, received))) u)
    (hcase : cases[index]? = some c)
    (hopen : openScope scope (u.hold (.values (received.toList.map (·.1)))) = .done v (.ok inner))
    (hbound : (defineAll inner (c.received received)).Runs (v.letGo.hold (.block inner)) [] (.ok ()) w) :
    EntersBlock ev scope frame s (.select cases default) (first ++ rest) c.body inner w 2
  /-- For a row, after those before it. -/
  | row {vars : List String} {iterable : Expr} {body : Block} {iterated : Value} {inner : ScopeId}
    {rows left : List (Value × Value)} {row : Value × Value}
    {first middle rest : List EngineState} {t u w : EngineState}
    (hvars : vars.length = 1 ∨ vars.length = 2)
    (hiterable : (ev.expr iterable scope).Runs s first (.ok iterated) t)
    (hrows : t.heap.rows iterated = some rows)
    (hrounds : RowsDone (pickRow (decide (vars.length = 2)) iterated)
      (ev.iteration vars body scope frame) rows t middle (row :: left) u)
    (hround : ev.RowEntered vars scope (pickRow (decide (vars.length = 2)) iterated row)
      (u.hold (.rows left)) rest inner w) :
    EntersBlock ev scope frame s (.forIn vars iterable body) (first ++ middle ++ rest) body inner w 2
  /-- For a number, after those before it. -/
  | number {vars : List String} {iterable : Expr} {body : Block} {n : Int64} {inner : ScopeId}
    {i : Nat} {first middle rest : List EngineState} {t u w : EngineState}
    (hvars : vars.length = 1 ∨ vars.length = 2)
    (hiterable : (ev.expr iterable scope).Runs s first (.ok (.int n)) t)
    (hrounds : NumbersDone (ev.iteration vars body scope frame) 0 t middle i u)
    (hi : i < n.toInt.toNat) (hround : ev.RowEntered vars scope (numberRow i) u rest inner w) :
    EntersBlock ev scope frame s (.forIn vars iterable body) (first ++ middle ++ rest) body inner w 1
  /-- For a value that has been received, after those before it. -/
  | received {vars : List String} {iterable : Expr} {body : Block} {chan : ChanId} {inner : ScopeId}
    {v : Value} {left : Nat} {first middle next rest : List EngineState} {t u u' w : EngineState}
    (hvars : vars.length = 1)
    (hiterable : (ev.expr iterable scope).Runs s first (.ok (.chan chan)) t)
    (hrounds : Received chan (t.run ev.run).signal ev.rounds (ev.iteration vars body scope frame)
      ev.rounds (t.hold (.value (.chan chan))) middle (left + 1) u)
    (hnext : (recv ev.rounds chan (t.run ev.run).signal).Runs u next (.ok (v, true)) u')
    (hround : ev.RowEntered vars scope [v] u' rest inner w) :
    EntersBlock ev scope frame s (.forIn vars iterable body) (first ++ middle ++ next ++ rest) body
      inner w 2
  /-- The handler of a `try` without last block. -/
  | handler {body block : Block} {catchVar : Option String} {e : EvalError} {inner : ScopeId}
    {path : List EngineState} {t u : EngineState}
    (hbody : (ev.inner body scope frame).Runs s path (.error e) t)
    (hcatchable : e.fault.isCatchable = true)
    (hentered : HandlerEntered e catchVar scope t inner u) :
    EntersBlock ev scope frame s (.tryCatch body catchVar (some block) none) path block inner u 2

/-! ## Statements relay a `return` of their blocks -/

theorem RoundEntered.relays {condition : Option Expr} {body : Block}
    (h : ev.RoundEntered condition scope s path t) :
    (ev.conditional condition body scope frame s).Relays (.leave ∘ .ret) path
      (ev.inner body scope frame t) .ret 0 := by
  obtain ⟨hcheck, hholds⟩ := h
  refine hcheck.relays (hholds.relays_nil ?_)
  exact relays_loopStep (.refl _)

theorem RowEntered.relays {vars : List String} {row : List Value} {body : Block}
    (h : ev.RowEntered vars scope row s path inner t) :
    (ev.iteration vars body scope frame row s).Relays (.leave ∘ .ret) path
      (ev.block body inner frame t) .ret 1 := by
  obtain ⟨hcheck, hopen, hbound⟩ := h
  rename_i u v
  have hopened : (Eval.holding (.values row) do
      checkpoint ev.run
      openScope scope).Runs s path (.ok inner) v.letGo := by
    refine runs_holding.mpr ⟨v, runs_bind.mpr (.inl ⟨path, [], (), u, ?_, hcheck, ?_⟩), rfl⟩
    · rw [List.append_nil]
    · exact runs_openScope.mpr ⟨rfl, hopen⟩
  refine hopened.relays_nil (relays_holding (hbound.relays_nil ?_))
  exact relays_loopStep (.refl _)

/-- A round of a loop with clauses leaves the loop without the statement after it. -/
theorem RoundEntered.relays_clauseRound {condition : Option Expr} {post : Option Stmt} {body : Block}
    (h : ev.RoundEntered condition scope s path t) :
    (ev.clauseRound condition post body scope frame s).Relays (.leave ∘ .ret) path
      (ev.inner body scope frame t) .ret 0 :=
  relays_bind h.relays fun _ _ => by cases post <;> rfl

/-- A loop whose next round relays a `return` does so as well. -/
theorem relays_loop {round : Eval LoopStep} {y : Step (Except EvalError Flow)} {rounds held : Nat}
    (hrounds : 0 < rounds) (hround : (round s).Relays (.leave ∘ .ret) path y .ret held) :
    (loop round rounds s).Relays .ret path y .ret held := by
  obtain ⟨rounds, rfl⟩ := Nat.exists_eq_add_of_le' hrounds
  exact relays_round hround (loop round rounds)

@[inherit_doc relays_loop]
theorem relays_count {round : List Value → Eval LoopStep} {y : Step (Except EvalError Flow)}
    {count i held : Nat} (hcount : 0 < count)
    (hround : (round (numberRow i) s).Relays (.leave ∘ .ret) path y .ret held) :
    (forCount round count i s).Relays .ret path y .ret held := by
  obtain ⟨count, rfl⟩ := Nat.exists_eq_add_of_le' hcount
  exact relays_round hround (forCount round count (i + 1))

theorem runs_truthy (v : Value) (s : EngineState) :
    (truthy v).Runs s [] (.ok (s.heap.truthy v)) s :=
  (runs_of_done rfl).mpr ⟨rfl, rfl, rfl⟩

theorem runs_signalOf (run : RunId) (s : EngineState) :
    (signalOf run).Runs s [] (.ok (s.run run).signal) s :=
  (runs_of_done rfl).mpr ⟨rfl, rfl, rfl⟩

theorem EntersInner.relays {kind : StmtKind} {body : Block} {held : Nat}
    (h : ev.EntersInner scope frame s kind path body inner t held) :
    (ev.dispatchStmt scope frame kind s).Relays .ret path (ev.inner body inner frame t) .ret held := by
  cases h with
  | block => exact .refl _
  | thenBlock hcondition htrue =>
    refine hcondition.relays_nil ((htrue ▸ runs_truthy _ t).relays_nil ?_)
    exact .refl _
  | elseBlock hcondition hfalse =>
    refine hcondition.relays_nil ((hfalse ▸ runs_truthy _ t).relays_nil ?_)
    exact .refl _
  | switchCase hsubject hcase =>
    refine hsubject.relays (relays_holding (hcase.relays_nil ?_))
    exact relays_consumed (relays_holding (.refl _))
  | switchDefault hsubject hcase =>
    refine hsubject.relays (relays_holding (hcase.relays_nil ?_))
    exact relays_consumed (.refl _)
  | selectDefault hops hchosen =>
    refine hops.relays (relays_holding ((runs_signalOf ev.run _).relays ?_))
    refine ((runs_after (read_apply _ _)).mp hchosen).relays_nil ?_
    exact relays_consumed (.refl _)
  | loop hrounds hcount hround =>
    refine .after_leads (hrounds.leads (Nat.le_of_lt hcount)) ?_
    exact relays_loop (Nat.sub_pos_of_lt hcount) hround.relays
  | @clauses init post condition body _ count held first middle rest u v w hbegins hrounds hcount
      hround =>
    rw [List.append_assoc]
    have hbegun : (ev.dispatchStmt scope frame (.forClause init condition post body) s).Relays .ret
        first (Eval.loop (ev.clauseRound condition post body inner frame) ev.rounds u) Flow.ret held :=
      ⟨_, hbegins.leads, fun _ _ => rfl⟩
    have hloop : (Eval.loop (ev.clauseRound condition post body inner frame) ev.rounds u).Relays .ret
        (middle ++ rest) (ev.inner body inner frame t) .ret 0 := by
      refine .after_leads (hrounds.leads (Nat.le_of_lt hcount)) ?_
      exact relays_loop (Nat.sub_pos_of_lt hcount) hround.relays_clauseRound
    exact hbegun.trans hloop
  | @tryBody body catchVar handler =>
    have hfinish : (ev.handled body catchVar handler scope frame s).Relays (.ok ∘ .ret) []
        (ev.inner body scope frame s) .ret 0 := by
      rw [handled_apply]
      exact ⟨_, .refl _, fun v t => by cases handler <;> rfl⟩
    exact relays_bind hfinish fun _ _ => rfl

section
variable {vars : List String} {iterable : Expr} {body : Block}

/-- An iteration over something that has rows is a loop over the rows. -/
theorem leads_rows {iterated : Value} {rows : List (Value × Value)}
    (hvars : vars.length = 1 ∨ vars.length = 2)
    (hiterable : (ev.expr iterable scope).Runs s path (.ok iterated) t)
    (hrows : t.heap.rows iterated = some rows) :
    (ev.forIn vars iterable body scope frame s).Leads path
      (forRows (pickRow (decide (vars.length = 2)) iterated) (ev.iteration vars body scope frame) rows
        t) := by
  have hcount : (vars.length = 1 || vars.length = 2) = true := by simpa using hvars
  rw [Evaluator.forIn, if_pos hcount]
  refine hiterable.leads ?_
  cases iterated with
  | list id | map id =>
    cases hrows
    unfold pickRow
    simp only [decide_eq_true_eq]
    rfl
  | str text =>
    cases hrows
    unfold pickRow
    simp only [decide_eq_true_eq]
  | _ => cases hrows

/-- An iteration over a number is a loop over the numbers below it. -/
theorem leads_numbers {n : Int64} (hvars : vars.length = 1 ∨ vars.length = 2)
    (hiterable : (ev.expr iterable scope).Runs s path (.ok (.int n)) t) :
    (ev.forIn vars iterable body scope frame s).Leads path
      (forCount (ev.iteration vars body scope frame) n.toInt.toNat 0 t) := by
  have hcount : (vars.length = 1 || vars.length = 2) = true := by simpa using hvars
  rw [Evaluator.forIn, if_pos hcount]
  exact hiterable.leads rfl

/-- An iteration over a channel is a loop over what is received. -/
theorem relays_received {chan : ChanId} {y : Step (Except EvalError Flow)} {held : Nat}
    (hvars : vars.length = 1)
    (hiterable : (ev.expr iterable scope).Runs s path (.ok (.chan chan)) t)
    (hrounds : (forReceived chan (t.run ev.run).signal ev.rounds
      (ev.iteration vars body scope frame) ev.rounds (t.hold (.value (.chan chan)))).Relays .ret rest
        y .ret held) :
    (ev.forIn vars iterable body scope frame s).Relays .ret (path ++ rest) y .ret (held + 1) := by
  have hcount : (vars.length = 1 || vars.length = 2) = true := by simp [hvars]
  rw [Evaluator.forIn, if_pos hcount]
  refine hiterable.relays ?_
  simp only [forChannel, hvars, ne_eq, not_true_eq_false, if_false]
  exact (runs_signalOf ev.run t).relays (relays_holding hrounds)

end

theorem EntersBlock.relays {kind : StmtKind} {body : Block} {held : Nat}
    (h : ev.EntersBlock scope frame s kind path body inner t held) :
    (ev.dispatchStmt scope frame kind s).Relays .ret path (ev.block body inner frame t) .ret held := by
  cases h with
  | @selectCase cases default c index received ops _ first rest u v w x hops hchosen hcase hopen
      hbound =>
    have hopened : (Eval.holding (.values (received.toList.map (·.1))) (openScope scope)).Runs v []
        (.ok inner) w.letGo := runs_holding.mpr ⟨w, runs_openScope.mpr ⟨rfl, hopen⟩, rfl⟩
    refine hops.relays (relays_holding ((runs_signalOf ev.run _).relays ?_))
    refine ((runs_after (read_apply _ _)).mp hchosen).relays_nil ?_
    simp only [hcase]
    refine hopened.relays (relays_holding (hbound.relays ?_))
    exact relays_consumed (.refl _)
  | row hvars hiterable hrows hrounds hround =>
    rw [List.append_assoc]
    refine .after_leads (leads_rows hvars hiterable hrows) (.after_leads hrounds.leads ?_)
    exact relays_round (relays_holding hround.relays) _
  | number hvars hiterable hrounds hi hround =>
    rw [List.append_assoc]
    refine .after_leads (leads_numbers hvars hiterable) ?_
    refine .after_leads (hrounds.leads (Nat.le_of_lt hi)) ?_
    exact relays_count (Nat.sub_pos_of_lt hi) hround.relays
  | received hvars hiterable hrounds hnext hround =>
    rw [List.append_assoc, List.append_assoc]
    refine relays_received hvars hiterable (.after_leads hrounds.leads ?_)
    exact .after_leads (leads_of_received hnext) (relays_round hround.relays _)
  | handler hbody hcatchable hentered =>
    refine relays_bind (f := .ok ∘ .ret) ?_ fun _ _ => rfl
    rw [handled_apply, ← List.append_nil path]
    refine .after_leads (hbody.leads_bind _) ?_
    rw [afterBody_handled hcatchable, handle_entered hentered]
    exact ⟨_, .refl _, fun _ _ => rfl⟩

end Evaluator
end ScriptEngine
