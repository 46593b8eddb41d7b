import ScriptEngine.Evaluator.Level
import ScriptEngine.Proofs.Channel.Conservation
import ScriptEngine.Proofs.Task.Paths
import ScriptEngine.Tree.Builder

/-! # Right sides that tell presence

In `v, ok = m[k]` and `v, ok = <-c` the right side also tells whether there was something: it gives a
value with a **mark**.  `Evaluator.commaOk` takes such an expression apart itself, with a cycle and
operands of its own, and leaves every other expression to plain evaluation.

Up to the place of the expression it does what plain evaluation does (`located_commaOk`): same value,
same errors, same effects, same cycles.  Errors get that place where an element is read, so with
operands whose places are known nothing differs for elements (`commaOk_index`).  A receive gives it to
no error.  Most of its errors take none, as they come from the operand, which has its own, or from the
signal; but that the operand is no channel is told without the place of the receive
(`commaOk_recv_error`), and the statement around then gives its own (`receive_loses_place`).
-/
namespace ScriptEngine

namespace EvalError
variable {p : Position}

/-- An error that has been at a known place stays there. -/
theorem locate_locate (hp : p.isKnown = true) (e : EvalError) (q : Position) :
    (e.locate p).locate q = e.locate p := by
  obtain ⟨fault, position⟩ := e
  cases position with
  | some known => simp [locate]
  | none => cases hcatch : fault.isCatchable <;> simp [locate, hp, hcatch]

theorem locate_self (e : EvalError) (p : Position) : (e.locate p).locate p = e.locate p := by
  cases hp : p.isKnown with
  | true => exact locate_locate hp e p
  | false => simp [locate, hp]

/-- What a script cannot catch takes no place. -/
theorem locate_of_uncatchable {e : EvalError} (he : e.fault.isCatchable = false) (p : Position) :
    e.locate p = e := by
  simp [locate, he]

end EvalError

namespace Eval
variable {α β : Type} {m : Eval α} {p : Position}

/-! ## Computations whose errors take no more places -/

theorem located_bind (p : Position) (m : Eval α) (k : α → Eval β) :
    located p (m >>= k) = located p m >>= fun a => located p (k a) := by
  funext s
  rw [located_apply, bind_apply, bind_apply, located_apply, Step.bind_assoc, Step.bind_assoc]
  congr 1
  funext r s'
  cases r <;> rfl

/-- Things are held in any case. -/
theorem located_holding (p : Position) (x : Holding) (m : Eval α) :
    located p (holding x m) = holding x (located p m) := by
  funext s
  rw [located_apply, holding_apply, holding_apply, located_apply, Step.bind_assoc, Step.bind_assoc]
  rfl

theorem located_located (hp : p.isKnown = true) (q : Position) (m : Eval α) :
    located q (located p m) = located p m := by
  funext s
  rw [located_apply, located_apply, Step.bind_assoc]
  congr 1
  funext r s'
  cases r with
  | ok a => rfl
  | error e =>
    show Step.done s' (Except.error ((e.locate p).locate q)) = .done s' (.error (e.locate p))
    rw [e.locate_locate hp]

theorem located_self (p : Position) (m : Eval α) : located p (located p m) = located p m := by
  funext s
  rw [located_apply, located_apply, Step.bind_assoc]
  congr 1
  funext r s'
  cases r with
  | ok a => rfl
  | error e =>
    show Step.done s' (Except.error ((e.locate p).locate p)) = .done s' (.error (e.locate p))
    rw [e.locate_self]

/-- **No error of the computation takes another place**: it has one, or cannot have any. -/
def Settled (m : Eval α) : Prop := ∀ p, located p m = m

theorem settled_located (hp : p.isKnown = true) (m : Eval α) : Settled (located p m) :=
  fun q => located_located hp q m

theorem settled_pure (a : α) : Settled (pure a : Eval α) := fun _ => rfl

theorem settled_read (f : EngineState → α) : Settled (read f) := fun _ => rfl

theorem settled_modify (f : EngineState → EngineState) : Settled (modify f) := fun _ => rfl

theorem settled_outOfFuel : Settled (outOfFuel : Eval α) := fun _ => rfl

theorem Settled.bind {k : α → Eval β} (hm : Settled m) (hk : ∀ a, Settled (k a)) :
    Settled (m >>= k) := by
  intro p
  rw [located_bind, hm p]
  exact congrArg (m >>= ·) (funext fun a => hk a p)

theorem Settled.holding (hm : Settled m) (x : Holding) : Settled (holding x m) := by
  intro p
  rw [located_holding, hm p]

/-- Waiting fails only because of the signal. -/
theorem settled_await (on : Wait) : Settled (await on) := by
  have hcheck : Settled (checkWait on) := by
    intro p
    funext s
    rw [located_apply, checkWait_apply]
    split
    · exact congrArg (fun e => Step.done s (Except.error e))
        (EvalError.locate_of_uncatchable (e := { fault := .interrupt }) rfl p)
    · rfl
  exact hcheck.bind fun _ => .bind (fun _ => rfl) fun _ => hcheck

theorem settled_step (run : RunId) : Settled (step run) := by
  have htick : Settled (tick run) := by
    refine .bind (fun _ => rfl) fun pause => ?_
    cases pause with
    | none => exact settled_pure ()
    | some due => exact (settled_read _).bind fun _ => settled_await _
  have hcount : Settled (countCycles run 1) := (settled_modify _).bind fun _ => settled_read _
  refine hcount.bind fun cycles => ?_
  split
  · exact (settled_await .turn).bind fun _ => htick
  · exact htick

/-- A cycle fails for want of no place. -/
theorem located_afterStep (p : Position) (run : RunId) (m : Eval α) :
    located p (step run >>= fun _ => m) = step run >>= fun _ => located p m := by
  rw [located_bind, settled_step]

/-- An error of such a computation is where it can be. -/
theorem Settled.locate_of_runs (hm : Settled m) {s t : EngineState} {path : List EngineState}
    {e : EvalError} (hruns : m.Runs s path (.error e) t) (q : Position) : e.locate q = e := by
  rw [← hm q] at hruns
  obtain ⟨o, -, ho⟩ := runs_located.mp hruns
  cases o with
  | ok a => cases ho
  | error e' =>
    cases ho
    exact e'.locate_self q

/-! ### Receiving -/

theorem settled_tryRecv (chan : ChanId) : Settled (tryRecv chan) := by
  intro p
  funext s
  rw [located_apply, tryRecv_apply]
  cases hr : s.heap.tryRecv chan with
  | error e =>
    cases e with
    | fault f => exact absurd hr (Heap.tryRecv_ne_fault f)
    | overflow => rfl
  | ok r =>
    obtain ⟨answer, h⟩ := r
    match answer with
    | none | some (v, true) | some (v, false) => rfl

theorem settled_awaitValue (chan : ChanId) (signal : SignalId) (rounds : Nat) :
    Settled (awaitValue chan signal rounds) := by
  induction rounds with
  | zero => exact settled_outOfFuel
  | succ rounds ih =>
    refine (settled_tryRecv chan).bind fun received => ?_
    cases received with
    | some received => exact settled_pure received
    | none => exact (settled_await _).bind fun _ => ih

theorem settled_recv (rounds : Nat) (chan : ChanId) (signal : SignalId) :
    Settled (recv rounds chan signal) := by
  refine Settled.holding ((settled_tryRecv chan).bind fun received => ?_) _
  cases received with
  | some received => exact settled_pure received
  | none =>
    exact (settled_modify _).bind fun _ => (settled_awaitValue chan signal rounds).holding _

end Eval

/-- The expression reads an element or receives: it can tell whether there is something. -/
def ExprKind.tellsPresence : ExprKind → Bool
  | .index _ _ | .recv _ => true
  | _ => false

/-- The value as something to receive from. -/
def Eval.asChannel : Value → Eval ChanId
  | .chan id => pure id
  | v => do failWith ("channel operation on non-channel type " ++ (← typeName v))

namespace Evaluator

open Eval

/-- Evaluation without a mark.  An expression that can tell presence is evaluated itself, with its
parts left to the evaluator; every other one is left to the evaluator. -/
def plain (ev : Evaluator) (e : Expr) (scope : ScopeId) : Eval Value :=
  if e.kind.tellsPresence then ev.evalExpr e scope else ev.expr e scope

/-- A cycle, and then container and key of an element. -/
def elementParts (ev : Evaluator) (object index : Expr) (scope : ScopeId) : Eval (Value × Value) := do
  step ev.run
  let target ← ev.expr object scope
  let key ← holdingValue target (ev.expr index scope)
  return (target, key)

/-- A cycle, and then what is received from. -/
def receiveParts (ev : Evaluator) (channel : Expr) (scope : ScopeId) : Eval Value := do
  step ev.run
  ev.expr channel scope

end Evaluator

namespace Heap

/-- What is found at a key of a container: of a map the value, or nil, with the mark whether the key is
stored; of anything else the element. -/
def found (h : Heap) (target key : Value) : Outcome (Value × Option Bool) :=
  match target with
  | .map id => (h.stored? id key).map fun v => (v.getD .nil, some v.isSome)
  | target => (h.index target key).map (·, none)

theorem map_fst_found (h : Heap) (target key : Value) :
    (h.found target key).map (·.1) = h.index target key := by
  cases target with
  | map id =>
    show ((h.stored? id key).map _).map _ = (do return (← h.stored? id key).getD .nil)
    cases h.stored? id key <;> rfl
  | _ => cases hindex : h.index _ key <;> simp [found, hindex, Except.map]

end Heap

namespace Eval
variable {α β : Type}

/-- What is made of something that was looked up. -/
theorem map_tryHeap (p : Position) (f : Heap → Outcome α) (g : α → β) :
    g <$> located p (tryHeap f) = located p (tryHeap fun h => (f h).map g) := by
  rw [map_eq_pure_bind]
  funext s
  rw [bind_apply, located_apply, located_apply, tryHeap_apply, tryHeap_apply]
  cases f s.heap with
  | ok a => rfl
  | error e => cases e <;> rfl

end Eval

namespace Evaluator

open Eval

section
variable {ev : Evaluator} {object index channel : Expr} {p : Position} {scope : ScopeId}

/-! ## Elements -/

theorem commaOk_index : ev.commaOk (.mk (.index object index) p) scope =
    ev.elementParts object index scope >>= fun (target, key) =>
      located p (tryHeap (·.found target key)) := by
  rw [elementParts]
  simp only [bind_assoc, pure_bind]
  refine bind_congr fun _ => bind_congr fun target => bind_congr fun key => ?_
  cases target with
  | map id =>
    exact (map_eq_pure_bind ..).symm.trans (map_tryHeap p (·.stored? id key) fun v => (v.getD .nil, some v.isSome))
  | _ => exact (map_eq_pure_bind ..).symm.trans (map_tryHeap p _ (·, none))

theorem evalExpr_index : ev.evalExpr (.mk (.index object index) p) scope =
    located p (ev.elementParts object index scope >>= fun (target, key) =>
      tryHeap (·.index target key)) := by
  let access : Eval Value := do
    let target ← ev.expr object scope
    let key ← holdingValue target (ev.expr index scope)
    tryHeap (·.index target key)
  calc ev.evalExpr (.mk (.index object index) p) scope
      = step ev.run >>= fun _ => located p access := rfl
    _ = located p (step ev.run >>= fun _ => access) := (located_afterStep p ev.run access).symm
    _ = _ := by simp only [access, elementParts, bind_assoc, pure_bind]

/-- Without its mark, an element is what plain evaluation finds. -/
theorem fst_commaOk_index : Prod.fst <$> ev.commaOk (.mk (.index object index) p) scope =
    ev.elementParts object index scope >>= fun (target, key) =>
      located p (tryHeap (·.index target key)) := by
  rw [commaOk_index, map_bind]
  refine bind_congr fun (target, key) => ?_
  simp only [map_tryHeap, Heap.map_fst_found]

/-- The container and the key are evaluated, and then the key is looked up in that very state. -/
theorem found_of_commaOk {s t : EngineState} {path : List EngineState} {r : Value × Option Bool}
    (hruns : (ev.commaOk (.mk (.index object index) p) scope).Runs s path (.ok r) t) :
    ∃ target key, (ev.elementParts object index scope).Runs s path (.ok (target, key)) t ∧
      t.heap.found target key = .ok r := by
  rw [commaOk_index] at hruns
  obtain ⟨first, rest, ⟨target, key⟩, u, rfl, hparts, hlook⟩ | ⟨e, -, heq⟩ := runs_bind.mp hruns
  · obtain ⟨o, hlook, ho⟩ := runs_located.mp hlook
    cases o with
    | error e => cases ho
    | ok a =>
      cases ho
      obtain ⟨rfl, rfl, hfound⟩ := runs_tryHeap_ok hlook
      rw [List.append_nil]
      exact ⟨target, key, hparts, hfound⟩
  · cases heq

/-- **Up to the place of the expression an element is what plain evaluation finds.** -/
theorem located_commaOk_index : located p (Prod.fst <$> ev.commaOk (.mk (.index object index) p) scope) =
    ev.evalExpr (.mk (.index object index) p) scope := by
  rw [fst_commaOk_index, evalExpr_index, located_bind, located_bind]
  exact bind_congr fun _ => located_self p _

/-- With operands whose errors have their places it is so exactly. -/
theorem fst_commaOk_index_of_settled (hparts : Settled (ev.elementParts object index scope)) :
    Prod.fst <$> ev.commaOk (.mk (.index object index) p) scope =
      ev.evalExpr (.mk (.index object index) p) scope := by
  rw [fst_commaOk_index, evalExpr_index, located_bind, hparts p]

/-! ## Receives -/

theorem commaOk_recv : ev.commaOk (.mk (.recv channel) p) scope =
    (step ev.run >>= fun _ => ev.receive channel scope) >>= fun (v, ok) => pure (v, some ok) := by
  rw [bind_assoc]
  rfl

theorem located_commaOk_recv : located p (Prod.fst <$> ev.commaOk (.mk (.recv channel) p) scope) =
    ev.evalExpr (.mk (.recv channel) p) scope := by
  let receipt : Eval Value := Prod.fst <$> ev.receive channel scope
  calc located p (Prod.fst <$> ev.commaOk (.mk (.recv channel) p) scope)
      = located p (step ev.run >>= fun _ => receipt) := by
        simp only [commaOk_recv, receipt, map_bind, bind_pure_comp, Functor.map_map]
    _ = step ev.run >>= fun _ => located p receipt := located_afterStep p ev.run receipt
    _ = _ := by
        simp only [receipt, map_eq_pure_bind]
        rfl

/-- **Where a receive keeps an error from having its place**: only the operand that is no channel is
told of without one. -/
theorem commaOk_recv_error (hoperand : Settled (ev.receiveParts channel scope)) {s t : EngineState}
    {path : List EngineState} {e : EvalError}
    (hruns : (ev.commaOk (.mk (.recv channel) p) scope).Runs s path (.error e) t) :
    (∀ q, e.locate q = e) ∨ ∃ v, (ev.receiveParts channel scope).Runs s path (.ok v) t ∧
      (∀ chan, v ≠ .chan chan) ∧
      e = ⟨.invalidOperation ("channel operation on non-channel type " ++ t.heap.typeName v), none⟩ := by
  have hparts : ev.commaOk (.mk (.recv channel) p) scope =
      ev.receiveParts channel scope >>= fun v => asChannel v >>= fun chan =>
        signalOf ev.run >>= fun signal => recv ev.rounds chan signal >>= fun (v, ok) =>
          pure (v, some ok) := by
    simp only [commaOk_recv, receive, Evaluator.channel, receiveParts, bind_assoc]
    refine bind_congr fun _ => bind_congr fun v => ?_
    cases v <;> rfl
  rw [hparts] at hruns
  obtain ⟨first, rest, v, u, rfl, hv, hruns⟩ | ⟨e', he, heq⟩ := runs_bind.mp hruns
  · cases v with
    | chan id =>
      refine .inl (Settled.locate_of_runs ?_ hruns)
      refine (settled_pure id).bind fun chan => (settled_read _).bind fun signal => ?_
      exact (settled_recv ev.rounds chan signal).bind fun _ => settled_pure _
    | _ =>
      obtain ⟨rfl, he, rfl⟩ := (runs_of_done rfl).mp hruns
      rw [List.append_nil]
      exact .inr ⟨_, hv, fun chan hchan => (by cases hchan), Except.error.inj he⟩
  · cases heq
    exact .inl (hoperand.locate_of_runs he)

end

/-! ## All expressions -/

section
variable (run : RunId) (fuel : Nat) (scope : ScopeId)

/-- Evaluation itself gives each error the place of the expression. -/
theorem settled_expr {e : Expr} (he : e.pos.isKnown = true) :
    Settled ((ofFuel run fuel).expr e scope) := by
  cases fuel with
  | zero => exact settled_outOfFuel
  | succ fuel =>
    exact (settled_step (ofFuel run fuel).run).bind fun _ =>
      settled_located he ((ofFuel run fuel).dispatchExpr scope e.kind)

theorem located_expr (e : Expr) :
    located e.pos ((ofFuel run fuel).expr e scope) = (ofFuel run fuel).expr e scope := by
  cases fuel with
  | zero => rfl
  | succ fuel =>
    let access := (ofFuel run fuel).dispatchExpr scope e.kind
    refine (located_afterStep e.pos (ofFuel run fuel).run (located e.pos access)).trans ?_
    rw [located_self]
    rfl

/-- What a right side is that cannot tell presence. -/
theorem commaOk_of_plain {ev : Evaluator} {e : Expr} (he : e.kind.tellsPresence = false) :
    ev.commaOk e scope = (·, none) <$> ev.expr e scope := by
  obtain ⟨kind, p⟩ := e
  cases kind with
  | index object index | recv channel => cases he
  | _ => exact (map_eq_pure_bind ..).symm

/-- **A right side that tells presence agrees with plain evaluation, up to its place.** -/
theorem located_commaOk (e : Expr) :
    located e.pos (Prod.fst <$> (ofFuel run fuel).commaOk e scope) = (ofFuel run fuel).plain e scope := by
  obtain ⟨kind, p⟩ := e
  cases kind with
  | index object index => exact located_commaOk_index
  | recv channel => exact located_commaOk_recv
  | _ =>
    rw [commaOk_of_plain scope rfl, Functor.map_map]
    exact (congrArg _ (id_map _)).trans (located_expr run fuel scope _)

/-- **Comma-ok against plain evaluation.**  Up to the place of the expression the two are the same
computation: value, errors, effects and cycles.  Expressions other than elements and receives differ in
nothing and have no mark.  Elements differ in nothing if the places of their operands are known, and
have a mark exactly if they are looked up in a map, namely whether the key is stored.  Receives have the
mark that they answer with, and only the error of an operand that is no channel lacks its place. -/
theorem comma_ok_agrees :
    let ev : Evaluator := ofFuel run (fuel + 1)
    (∀ e, located e.pos (Prod.fst <$> ev.commaOk e scope) = ev.plain e scope) ∧
    (∀ e, e.kind.tellsPresence = false → ev.commaOk e scope = (·, none) <$> ev.plain e scope) ∧
    (∀ object index p, object.pos.isKnown = true → index.pos.isKnown = true →
      Prod.fst <$> ev.commaOk (.mk (.index object index) p) scope =
        ev.plain (.mk (.index object index) p) scope) ∧
    (∀ object index p s path v mark t,
      (ev.commaOk (.mk (.index object index) p) scope).Runs s path (.ok (v, mark)) t →
      ∃ target key, (ev.elementParts object index scope).Runs s path (.ok (target, key)) t ∧
        t.heap.found target key = .ok (v, mark)) ∧
    (∀ channel p, ev.commaOk (.mk (.recv channel) p) scope =
      (step ev.run >>= fun _ => ev.receive channel scope) >>= fun (v, ok) => pure (v, some ok)) ∧
    ∀ channel p s path e t, channel.pos.isKnown = true →
      (ev.commaOk (.mk (.recv channel) p) scope).Runs s path (.error e) t → e.locate p ≠ e →
      ∃ v, (ev.receiveParts channel scope).Runs s path (.ok v) t ∧ (∀ chan, v ≠ .chan chan) ∧
        e = ⟨.invalidOperation ("channel operation on non-channel type " ++ t.heap.typeName v), none⟩ := by
  refine ⟨located_commaOk run _ scope, fun e he => ?_, fun object index p hobject hindex => ?_,
    fun object index p s path v mark t hruns => ?_, fun channel p => commaOk_recv,
    fun channel p s path e t hchannel hruns hplace => ?_⟩
  · rw [commaOk_of_plain scope he, plain, he]
    rfl
  · have hparts : Settled ((ofFuel run (fuel + 1)).elementParts object index scope) := by
      refine (settled_step _).bind fun _ => (settled_expr run _ scope hobject).bind fun target => ?_
      exact ((settled_expr run _ scope hindex).holding _).bind fun key => settled_pure _
    exact fst_commaOk_index_of_settled hparts
  · exact found_of_commaOk hruns
  · have hparts : Settled ((ofFuel run (fuel + 1)).receiveParts channel scope) :=
      (settled_step _).bind fun _ => settled_expr run _ scope hchannel
    obtain hsettled | hother := commaOk_recv_error hparts hruns
    · exact absurd (hsettled p) hplace
    · exact hother

end

/-- A root scope with a map `{1: 2}`, and a run without limits. -/
def lookingUp : EngineState :=
  { EngineState.initial with
    heap := {
      maps := ({} : Store MapCell).push ⟨[(.int 1, .int 2)], none, none⟩
      scopes := ({} : Store Scope).push { vars := ⟨[("m", .map 0)]⟩ } }
    runs := ({} : Store Run).push ⟨0, ⟨0, 0, 0, 0⟩, 0, 0⟩ }

/-- `m[key]`, with the key at a place of its own. -/
def mapAt (place inner : Position) (key : Int64) : Expr :=
  .mk (.index (.mk (.ident "m") place) (.mk (.literal (.int key)) inner)) place

/-- `<-5`, with the number at a place of its own. -/
def receiveFive (place inner : Position) : Expr := .mk (.recv (.mk (.literal (.int 5)) inner)) place

/-- The receive fails without a place, and could be given one. -/
theorem receiveFive_fails :
    ∃ e, ((ofFuel 0 3).commaOk (receiveFive ⟨1, 9⟩ ⟨1, 11⟩) 0).Runs lookingUp [] (.error e)
      ((ofFuel 0 3).commaOk (receiveFive ⟨1, 9⟩ ⟨1, 11⟩) 0 lookingUp).state ∧
      e.position = none ∧ (e.locate ⟨1, 9⟩).position = some ⟨1, 9⟩ := by
  have hends : ((ofFuel 0 3).commaOk (receiveFive ⟨1, 9⟩ ⟨1, 11⟩) 0 lookingUp).endsWith (fun
      | .ok _ => false
      | .error e => e.position = none ∧ (e.locate ⟨1, 9⟩).position = some ⟨1, 9⟩) = true := by
    decide +kernel
  obtain ⟨t, r, hdone, hr⟩ := Step.exists_of_endsWith hends
  rw [hdone]
  cases r with
  | ok a => cases hr
  | error e => exact ⟨e, (runs_of_done hdone).mpr ⟨rfl, rfl, rfl⟩, of_decide_eq_true hr⟩

/-- `m[1]` is there, `m[7]` is not, `m` as such tells nothing, and 5 is no channel. -/
theorem comma_ok_agrees_keys :
    let ev : Evaluator := ofFuel 0 3
    let place : Position := ⟨1, 9⟩
    let inner : Position := ⟨1, 11⟩
    (∃ t target key, (ev.commaOk (mapAt place inner 1) 0).Runs lookingUp [] (.ok (.int 2, some true)) t ∧
      t.heap.found target key = .ok (.int 2, some true)) ∧
    (∃ t target key, (ev.commaOk (mapAt place inner 7) 0).Runs lookingUp [] (.ok (.nil, some false)) t ∧
      t.heap.found target key = .ok (.nil, some false)) ∧
    Prod.fst <$> ev.commaOk (mapAt place inner 1) 0 = ev.plain (mapAt place inner 1) 0 ∧
    ev.commaOk (.ident "m") 0 = (·, none) <$> ev.plain (.ident "m") 0 ∧
    ∃ e t v, (ev.commaOk (receiveFive place inner) 0).Runs lookingUp [] (.error e) t ∧
      (∀ chan, v ≠ .chan chan) ∧
        e = ⟨.invalidOperation ("channel operation on non-channel type " ++ t.heap.typeName v), none⟩ := by
  intro ev place inner
  obtain ⟨-, hplain, hexact, hfound, -, herror⟩ := comma_ok_agrees 0 2 0
  have hthere : (ev.commaOk (mapAt place inner 1) 0).Runs lookingUp [] (.ok (.int 2, some true)) _ :=
    runs_of_gives (by decide +kernel)
  have habsent : (ev.commaOk (mapAt place inner 7) 0).Runs lookingUp [] (.ok (.nil, some false)) _ :=
    runs_of_gives (by decide +kernel)
  obtain ⟨target, key, -, hvalue⟩ := hfound _ _ _ _ _ _ _ _ hthere
  obtain ⟨target', key', -, hnil⟩ := hfound _ _ _ _ _ _ _ _ habsent
  obtain ⟨e, hfive, hposition⟩ := receiveFive_fails
  have hplace : e.locate place ≠ e := fun heq => by
    rw [heq, hposition.1] at hposition
    exact absurd hposition.2 nofun
  obtain ⟨v, -, hchan, he⟩ := herror _ place _ _ _ _ rfl hfive hplace
  exact ⟨⟨_, _, _, hthere, hvalue⟩, ⟨_, _, _, habsent, hnil⟩, hexact _ _ _ rfl rfl, hplain _ rfl,
    e, _, v, hfive, hchan, he⟩

/-- **The place of a receive is lost.**  In `v, ok = <-5` the receive does not tell where it is, but
plain evaluation of the same expression does. -/
theorem receive_loses_place :
    ∃ e t, ((ofFuel 0 3).commaOk (receiveFive ⟨1, 9⟩ ⟨1, 11⟩) 0).Runs lookingUp [] (.error e) t ∧
      e.position = none ∧
      ∃ e', ((ofFuel 0 3).plain (receiveFive ⟨1, 9⟩ ⟨1, 11⟩) 0).Runs lookingUp [] (.error e') t ∧
        e'.fault = e.fault ∧ e'.position = some ⟨1, 9⟩ := by
  obtain ⟨e, hfive, hnone, hsome⟩ := receiveFive_fails
  refine ⟨e, _, hfive, hnone, e.locate ⟨1, 9⟩, ?_, ?_, hsome⟩
  · rw [← located_commaOk 0 3 0 (receiveFive ⟨1, 9⟩ ⟨1, 11⟩)]
    refine runs_located.mpr ⟨.error e, ?_, rfl⟩
    rw [map_eq_pure_bind]
    exact runs_bind.mpr (.inr ⟨e, hfive, rfl⟩)
  · unfold EvalError.locate
    split <;> rfl

end Evaluator
end ScriptEngine
