import ScriptEngine.Proofs.Channel.Choices
import ScriptEngine.Proofs.Evaluator.Entering
import ScriptEngine.Proofs.Evaluator.Flows
import ScriptEngine.Proofs.Evaluator.Watching
import ScriptEngine.Proofs.ScopeCeiling
import ScriptEngine.Tree.Builder

/-! # A `select` performs one operation, the first that can be made

A `select` evaluates the channels and values of its cases, makes a choice among the operations
(`Chooses`), and then runs the body of the case, or its default (`Evaluator.Follows`).
`Evaluator.select_chooses_first` puts this together, for every `select` and every interleaving in which
others leave alone what the task holds.
-/
namespace ScriptEngine

open Eval

namespace EngineState

/-- Channels may have been taken out as garbage; the others are as they were. -/
def SparesChans (s t : EngineState) : Prop :=
  ∀ chan, t.heap.chans.get? chan = none ∨ t.heap.chans.get? chan = s.heap.chans.get? chan

theorem Prunes.sparesChans {s t : EngineState} (hp : Prunes s t) : s.SparesChans t := by
  intro chan
  obtain hnone | hsame := hp.cell (.chan chan)
  · exact .inl (Option.map_eq_none_iff.mp hnone)
  · exact .inr (Option.map_injective (fun _ _ h => Cell.chan.inj h) hsame)

theorem SparesChans.of_eq {s t u : EngineState} (hs : s.SparesChans t)
    (hchans : u.heap.chans = t.heap.chans) : s.SparesChans u := by
  intro chan
  rw [hchans]
  exact hs chan

/-- What ends with a block is its scope. -/
theorem chans_letGo_block {s : EngineState} {scope : ScopeId} {xs : List Holding}
    (hx : s.Holds (some (.block scope :: xs))) : s.letGo.heap.chans = s.heap.chans := by
  rw [letGo_eq hx]
  simp only [giveBack]
  split
  · rfl
  · unfold eraseScope
    split
    · rfl
    · simp only
      split <;> rfl

/-- A scope is opened, or there is no slot. -/
theorem addChild_cases (s : EngineState) (parent : ScopeId) :
    s.SparesChans (s.addChild parent).2 ∧ (s.addChild parent).2.held = s.held ∧
      ((∃ limit, (s.addChild parent).1 = .error (.fault (.scopeLimit limit))) ∨
        ∃ inner, (s.addChild parent).1 = .ok inner ∧ s.heap.scopes.get? inner = none ∧
          (s.addChild parent).2.heap.scopes.get? inner = some {
            parent := some parent, governor := (s.heap.scope parent).governor, counted := true }) := by
  have hp := prunes_tidied s (s.heap.scope parent).governor
  rw [addChild_eq rfl rfl]
  split
  · exact ⟨hp.sparesChans, hp.held, .inl ⟨_, rfl⟩⟩
  · refine ⟨hp.sparesChans, hp.held, .inr ⟨_, rfl, ?_, Store.get?_push_next _ _⟩⟩
    rw [hp.nextScope]
    exact Store.get?_eq_none (Nat.le_refl _)

end EngineState

namespace Evaluator
variable {ev : Evaluator} {scope : ScopeId} {frame : FrameId} {s t u w : EngineState}
  {path : List EngineState} {xs : List Holding}

/-- **The body of a case** runs in a scope of its own, which binds what was received and nothing else.
No value is moved in between. -/
inductive Takes (ev : Evaluator) (c : SelectCase) (received : Option (Value × Bool)) (scope : ScopeId)
    (frame : FrameId) (s : EngineState) : List EngineState → Except EvalError Flow → EngineState → Prop
    where
  | body {inner : ScopeId} {path : List EngineState} {r : Except EvalError Flow} {t u : EngineState}
    (hnew : s.heap.scopes.get? inner = none)
    (hscope : t.heap.scopes.get? inner = some {
      parent := some scope
      governor := (s.heap.scope scope).governor
      counted := true
      vars := (c.received received).foldl (fun b x => b.insert x.1 x.2) .empty })
    (hchans : s.SparesChans t) (hbody : (ev.block c.body inner frame).Runs t path r u) :
    Takes ev c received scope frame s path (r.map (·.consumeBreak)) u.letGo
  /-- There is no slot for the scope. -/
  | full {limit : Nat} {t : EngineState} (hchans : s.SparesChans t) :
    Takes ev c received scope frame s [] (.error { fault := .scopeLimit limit }) t
  /-- A name cannot be bound. -/
  | name {b : String × Value} {t : EngineState} (hb : b ∈ c.received received)
    (hname : isIdentifier b.1 = false) (hchans : s.SparesChans t) :
    Takes ev c received scope frame s []
      (.error { fault := .invalidOperation (Misfit.name b.1).message }) t

theorem runs_map {α β : Type} {m : Eval α} {f : α → β} {r : Except EvalError β} :
    (m >>= fun a => pure (f a)).Runs s path r t ↔ ∃ o, m.Runs s path o t ∧ r = o.map f := by
  rw [runs_bind]
  constructor
  · rintro (⟨first, rest, a, u, rfl, hm, hpure⟩ | ⟨e, hm, rfl⟩)
    · obtain ⟨rfl, rfl, rfl⟩ := runs_pure.mp hpure
      rw [List.append_nil]
      exact ⟨_, hm, rfl⟩
    · exact ⟨_, hm, rfl⟩
  · rintro ⟨o, hm, rfl⟩
    cases o with
    | ok a =>
      have hpure : (pure (f a) : Eval β).Runs t [] (.ok (f a)) t := runs_pure.mpr ⟨rfl, rfl, rfl⟩
      exact .inl ⟨path, [], a, t, (List.append_nil _).symm, hm, hpure⟩
    | error e => exact .inr ⟨e, hm, rfl⟩

/-- Binding names in a scope, one after the other. -/
theorem runs_defineAll {id : ScopeId} {bindings : List (String × Value)} {r : Except EvalError Unit}
    (hruns : (defineAll id bindings).Runs s path r t) :
    path = [] ∧ t.heap.chans = s.heap.chans ∧ (t.held = s.held ∧ t.current = s.current) ∧
      (r = .ok () ∧
          t.heap.scopes.get? id = (s.heap.scopes.get? id).map (fun c =>
            { c with vars := bindings.foldl (fun b x => b.insert x.1 x.2) c.vars }) ∨
        ∃ b ∈ bindings, isIdentifier b.1 = false ∧
          r = .error { fault := .invalidOperation (Misfit.name b.1).message }) := by
  induction bindings generalizing s with
  | nil =>
    obtain ⟨rfl, rfl, rfl⟩ := runs_pure.mp hruns
    exact ⟨rfl, rfl, ⟨rfl, rfl⟩, .inl ⟨rfl, Option.map_id'.symm⟩⟩
  | cons b rest ih =>
    obtain ⟨name, v⟩ := b
    cases hname : isIdentifier name with
    | true =>
      have hdefine : s.heap.define id name v = .ok (s.heap.bindVar id name v) := by
        rw [Heap.define, Heap.checkIdentifier, hname]
        rfl
      obtain ⟨rfl, hchans, hheld, hrest⟩ := ih ((runs_after (bindName_ok hdefine)).mp hruns)
      refine ⟨rfl, hchans, hheld, hrest.imp ?_ ?_⟩
      · rintro ⟨rfl, hscope⟩
        refine ⟨rfl, hscope.trans ?_⟩
        show ((s.heap.scopes.modify id _).get? id).map _ = _
        rw [Store.get?_modify_self, Option.map_map]
        rfl
      · rintro ⟨b, hb, h⟩
        exact ⟨b, List.mem_cons_of_mem _ hb, h⟩
    | false =>
      have hdefine : s.heap.define id name v =
          .error (.fault (.invalidOperation (Misfit.name name).message)) := by
        rw [Heap.define, Heap.checkIdentifier, hname]
        rfl
      rw [Runs, defineAll, bind_apply, define, bindName_error hdefine] at hruns
      obtain ⟨rfl, rfl, rfl⟩ := Step.endsAlong_done.mp hruns
      exact ⟨rfl, rfl, ⟨rfl, rfl⟩, .inr ⟨_, List.mem_cons_self, hname, rfl⟩⟩

/-- A scope is opened while values are held. -/
theorem runs_openScope_holding {vs : List Value} {r : Except EvalError ScopeId}
    (hx : s.Holds (some xs)) (hruns : (holding (.values vs) (openScope scope)).Runs s path r t) :
    path = [] ∧ s.SparesChans t ∧ t.Holds (some xs) ∧
      ((∃ limit, r = .error { fault := .scopeLimit limit }) ∨
        ∃ inner, r = .ok inner ∧ s.heap.scopes.get? inner = none ∧
          t.heap.scopes.get? inner = some {
            parent := some scope, governor := (s.heap.scope scope).governor, counted := true }) := by
  obtain ⟨u, hopen, rfl⟩ := runs_holding.mp hruns
  obtain ⟨rfl, hdone⟩ := runs_openScope.mp hopen
  rw [openScope_apply] at hdone
  obtain ⟨hchans, hheld, hcases⟩ := (s.hold (.values vs)).addChild_cases scope
  have htells : EngineState.Tells none (s.hold (.values vs)) _ := EngineState.tells_addChild _ scope
  have hcurrent := htells.current_eq
  generalize (s.hold (.values vs)).addChild scope = found at hdone hchans hheld hcurrent hcases
  obtain ⟨o, w⟩ := found
  have hu : u.heap = w.heap ∧ u.held = w.held ∧ u.current = w.current := by
    obtain ⟨limit, rfl⟩ | ⟨inner, rfl, -⟩ := hcases <;> cases hdone <;> exact ⟨rfl, rfl, rfl⟩
  have hholds : u.Holds (some (.values vs :: xs)) := by
    rw [EngineState.Holds, hu.2.1, hu.2.2, hheld, hcurrent]
    exact hx.hold (.values vs)
  obtain ⟨hrest, hheap, -, -⟩ := letGo_values hholds
  rw [hu.1] at hheap
  refine ⟨rfl, hchans.of_eq (congrArg Heap.chans hheap), hrest, ?_⟩
  rw [hheap]
  obtain ⟨limit, rfl⟩ | ⟨inner, rfl, hnew, hscope⟩ := hcases
  · cases hdone
    exact .inl ⟨limit, rfl⟩
  · cases hdone
    exact .inr ⟨inner, rfl, hnew, hscope⟩

/-- Runs the body of a case as it is to be run. -/
theorem takes_of_runs {c : SelectCase} {received : Option (Value × Bool)} {r : Except EvalError Flow}
    (hx : s.Holds (some xs)) (hruns : (ev.takeCase c received scope frame).Runs s path r t) :
    ev.Takes c received scope frame s path r t := by
  obtain ⟨first, rest, inner, u, rfl, hopen, hrest⟩ | ⟨e, hopen, rfl⟩ := runs_bind.mp hruns
  · obtain ⟨rfl, hchans, hu, ⟨limit, he⟩ | ⟨_, hinner, hnew, hscope⟩⟩ :=
      runs_openScope_holding hx hopen
    · cases he
    · cases hinner
      obtain ⟨v, hinside, rfl⟩ := runs_holding.mp hrest
      obtain ⟨first, rest, _, w, rfl, hbound, hbody⟩ | ⟨e, hbound, rfl⟩ := runs_bind.mp hinside
      · obtain ⟨rfl, hsame, -, ⟨-, hvars⟩ | ⟨_, -, -, he⟩⟩ := runs_defineAll hbound
        · obtain ⟨o, hflow, rfl⟩ := runs_map.mp hbody
          refine .body hnew ?_ (hchans.of_eq hsame) hflow
          exact hvars.trans (congrArg (Option.map _) hscope)
        · cases he
      · obtain ⟨rfl, hsame, hheld, ⟨hr, -⟩ | ⟨b, hb, hname, hr⟩⟩ := runs_defineAll hbound
        · cases hr
        · cases hr
          have hv : v.Holds (some (.block inner :: xs)) := by
            rw [EngineState.Holds, hheld.1, hheld.2]
            exact hu.hold (.block inner)
          exact .name hb hname (hchans.of_eq ((EngineState.chans_letGo_block hv).trans hsame))
  · obtain ⟨rfl, hchans, -, ⟨limit, he⟩ | ⟨_, hinner, -⟩⟩ := runs_openScope_holding hx hopen
    · cases he
      exact .full hchans
    · cases hinner

/-! ## The choice -/

/-- The operation is of the kind that the case asks for. -/
def Prepares (c : SelectCase) (op : ChanId × Option Value) : Prop :=
  match c.op with
  | .recv _ _ _ => op.2 = none
  | .send _ _ => op.2.isSome

theorem yields_prepareCases (cases : List SelectCase) :
    Yields (List.Forall₂ Prepares cases) (ev.prepareCases scope cases) := by
  induction cases with
  | nil => exact yields_pure .nil
  | cons c rest ih =>
    have hop : Yields (Prepares c) (ev.prepareCase scope c.op) := by
      unfold Prepares
      cases c.op with
      | recv => exact yields_bind fun _ => yields_pure rfl
      | send => exact yields_bind fun _ => yields_bind fun _ => yields_pure rfl
    exact hop.bind fun op hc => (ih.holding _).bind fun ops hrest => yields_pure (.cons hc hrest)

/-- **What a `select` chooses**, in whatever state. -/
theorem chooses_chosenCase (ops : List (ChanId × Option Value)) (default : Option Block)
    (hx : s.Holds (some xs)) :
    Chooses ops default.isSome (s.run ev.run).signal xs (ev.chosenCase ops default s) s := by
  refine chooses_receivingAll (fun chan hchan => ?_) (chooses_awaitCase _ _) hx
  split at hchan
  · exact not_sending hchan
  · cases hchan

/-! ## The statement -/

/-- What a `select` does after its choice. -/
def afterChoice (ev : Evaluator) (cases : List SelectCase) (default : Option Block) (scope : ScopeId)
    (frame : FrameId) : Option (Nat × Option (Value × Bool)) → Eval Flow
  | some (index, received) =>
    match cases[index]? with
    | some c => ev.takeCase c received scope frame
    | none => pure .unit
  | none =>
    match default with
    | some body => do return (← ev.inner body scope frame).consumeBreak
    | none => pure .unit

/-- A `select` prepares its operations, chooses, and goes on. -/
theorem select_eq (cases : List SelectCase) (default : Option Block) :
    ev.select cases default scope frame = (do
      let ops ← ev.prepareCases scope cases
      holding (.values (ops.flatMap caseValues)) do
        let chosen ← ev.chosenCase ops default
        ev.afterChoice cases default scope frame chosen) := by
  unfold select chosenCase
  congr 1
  funext ops
  congr 1
  rw [bind_assoc]
  congr 1
  funext signal
  dsimp only
  congr 1
  funext chosen
  match chosen, default with
  | some (index, received), _ => rfl
  | none, some body => rfl
  | none, none => rfl

/-- **What follows a choice**: the body of the case that was chosen, or the default. -/
inductive Follows (ev : Evaluator) (cases : List SelectCase) (default : Option Block) (scope : ScopeId)
    (frame : FrameId) (s : EngineState) : Except EvalError (Option (Nat × Option (Value × Bool))) →
    List EngineState → Except EvalError Flow → EngineState → Prop where
  | failed {e : EvalError} : Follows ev cases default scope frame s (.error e) [] (.error e) s
  | case {i : Nat} {c : SelectCase} {received : Option (Value × Bool)} {path : List EngineState}
    {r : Except EvalError Flow} {t : EngineState} (hcase : cases[i]? = some c)
    (htakes : ev.Takes c received scope frame s path r t) :
    Follows ev cases default scope frame s (.ok (some (i, received))) path r t
  | default {body : Block} {path : List EngineState} {r : Except EvalError Flow} {t : EngineState}
    (hdefault : default = some body) (hbody : (ev.inner body scope frame).Runs s path r t) :
    Follows ev cases default scope frame s (.ok none) path (r.map (·.consumeBreak)) t

/-- **What a `select` does.**  Unless that fails, it evaluates the channels and values of its cases; then
it chooses among the operations, without waiting if there is a default, and is registered on no channel
more often than before; then it runs what is to follow.  The signal that may end the choice is that of the
run. -/
inductive Selects (ev : Evaluator) (cases : List SelectCase) (default : Option Block) (scope : ScopeId)
    (frame : FrameId) (s : EngineState) : List EngineState → Except EvalError Flow → EngineState → Prop
    where
  | unprepared {path : List EngineState} {e : EvalError} {t : EngineState}
    (hops : (ev.prepareCases scope cases).Runs s path (.error e) t) :
    Selects ev cases default scope frame s path (.error e) t
  | chosen {ops : List (ChanId × Option Value)} {before choosing after : List EngineState}
    {t u v w : EngineState} {ys : List Holding}
    {chosen : Except EvalError (Option (Nat × Option (Value × Bool)))}
    {r : Except EvalError Flow} (hops : (ev.prepareCases scope cases).Runs s before (.ok ops) t)
    (hprepares : List.Forall₂ Prepares cases ops) (hu : u = t.hold (.values (ops.flatMap caseValues)))
    (hruns : (ev.chosenCase ops default).Runs u choosing chosen v)
    (hchooses : Chooses ops default.isSome (u.run ev.run).signal ys (ev.chosenCase ops default u) u)
    (himmediate : default.isSome = true → choosing = [])
    (hconcludes : Concludes ops default.isSome (u.run ev.run).signal (choosing.getLastD u) v chosen)
    (hregistered : ∀ chan, v.enrolled chan = u.enrolled chan)
    (hfollows : ev.Follows cases default scope frame v chosen after r w) :
    Selects ev cases default scope frame s (before ++ (choosing ++ after)) r w.letGo

theorem follows_of_runs {cases : List SelectCase} {default : Option Block}
    {ops : List (ChanId × Option Value)} {chosen : Option (Nat × Option (Value × Bool))}
    {r : Except EvalError Flow} {signal : SignalId} (hprepares : List.Forall₂ Prepares cases ops)
    (hconcludes : Concludes ops default.isSome signal u s (.ok chosen)) (hx : s.Holds (some xs))
    (hruns : (ev.afterChoice cases default scope frame chosen).Runs s path r t) :
    ev.Follows cases default scope frame s (.ok chosen) path r t := by
  cases hconcludes with
  | @made i op received f hgoing hfirst hop hmakes halters =>
    obtain ⟨hi, -⟩ := List.getElem?_eq_some_iff.mp hop
    obtain ⟨c, hcase⟩ : ∃ c, cases[i]? = some c :=
      ⟨_, List.getElem?_eq_getElem (hprepares.length_eq ▸ hi)⟩
    simp only [afterChoice, hcase] at hruns
    exact .case hcase (takes_of_runs hx hruns)
  | skipped hgoing hskip hidles =>
    obtain ⟨body, rfl⟩ := Option.isSome_iff_exists.mp hskip
    obtain ⟨o, hbody, rfl⟩ := runs_map.mp hruns
    exact .default rfl hbody

end Evaluator

/-- Where evaluation ends, the task holds what it held. -/
theorem Watchful.holds {α : Type} {m : Eval α} {s t : EngineState} {path : List EngineState}
    {r : Except EvalError α} {xs : List Holding} (hm : Watchful [] m) (hx : s.Holds (some xs))
    (hruns : m.Runs s path r t) (hothers : (m s).Amid EngineState.Undisturbed path) :
    t.Holds (some xs) := by
  obtain ⟨⟨hcurrent, hheld, -⟩, -⟩ := (hm.watches s xs hx nofun).along rfl hruns hothers
    fun _ _ h => ⟨h.current_eq, h.held_eq⟩
  rw [EngineState.Holds, hcurrent]
  exact hheld

namespace Evaluator

/-- **A `select` performs one operation, the first that can be made.**  However the tasks take turns, a
`select` that ends evaluates the channels and values of its cases and then chooses.  As long as its run is not
cancelled, every operation has to wait and there is no default, it waits, and changes no channel.  Of the
operations that need not wait the first one decides: it is made, which moves a single value, and the body of
that case runs in a new scope that binds what was received; or it is a send of what does not fit, or on a closed
channel, and the `select` fails with that and has changed no channel.  If there is a default and every operation
has to wait, it runs the default without waiting.  Otherwise it fails only because its run was cancelled when it
chose, and has changed no channel.  After the choice, and in the end, it is registered as a receiver nowhere it
was not before. -/
theorem select_chooses_first (run : RunId) (fuel : Nat) (cases : List SelectCase)
    (default : Option Block) (scope : ScopeId) (frame : FrameId) {s : EngineState} {xs : List Holding}
    (hx : s.Holds (some xs)) :
    let ev : Evaluator := ofFuel run fuel
    (∀ ops, Chooses ops default.isSome (s.run run).signal xs (ev.chosenCase ops default s) s) ∧
    ∀ path r t, (ev.select cases default scope frame).Runs s path r t →
      (ev.select cases default scope frame s).Amid EngineState.Undisturbed path →
      ev.Selects cases default scope frame s path r t ∧
        t.Holds (some xs) ∧ ∀ chan, t.enrolled chan = s.enrolled chan := by
  intro ev
  obtain ⟨rounds, hall⟩ := watchful_ofFuel run fuel
  refine ⟨fun ops => ?_, fun path r t hruns hothers => ?_⟩
  · have hchooses : Chooses ops default.isSome _ _ (ev.chosenCase ops default s) s :=
      chooses_chosenCase ops default hx
    rw [show ev.run = run from hall.run_eq ()] at hchooses
    exact hchooses
  have ht : t.Holds (some xs) := (hall.select cases default scope frame).holds hx hruns hothers
  refine ⟨?_, ht, EngineState.enrolled_congr hx ht⟩
  rw [select_eq] at hruns hothers
  obtain ⟨before, rest, ops, u, rfl, hops, hrest⟩ | ⟨e, hops, rfl⟩ := runs_bind.mp hruns
  · rw [bind_apply, hops.amid_bind, andThen_ok, holding_apply] at hothers
    obtain ⟨hbefore, hothers⟩ := hothers
    obtain ⟨w, hinside, rfl⟩ := runs_holding.mp hrest
    have hothers := hothers.of_bind
    have hprepares := (yields_prepareCases cases).of_runs hops
    have hu : u.Holds (some xs) := (hall.prepareCases scope cases).holds hx hops hbefore
    have hheld := hu.hold (.values (ops.flatMap caseValues))
    have hchooses : Chooses ops default.isSome _ _ (ev.chosenCase ops default _) _ :=
      chooses_chosenCase ops default hheld
    obtain ⟨choosing, after, chosen, v, rfl, hchosen, hafter⟩ | ⟨e, hchosen, rfl⟩ :=
      runs_bind.mp hinside
    · rw [bind_apply, hchosen.amid_bind] at hothers
      obtain ⟨himmediate, hconcludes, hv⟩ := hchooses.along hchosen hothers.1
      exact .chosen hops hprepares rfl hchosen hchooses himmediate hconcludes
        (EngineState.enrolled_congr hheld hv) (follows_of_runs hprepares hconcludes hv hafter)
    · rw [bind_apply] at hothers
      obtain ⟨himmediate, hconcludes, hv⟩ := hchooses.along hchosen hothers.of_bind
      rw [← List.append_nil rest]
      exact .chosen hops hprepares rfl hchosen hchooses himmediate hconcludes
        (EngineState.enrolled_congr hheld hv) .failed
  · exact .unprepared hops

/-- The empty channel `a`, and the channel `b`, which holds 7. -/
@[irreducible] def twoOffers : EngineState :=
  let room : Channel := { capacity := 1, elemType := none }
  { EngineState.initial with
    heap := {
      chans := (({} : Store Channel).push room).push { room with buffer := [.int 7] }
      scopes := ({} : Store Scope).push
        { vars := (Bindings.empty.insert "a" (.chan 0)).insert "b" (.chan 1) } }
    governors := ({} : Store Governor).push { limit := 0 }
    runs := ({} : Store Run).push ⟨0, ⟨0, 0, 0, 0⟩, 0, 0⟩ }

/-- Receives from `a` or `b`, and gives what came from `b`. -/
def eitherOffer : List SelectCase :=
  [.mk (.recv (.ident "a") none none) [], .mk (.recv (.ident "b") (some "v") none) [.expr (.ident "v")]]

/-- Receives from `a`. -/
def firstOffer : List SelectCase := [.mk (.recv (.ident "a") none none) []]

/-- There is something to receive from the second channel only.  A `select` that receives from the first one
runs its default. -/
theorem select_chooses_first_second :
    (∃ t, ((ofFuel 0 9).select eitherOffer none 0 0).Runs twoOffers [] (.ok (.value (.int 7))) t ∧
      (ofFuel 0 9).Selects eitherOffer none 0 0 twoOffers [] (.ok (.value (.int 7))) t ∧
      t.Holds (some [])) ∧
    ∃ t, ((ofFuel 0 9).select firstOffer (some [.expr (.int 3)]) 0 0).Runs twoOffers []
        (.ok (.value (.int 3))) t ∧
      (ofFuel 0 9).Selects firstOffer (some [.expr (.int 3)]) 0 0 twoOffers [] (.ok (.value (.int 3))) t ∧
      t.Holds (some []) := by
  have hx : twoOffers.Holds (some []) := by
    unfold twoOffers
    rfl
  obtain ⟨t, hsecond⟩ : ∃ t, ((ofFuel 0 9).select eitherOffer none 0 0).Runs twoOffers []
      (.ok (.value (.int 7))) t := ⟨_, runs_of_gives (by decide +kernel)⟩
  obtain ⟨u, hdefault⟩ : ∃ u, ((ofFuel 0 9).select firstOffer (some [.expr (.int 3)]) 0 0).Runs twoOffers []
      (.ok (.value (.int 3))) u := ⟨_, runs_of_gives (by decide +kernel)⟩
  obtain ⟨hselects, hheld, -⟩ :=
    (select_chooses_first 0 9 eitherOffer none 0 0 hx).2 _ _ _ hsecond (Step.amid_nil _)
  obtain ⟨hskips, hrest, -⟩ :=
    (select_chooses_first 0 9 firstOffer (some [.expr (.int 3)]) 0 0 hx).2 _ _ _ hdefault (Step.amid_nil _)
  exact ⟨⟨t, hsecond, hselects, hheld⟩, u, hdefault, hskips, hrest⟩

end Evaluator
end ScriptEngine
