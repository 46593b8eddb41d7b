import ScriptEngine.Evaluator.Expression
import ScriptEngine.Proofs.EngineState.Scopes
import ScriptEngine.Proofs.Heap.Plain
import ScriptEngine.Proofs.Heap.Products
import ScriptEngine.Proofs.Heap.Scopes
import ScriptEngine.Proofs.Task.Equations
import ScriptEngine.Proofs.Tree.Fragment

/-! # Rules that all of evaluation follows

Many laws of evaluation are about a property of computations: that they observe a law on states, say,
or that they do the same in two states that are alike.  Such a property holds of all of evaluation once
it holds of what evaluation is made of, and is kept where computations are put together.  `Rules` lists
what is to be shown: one rule for each way of putting computations together, for each look at the
state, and for each change that is made to it at one go.  What else evaluation is built from follows
here; expressions, statements and calls follow in `Evaluator.Obedience` and `Evaluator.Scripts`.

A property may rely on what evaluation comes across being of a certain `Domain`: the objects that it
gets to see, the scopes in which it binds names, the runs that it belongs to, the signals that end its
waits, the frames in which it registers calls, and the code that it goes through.
-/
namespace ScriptEngine

variable {α β : Type}

/-! ## What is of a zone -/

/-- The error throws nothing from outside the zone. -/
def EvalError.In (Z : Zone) (e : EvalError) : Prop := ∀ v, e.fault = .thrown v → v.In Z

/-- The call refers to nothing outside the zone. -/
def DeferredCall.In (Z : Zone) (c : DeferredCall) : Prop := c.callee.In Z ∧ ∀ v ∈ c.args, v.In Z

/-- The job refers to nothing outside the zone. -/
def Job.In (Z : Zone) (job : Job) : Prop := ∀ v ∈ job.values, v.In Z

/-- All the values refer to nothing outside the zone. -/
abbrev AllIn (Z : Zone) (vs : List Value) : Prop := ∀ v ∈ vs, v.In Z

/-- What happens when the holding is given back happens in the zone. -/
def Holding.In (Z : Zone) : Holding → Prop
  | .block scope => Z (.scope scope)
  | .receiver chan => Z (.chan chan)
  | _ => True

/-- The holding is of the zone, and neither a block nor a frame: a scope is held as a block only where it
has been opened, and a frame only where it is new. -/
def Holding.Loose (Z : Zone) : Holding → Prop
  | .block _ | .frame _ => False
  | x => x.In Z

namespace Holding.Loose
variable {Z : Zone} {x : Holding}

theorem is_in (hx : x.Loose Z) : x.In Z := by
  cases x with
  | block scope | frame id => exact hx.elim
  | _ => exact hx

theorem ne_block (hx : x.Loose Z) (scope : ScopeId) : x ≠ .block scope := by
  rintro rfl
  exact hx

theorem ne_frame (hx : x.Loose Z) (frame : FrameId) : x ≠ .frame frame := by
  rintro rfl
  exact hx

end Holding.Loose

/-- The outcome is of the zone: a result is as it should be, and an error throws nothing else. -/
def Ends (Z : Zone) (Q : α → Prop) : Except EvalError α → Prop
  | .ok a => Q a
  | .error e => e.In Z

/-- The operations of a `select` see nothing outside the zone. -/
def OpsIn (Z : Zone) (ops : List (ChanId × Option Value)) : Prop :=
  ∀ op ∈ ops, Z (.chan op.1) ∧ ∀ v, op.2 = some v → v.In Z

/-! ### The zone of all objects -/

theorem value_in_all (v : Value) : v.In fun _ => True := fun _ _ => trivial

theorem error_in_all (e : EvalError) : e.In fun _ => True := fun v _ => value_in_all v

theorem ends_in_all (r : Except EvalError α) : Ends (fun _ => True) (fun _ => True) r := by
  cases r with
  | ok a => trivial
  | error e => exact error_in_all e

/-! ## Rules -/

/-- What evaluation comes across. -/
structure Domain where
  /-- Objects that it gets to see. -/
  zone : Zone
  /-- Scopes in which it binds names. -/
  writable : ScopeId → Prop
  /-- Runs that it belongs to. -/
  runs : RunId → Prop
  /-- Signals that end its waits. -/
  signals : SignalId → Prop
  /-- Frames in which it registers calls. -/
  frames : FrameId → Prop
  /-- Frames of the bodies that it begins. -/
  bodies : FrameId → Prop
  /-- Nodes of the scripts that it goes through. -/
  code : Fragment

/-- Nothing is out of bounds, except that runs and signals are of some kind. -/
abbrev Domain.all (runs : RunId → Prop) (signals : SignalId → Prop) : Domain :=
  ⟨fun _ => True, fun _ => True, runs, signals, fun _ => True, fun _ => True, .all⟩

/-- The rules about what evaluation does on account of its run. -/
structure RunRules (D : Domain) (Φ : ∀ {α : Type}, (α → Prop) → Eval α → Prop) : Prop where
  bind : ∀ {α β : Type} {P : α → Prop} {Q : β → Prop} {m : Eval α} {k : α → Eval β}, Φ P m →
    (∀ a, P a → Φ Q (k a)) → Φ Q (m >>= k)
  signalOf : ∀ {run}, D.runs run → Φ D.signals (Eval.signalOf run)
  cyclesOf : ∀ {α : Type} {P : α → Prop} {run : RunId} (f : Nat → α), D.runs run →
    (∀ n, P (f n)) → Φ P (Eval.read fun s => f (s.run run).cycles)
  checkSignal : ∀ {signal}, D.signals signal → Φ (fun _ => True) (Eval.checkSignal signal)
  await : ∀ {on : Wait}, (∀ signal, on.signal? = some signal → D.signals signal) →
    Φ (fun _ => True) (Eval.await on)
  spend : ∀ {run}, D.runs run → ∀ n, Φ (fun _ => True)
    (Eval.modify (·.modifyRun run fun r => { r with cycles := r.cycles + n }))
  tick : ∀ {run}, D.runs run → Φ (fun _ => True) (Eval.tick run)

/-- **The rules for a property of computations**, with what is to be true of the results, under which
all evaluation in the domain has the property.  `Opens` is the property for computations that open a
scope, as long as the scope has not been entered. -/
structure Rules (D : Domain) (Φ : ∀ {α : Type}, (α → Prop) → Eval α → Prop)
    (Opens : Eval ScopeId → Prop) : Prop extends RunRules D Φ where
  zone_of_writable : ∀ {scope}, D.writable scope → D.zone (.scope scope)
  frames_of_bodies : ∀ {frame}, D.bodies frame → D.frames frame
  -- putting computations together
  pure : ∀ {α : Type} {P : α → Prop} {a : α}, P a → Φ P (Pure.pure a)
  throw : ∀ {α : Type} {P : α → Prop} {e : EvalError}, e.In D.zone → Φ P (MonadExcept.throw e)
  breakDown : ∀ {α : Type} {P : α → Prop} (message : Option String), Φ P (Eval.breakDown message)
  outOfFuel : ∀ {α : Type} {P : α → Prop}, Φ P Eval.outOfFuel
  weaken : ∀ {α : Type} {P P' : α → Prop} {m : Eval α}, Φ P m → (∀ a, P a → P' a) → Φ P' m
  located : ∀ {α : Type} {P : α → Prop} (p : Position) {m : Eval α}, Φ P m →
    Φ P (Eval.located p m)
  attempt : ∀ {α : Type} {P : α → Prop} {m : Eval α}, Φ P m → Φ (Ends D.zone P) (Eval.attempt m)
  /-- The code has something about it that does not fit. -/
  misfit : ∀ {α : Type} {P : α → Prop} {m : Misfit}, D.code.Allows m → Φ P (Eval.misfit m : Eval α)
  holding : ∀ {α : Type} {P : α → Prop} {x : Holding} {m : Eval α}, x.Loose D.zone → Φ P m →
    Φ P (Eval.holding x m)
  -- looking
  readHeap : ∀ {α : Type} {P : α → Prop} {f : Heap → α}, (∀ h, h.Encloses D.zone → P (f h)) →
    Φ P (Eval.readHeap f)
  /-- The functions of scripts that evaluation gets to see are written in the code. -/
  callee : ∀ {id}, D.zone (.func id) →
    Φ (fun f => (∀ o ∈ f.objects, D.zone o) ∧ f.In D.code) (Eval.readHeap (·.func id))
  deferred : ∀ frame, Φ (fun calls => ∀ c ∈ calls, c.In D.zone) (Eval.deferred frame)
  sleep : ∀ ms, Φ (fun _ => True) (ExceptT.lift (Task.sleep ms))
  -- the limits of a run
  /-- A checkpoint is one thing: what is on record of it is written at its end. -/
  checkpoint : ∀ {run}, D.runs run → Φ (fun _ => True) (Eval.checkpoint run)
  checkLength : ∀ {run}, D.runs run → ∀ length, Φ (fun _ => True) (Eval.checkLength run length)
  cancel : ∀ {signal}, D.signals signal → Φ (fun _ => True) (Eval.modify (·.cancel signal))
  -- objects
  onHeap : ∀ {α : Type} {P : α → Prop} {f : Heap → Outcome (α × Heap)} [∀ h, (f h).Plain]
    [∀ h, (f h).KeepsFabric h],
    (∀ h a h', h.Encloses D.zone → f h = .ok (a, h') → h.Stays D.zone h' ∧ P a) →
    Φ P (Eval.onHeap f)
  alloc : ∀ {α : Type} {P : α → Prop} {f : Heap → α × Heap},
    (∀ h, h.Encloses D.zone →
      (h.Stays D.zone (f h).2 ∧ P (f h).1) ∧ (f h).2.fabric = h.fabric) → Φ P (Eval.alloc f)
  changeHeap : ∀ {f : Heap → Outcome Heap} [∀ h, (f h).Plain],
    (∀ h h', h.Encloses D.zone → f h = .ok h' → h.Stays D.zone h' ∧ h'.fabric = h.fabric) →
    Φ (fun _ => True) (Eval.changeHeap f)
  store : ∀ {f : Heap → Outcome (Write × Heap)} [∀ h, (f h).Plain] [∀ h, (f h).KeepsFabric h],
    (∀ h w h', h.Encloses D.zone → f h = .ok (w, h') → h.Stays D.zone h' ∧ w.In D.zone) →
    Φ (fun _ => True) (Eval.store f)
  -- channels
  notify : ∀ chan, Φ (fun _ => True) (Eval.modify (·.notify (.channel chan)))
  register : ∀ {chan}, D.zone (.chan chan) → Φ (fun _ => True) (Eval.modify (·.register chan))
  -- scopes
  capture : ∀ {scope}, D.zone (.scope scope) → D.code.Modular →
    Φ (fun _ => True) (Eval.modify (·.capture scope))
  /-- The scope of a function that is made is captured first. -/
  closure : ∀ {definition scope} (selfBound : Bool), D.zone (.scope scope) → definition.In D.code →
    Φ (Value.In D.zone) (Eval.closure definition scope selfBound)
  openScope : ∀ {parent}, D.zone (.scope parent) → Opens (Eval.openScope parent)
  holdingOpens : ∀ {x : Holding} {m : Eval ScopeId}, x.Loose D.zone → Opens m →
    Opens (Eval.holding x m)
  thenOpens : ∀ {α : Type} {P : α → Prop} {m : Eval α} {k : α → Eval ScopeId}, Φ P m →
    (∀ a, P a → Opens (k a)) → Opens (m >>= k)
  /-- A scope that has been opened is held as a block. -/
  inside : ∀ {α : Type} {P : α → Prop} {m : Eval ScopeId} {k : ScopeId → Eval α}, Opens m →
    (∀ scope, D.writable scope → Φ P (k scope)) →
    Φ P (m >>= fun scope => Eval.holding (.block scope) (k scope))
  -- names
  define : ∀ {scope name}, D.writable scope → D.code.Binds name → ∀ {v : Value}, v.In D.zone →
    Φ (fun _ => True) (Eval.define scope name v)
  assign : ∀ {scope name}, D.writable scope → D.code.Binds name → ∀ {v : Value}, v.In D.zone →
    Φ (fun _ => True) (Eval.assign scope name v)
  /-- A name that has a value gets another one. -/
  revise : ∀ {scope}, D.zone (.scope scope) → ∀ name {f : Value → Heap → Outcome Value}
    [∀ v h, (f v h).Plain], (∀ v h w, f v h = .ok w → w.In D.zone) →
    Φ (Value.In D.zone) (do
      let current ← Eval.lookup scope name
      let updated ← Eval.tryHeap (f current)
      Eval.assign scope name updated
      return updated)
  packageNamed : ∀ {scope}, D.zone (.scope scope) → ∀ name,
    Φ (fun p => ∀ package, p = some package → D.writable package)
      (Eval.readHeap (·.packageNamed? scope name))
  definePackage : ∀ {scope package}, D.writable scope → D.writable package → ∀ {name body},
    D.code (.stmt (.module name body)) →
    Φ (fun _ => True) (Eval.definePackage scope name package)
  -- deferred calls and tasks
  /-- A frame is new where it is held. -/
  inFrame : ∀ {α : Type} {P : α → Prop} {m : FrameId → Eval α},
    (∀ frame, D.bodies frame → Φ P (m frame)) → Φ P (Eval.inFrame m)
  defer : ∀ {frame}, D.frames frame → ∀ {call : DeferredCall}, call.In D.zone →
    Φ (fun _ => True) (Eval.defer frame call)
  dropDeferred : ∀ {frame}, D.bodies frame → Φ (fun _ => True) (Eval.dropDeferred frame)
  /-- A task that is started makes a call of the run. -/
  start : ∀ {run callee args} (spread : Bool), D.runs run → callee.In D.zone →
    (∀ v ∈ args, v.In D.zone) → D.code.Concurrent →
    Φ (fun _ => True) (Eval.update (·.start (.call run callee args spread)))

namespace Eval

/-- A scope is opened, or it is put on record that there was no slot for one. -/
theorem openScope_apply (parent : ScopeId) (s : EngineState) :
    openScope parent s = match (s.addChild parent).1 with
      | .ok scope => .done (s.addChild parent).2 (.ok scope)
      | .error e =>
        ofFailure e ((s.addChild parent).2.refuse (.scope (s.heap.scope parent).governor)) := by
  rw [openScope, bind_apply, readHeap_apply, Step.bind_of_done, andThen_ok, bind_apply, update_apply,
    Step.bind_of_done, andThen_ok]
  cases (s.addChild parent).1 <;> rfl

/-- Capturing a scope and making a function is one step. -/
theorem closure_apply (definition : FuncDef) (scope : ScopeId) (selfBound : Bool)
    (s : EngineState) :
    closure definition scope selfBound s =
      alloc (·.addFunc (.script definition scope (selfBound && definition.name.isSome)))
        (s.capture scope) := rfl

/-- Adds the items with numbers from `index` on, as an operation on the heap. -/
def fillHeap (f : Nat → Heap → Outcome Value × Heap) :
    (count : Nat) → (index : Nat) → Array Value → Heap → Outcome (Array Value) × Heap
  | 0, _, items, h => (.ok items, h)
  | count + 1, index, items, h =>
    match f index h with
    | (.ok v, h) => fillHeap f count (index + 1) (items.push v) h
    | (.error e, h) => (.error e, h)

/-- Items that are made on the heap only are a new thing on the heap. -/
theorem update_fill {item : Nat → EngineState → Outcome Value × EngineState}
    {f : Nat → Heap → Outcome Value × Heap}
    (hitem : ∀ i s, item i s = ((f i s.heap).1, { s with heap := (f i s.heap).2 }))
    (count index : Nat) (items : Array Value) :
    update (fill item count index items) = alloc (fillHeap f count index items) := by
  funext s
  rw [update_apply, alloc_apply]
  suffices fill item count index items s =
      ((fillHeap f count index items s.heap).1,
        { s with heap := (fillHeap f count index items s.heap).2 }) by rw [this]
  induction count generalizing index items s with
  | zero => rfl
  | succ count ih =>
    simp only [fill, fillHeap, hitem]
    cases hf : f index s.heap with
    | mk o h =>
      cases o with
      | ok v => exact ih _ _ _
      | error e => rfl

end Eval

/-! ## The limits of a run -/

namespace RunRules
variable {D : Domain} {Φ : ∀ {α : Type}, (α → Prop) → Eval α → Prop} {P : α → Prop} {Q : β → Prop}
  (hR : RunRules D Φ)
include hR

/-- The first result does not matter. -/
theorem after {m : Eval α} {k : α → Eval β} (hm : Φ P m) (hk : ∀ a, Φ Q (k a)) : Φ Q (m >>= k) :=
  hR.bind hm fun a _ => hk a

theorem giveWay : Φ (fun _ => True) (Eval.await .turn) := hR.await nofun

variable {run : RunId} (hrun : D.runs run)
include hrun

theorem checkRun : Φ (fun _ => True) (Eval.checkRun run) :=
  hR.bind (hR.signalOf hrun) fun _ hsignal => hR.checkSignal hsignal

theorem countCycles (n : Nat) : Φ (fun _ => True) (Eval.countCycles run n) :=
  hR.after (hR.spend hrun n) fun _ => hR.cyclesOf id hrun fun _ => trivial

theorem step : Φ (fun _ => True) (Eval.step run) := by
  refine hR.after (hR.countCycles hrun 1) fun cycles => ?_
  split
  · exact hR.after hR.giveWay fun _ => hR.tick hrun
  · exact hR.tick hrun

theorem pulse : Φ (fun _ => True) (Eval.pulse run) :=
  hR.after (hR.checkRun hrun) fun _ => hR.after (hR.countCycles hrun _) fun _ =>
    hR.after hR.giveWay fun _ => hR.tick hrun

/-- A checkpoint, if the rule for putting on record that it was passed is known. -/
theorem checkpointOf (hpass : Φ (fun _ => True) (Eval.modify (·.pass run))) :
    Φ (fun _ => True) (Eval.checkpoint run) :=
  hR.after (hR.checkRun hrun) fun _ => hR.after (hR.step hrun) fun _ => hpass

end RunRules

namespace Rules
variable {D : Domain} {Φ : ∀ {α : Type}, (α → Prop) → Eval α → Prop} {Opens : Eval ScopeId → Prop}
  {P : α → Prop} {Q : β → Prop} (hR : Rules D Φ Opens)
include hR

/-! ## Failing and choosing -/

/-- Failing without throwing anything. -/
theorem fail {f : Fault} (hf : ∀ v, f ≠ .thrown v) : Φ P (Eval.fail f : Eval α) :=
  hR.throw fun v hv => absurd hv (hf v)

theorem failWith (message : String) : Φ P (Eval.failWith message : Eval α) := hR.fail nofun

omit hR in
theorem ite {c : Prop} [Decidable c] {m n : Eval α} (hm : c → Φ P m) (hn : ¬ c → Φ P n) :
    Φ P (if c then m else n) := by
  split
  · exact hm ‹_›
  · exact hn ‹_›

theorem ofFailure {e : Failure} (he : ∀ v, e ≠ .fault (.thrown v)) :
    Φ P (Eval.ofFailure e : Eval α) := by
  cases e with
  | fault f => exact hR.fail fun v hv => he v (congrArg _ hv)
  | overflow => exact hR.breakDown _

theorem ofOutcome (o : Outcome α) [ho : Outcome.Plain o] (hP : ∀ a, o = .ok a → P a) :
    Φ P (Eval.ofOutcome o) := by
  cases o with
  | ok a => exact hR.pure (hP a rfl)
  | error e => exact hR.ofFailure fun v hv => ho.ne_thrown v (congrArg _ hv)

theorem ofExcept {r : Except EvalError α} (hr : Ends D.zone P r) :
    Φ P (MonadExcept.ofExcept r : Eval α) := by
  cases r with
  | ok a => exact hR.pure hr
  | error e => exact hR.throw hr

theorem any {m : Eval α} (hm : Φ P m) : Φ (fun _ => True) m := hR.weaken hm fun _ _ => trivial

/-! ## Looking and making -/

/-- A look at the heap whose result does not matter. -/
theorem look (f : Heap → α) : Φ (fun _ => True) (Eval.readHeap f) := hR.readHeap fun _ _ => trivial

theorem tryHeap {f : Heap → Outcome α} [hplain : ∀ h, (f h).Plain]
    (hP : ∀ h a, h.Encloses D.zone → f h = .ok a → P a) : Φ P (Eval.tryHeap f) := by
  refine hR.bind (P := fun o => o.Plain ∧ ∀ a, o = .ok a → P a)
    (hR.readHeap fun h hz => ⟨hplain h, fun a ha => hP h a hz ha⟩) fun o ho => ?_
  have := ho.1
  exact hR.ofOutcome o ho.2

theorem newList {items : Array Value} (hitems : ∀ v ∈ items.toList, v.In D.zone) :
    Φ (Value.In D.zone) (Eval.alloc (·.addPlainList items)) :=
  hR.alloc fun _ hz => ⟨hz.addList hitems, rfl⟩

theorem place (p : Place) {m : Eval α} (hm : Φ P m) : Φ P (p.holding m) := by
  cases p with
  | var name => exact hm
  | element container index | field container name | member package name =>
    exact hR.holding trivial hm

section
variable {run : RunId} (hrun : D.runs run)
include hrun

/-! ## Building in stretches -/

omit hR hrun in
/-- One item after the other, where making one stays in the zone and has nothing to do with
scopes. -/
theorem stays_fillHeap {Z : Zone} {f : Nat → Heap → Outcome Value × Heap}
    (hf : ∀ i h, h.Encloses Z → h.Stays Z (f i h).2 ∧ ∀ v, (f i h).1 = .ok v → v.In Z)
    (hfabric : ∀ i h, (f i h).2.fabric = h.fabric) (hplain : ∀ i h, (f i h).1.Plain)
    (count index : Nat) {items : Array Value} {h : Heap} (hz : h.Encloses Z)
    (hitems : ∀ v ∈ items.toList, v.In Z) :
    (h.Stays Z (Eval.fillHeap f count index items h).2 ∧
      (Eval.fillHeap f count index items h).1.Plain ∧
      ∀ vs, (Eval.fillHeap f count index items h).1 = .ok vs → ∀ v ∈ vs.toList, v.In Z) ∧
    (Eval.fillHeap f count index items h).2.fabric = h.fabric := by
  induction count generalizing index items h with
  | zero =>
    refine ⟨⟨hz.stays, ⟨nofun⟩, fun vs hvs => ?_⟩, rfl⟩
    cases hvs
    exact hitems
  | succ count ih =>
    obtain ⟨hmade, hv⟩ := hf index h hz
    have hsame := hfabric index h
    have hp := hplain index h
    unfold Eval.fillHeap
    split
    · rename_i v h₁ heq
      rw [heq] at hmade hv hsame
      have hpushed : ∀ x ∈ (items.push v).toList, x.In Z := by
        rw [Array.toList_push]
        exact List.forall_mem_append.mpr ⟨hitems, List.forall_mem_singleton.mpr (hv v rfl)⟩
      obtain ⟨⟨hrest, hall⟩, hfabric⟩ := ih (index + 1) hmade.encloses hpushed
      exact ⟨⟨hmade.trans hrest, hall⟩, hfabric.trans hsame⟩
    · rename_i e h₁ heq
      rw [heq] at hmade hsame hp
      exact ⟨⟨hmade, ⟨fun v hv => hp.ne_thrown v (by cases hv; rfl)⟩, nofun⟩, hsame⟩

theorem build {item : Nat → EngineState → Outcome Value × EngineState}
    {f : Nat → Heap → Outcome Value × Heap}
    (hitem : ∀ i s, item i s = ((f i s.heap).1, { s with heap := (f i s.heap).2 }))
    (hf : ∀ i h, h.Encloses D.zone →
      h.Stays D.zone (f i h).2 ∧ ∀ v, (f i h).1 = .ok v → v.In D.zone)
    (hfabric : ∀ i h, (f i h).2.fabric = h.fabric) (hplain : ∀ i h, (f i h).1.Plain)
    (length : Nat) :
    Φ (fun vs => ∀ v ∈ vs.toList, v.In D.zone) (Eval.build run length item) := by
  have hstretches (stretches size : Nat) (built : List (Array Value))
      (hbuilt : ∀ vs ∈ built, ∀ v ∈ vs.toList, v.In D.zone) :
      Φ (fun built => ∀ vs ∈ built, ∀ v ∈ vs.toList, v.In D.zone)
        (Eval.buildStretches run length item stretches size built) := by
    induction stretches generalizing size built with
    | zero => exact hR.pure hbuilt
    | succ stretches ih =>
      have hrest : Φ (fun built => ∀ vs ∈ built, ∀ v ∈ vs.toList, v.In D.zone) (do
          let count := min turnInterval (length - size)
          let stretch ← Eval.ofOutcome (← Eval.update (Eval.fill item count size #[]))
          Eval.buildStretches run length item stretches (size + count) (stretch :: built)) := by
        have hfill (count : Nat) : Φ (fun o : Outcome (Array Value) => o.Plain ∧
            ∀ vs, o = .ok vs → ∀ v ∈ vs.toList, v.In D.zone)
            (Eval.update (Eval.fill item count size #[])) := by
          rw [Eval.update_fill hitem]
          exact hR.alloc fun h hz =>
            stays_fillHeap hf hfabric hplain count size hz (List.forall_mem_nil _)
        refine hR.bind (hfill _) fun o ho => ?_
        have := ho.1
        refine hR.bind (hR.ofOutcome o ho.2) fun stretch hstretch => ?_
        exact ih _ _ (List.forall_mem_cons.mpr ⟨hstretch, hbuilt⟩)
      unfold Eval.buildStretches
      exact ite (fun _ => hrest) fun _ =>
        hR.after (hR.holding trivial (hR.pulse hrun)) fun _ => hrest
  refine hR.after (hR.checkLength hrun length) fun _ => ?_
  refine hR.bind (hstretches _ _ _ (List.forall_mem_nil _)) fun built hbuilt =>
    hR.pure fun v hv => ?_
  induction built with
  | nil => cases hv
  | cons stretch rest ih =>
    obtain ⟨hstretch, hrest⟩ := List.forall_mem_cons.mp hbuilt
    rw [List.foldr_cons, Array.toList_append, List.mem_append] at hv
    exact hv.elim (ih hrest) (hstretch v)

theorem repeatText (text : String) (count : Int64) :
    Φ (fun _ => True) (Eval.repeatText run text count) := by
  have hstretches (stretches count : Nat) (written : String) :
      Φ (fun _ => True) (Eval.repeatStretches run text stretches count written) := by
    induction stretches generalizing count written with
    | zero => exact hR.pure trivial
    | succ stretches ih =>
      unfold Eval.repeatStretches
      exact ite (fun _ => ih _ _) fun _ => hR.after (hR.pulse hrun) fun _ => ih _ _
  refine hR.after (hR.ofOutcome (P := fun _ => True) _ fun _ _ => trivial) fun length => ?_
  refine hR.after (hR.checkLength hrun length) fun _ => ite (fun _ => hR.pure trivial) fun _ => ?_
  exact hstretches _ _ _

end

/-! ## Channels -/

section
variable {chan : ChanId} {v : Value} (hchan : D.zone (.chan chan))
include hchan

theorem offer (hv : v.In D.zone) : Φ (fun _ => True) (Eval.offer chan v) := by
  refine hR.after (hR.onHeap (P := fun _ => True) fun h ticket h' hz ho =>
    ⟨Heap.stays_offer hz hchan hv ho, trivial⟩) fun ticket => ?_
  exact ite (fun _ => hR.after (hR.notify chan) fun _ => hR.pure trivial) fun _ => hR.pure trivial

theorem trySend (hv : v.In D.zone) : Φ (fun _ => True) (Eval.trySend chan v) := by
  refine hR.after (hR.onHeap (P := fun _ => True) fun h sent h' hz ho =>
    ⟨Heap.stays_trySend hz hchan hv ho, trivial⟩) fun sent => ?_
  exact ite (fun _ => hR.after (hR.notify chan) fun _ => hR.pure trivial) fun _ => hR.pure trivial

/-- What was received, if anything was. -/
theorem tryRecv : Φ (fun r => ∀ w, r.map (·.1) = some w → w.In D.zone) (Eval.tryRecv chan) := by
  refine hR.bind (hR.onHeap fun _ _ _ hz ho => Heap.stays_tryRecv hz hchan ho) fun r hr => ?_
  match r with
  | some (_, true) => exact hR.after (hR.notify chan) fun _ => hR.pure hr
  | some (_, false) | none => exact hR.pure hr

theorem close : Φ (fun _ => True) (Eval.close chan) :=
  hR.after (hR.changeHeap fun _ _ hz ho =>
    ⟨Heap.stays_closeChan hz hchan ho, Heap.fabric_closeChan ho⟩) fun _ => hR.notify chan

theorem receiving {m : Eval α} (hm : Φ P m) : Φ P (Eval.receiving chan m) :=
  hR.after (hR.register hchan) fun _ => hR.holding hchan hm

omit hchan in
theorem receivingAll {chans : List ChanId} (hchans : ∀ c ∈ chans, D.zone (.chan c)) {m : Eval α}
    (hm : Φ P m) : Φ P (Eval.receivingAll chans m) := by
  induction chans with
  | nil => exact hm
  | cons chan rest ih =>
    obtain ⟨hchan, hrest⟩ := List.forall_mem_cons.mp hchans
    exact hR.receiving hchan (ih hrest)

variable {signal : SignalId} (hsignal : D.signals signal)
include hsignal

omit hR hchan in
/-- A wait that names a signal. -/
theorem names {on : Wait} (hon : on.signal? = some signal) (other : SignalId)
    (ho : on.signal? = some other) : D.signals other := by
  rw [hon] at ho
  exact Option.some.inj ho ▸ hsignal

omit hchan in
theorem awaitPickup (ticket : Nat) (rounds : Nat) :
    Φ (fun _ => True) (Eval.awaitPickup chan ticket signal rounds) := by
  induction rounds with
  | zero => exact hR.outOfFuel
  | succ rounds ih =>
    refine hR.after (hR.look _) fun settled => ite (fun _ => hR.pure trivial) fun _ => ?_
    exact hR.after (hR.await (names hsignal rfl)) fun _ => ih

theorem leave (hv : v.In D.zone) (rounds : Nat) :
    Φ (fun _ => True) (Eval.leave chan v signal rounds) := by
  induction rounds with
  | zero => exact hR.outOfFuel
  | succ rounds ih =>
    refine hR.after (hR.offer hchan hv) fun ticket => ?_
    cases ticket with
    | some ticket => exact hR.pure trivial
    | none =>
      exact hR.after (hR.holding trivial (hR.await (names hsignal rfl))) fun _ => ih

theorem send (hv : v.In D.zone) (rounds : Nat) :
    Φ (fun _ => True) (Eval.send rounds chan v signal) := by
  refine hR.holding trivial (hR.bind (hR.onHeap fun h w h' hz ho =>
    Heap.stays_convertTo hz hv ho) fun w hw => ?_)
  refine hR.after (hR.leave hchan hsignal hw rounds) fun ticket => ?_
  exact hR.after (hR.look _) fun _ =>
    ite (fun _ => hR.awaitPickup hsignal ticket rounds) fun _ => hR.pure trivial

theorem awaitValue (rounds : Nat) :
    Φ (fun r => r.1.In D.zone) (Eval.awaitValue chan signal rounds) := by
  induction rounds with
  | zero => exact hR.outOfFuel
  | succ rounds ih =>
    refine hR.bind (hR.tryRecv hchan) fun received hr => ?_
    cases received with
    | some received => exact hR.pure (hr _ rfl)
    | none => exact hR.after (hR.await (names hsignal rfl)) fun _ => ih

theorem recv (rounds : Nat) : Φ (fun r => r.1.In D.zone) (Eval.recv rounds chan signal) := by
  refine hR.holding trivial (hR.bind (hR.tryRecv hchan) fun received hr => ?_)
  cases received with
  | some received => exact hR.pure (hr _ rfl)
  | none => exact hR.receiving hchan (hR.awaitValue hchan hsignal rounds)

end

/-- What a `select` received, if it chose to receive. -/
theorem tryCases {ops : List (ChanId × Option Value)} (hops : OpsIn D.zone ops) (index : Nat) :
    Φ (fun chosen => ∀ i w ok, chosen = some (i, some (w, ok)) → w.In D.zone)
      (Eval.tryCases ops index) := by
  induction ops generalizing index with
  | nil => exact hR.pure nofun
  | cons op rest ih =>
    obtain ⟨chan, outgoing⟩ := op
    obtain ⟨hop, hrest⟩ := List.forall_mem_cons.mp hops
    cases outgoing with
    | some v =>
      refine hR.after (hR.trySend hop.1 (hop.2 v rfl)) fun sent => ?_
      exact ite (fun _ => hR.pure fun i w ok he => by cases he) fun _ => ih hrest _
    | none =>
      refine hR.bind (hR.tryRecv hop.1) fun received hr => ?_
      cases received with
      | some received =>
        refine hR.pure fun i w ok he => ?_
        cases he
        exact hr _ rfl
      | none => exact ih hrest _

theorem awaitCase {ops : List (ChanId × Option Value)} (hops : OpsIn D.zone ops) (canSkip : Bool)
    {signal : SignalId} (hsignal : D.signals signal) (rounds : Nat) :
    Φ (fun chosen => ∀ i w ok, chosen = some (i, some (w, ok)) → w.In D.zone)
      (Eval.awaitCase ops canSkip signal rounds) := by
  induction rounds with
  | zero => exact hR.outOfFuel
  | succ rounds ih =>
    refine hR.after (hR.checkSignal hsignal) fun _ => ?_
    refine hR.bind (hR.tryCases hops 0) fun chosen hchosen => ?_
    cases chosen with
    | some chosen => exact hR.pure hchosen
    | none =>
      exact ite (fun _ => hR.pure nofun) fun _ =>
        hR.after (hR.holding trivial (hR.await (names hsignal rfl))) fun _ => ih

/-! ## Scopes and names -/

theorem inChild {parent : ScopeId} (hparent : D.zone (.scope parent)) {m : ScopeId → Eval α}
    (hm : ∀ scope, D.writable scope → Φ P (m scope)) : Φ P (Eval.inChild parent m) :=
  hR.inside (hR.openScope hparent) hm

theorem defineAll {scope : ScopeId} (hscope : D.writable scope) {bindings : List (String × Value)}
    (hnames : ∀ b ∈ bindings, D.code.Binds b.1) (hvs : ∀ b ∈ bindings, b.2.In D.zone) :
    Φ (fun _ => True) (Eval.defineAll scope bindings) := by
  induction bindings with
  | nil => exact hR.pure trivial
  | cons binding rest ih =>
    obtain ⟨hname, hnames⟩ := List.forall_mem_cons.mp hnames
    obtain ⟨hv, hvs⟩ := List.forall_mem_cons.mp hvs
    exact hR.after (hR.define hscope hname hv) fun _ => ih hnames hvs

section
variable {scope : ScopeId} (hscope : D.zone (.scope scope))
include hscope

theorem lookup (name : String) : Φ (Value.In D.zone) (Eval.lookup scope name) :=
  hR.tryHeap fun _ _ hz hv => Heap.get_in hz hscope hv

theorem packageOf? (object : Expr) :
    Φ (fun p => ∀ package, p = some package → D.writable package)
      (Eval.packageOf? object scope) := by
  have hnone : Φ (fun p => ∀ package, p = some package → D.writable package)
      (Pure.pure none : Eval (Option ScopeId)) := hR.pure fun _ hp => by cases hp
  unfold Eval.packageOf?
  split
  · rename_i name _
    refine hR.after (hR.look _) fun _ => ite (fun _ => hnone) fun _ => ?_
    exact hR.packageNamed hscope name
  · exact hnone

end

end Rules
end ScriptEngine
