import ScriptEngine.Proofs.Heap.Chains
import ScriptEngine.Proofs.Task.Law
import ScriptEngine.Proofs.Task.Rules

/-! # Customs of evaluation

What evaluation does to the state comes down to a few things: it changes objects that it got to see,
binds names, holds something and lets go of it, opens a scope and holds it as a block, registers
deferred calls, and starts tasks.  A law on states that allows each of these is a **habit** (`Habits`)
of evaluation.  It may rely on everything that evaluation sees being of one zone and on names being
bound in certain scopes only, and it may ask that a scope is held as a block only where it has just
been opened (`enterable`).  A law that allows whatever changes stay in the zone, names included, is a
**custom** (`Customs`).

Some laws do not hold between the opening of a scope and the moment when it is held as a block.  Such a
law needs another one that holds in between: together they are the **entrances** to scopes (`Entrances`),
and every habit has some (`Habits.entrances`).

A computation **obeys** a law (`Obeys`) if it observes the law from any state that the law allows, and
if what it gives, or throws, is of the zone.  Obeying a law that has entrances follows the rules of
evaluation (`Entrances.rulesFor`, `Habits.rules`), so evaluation has to be gone through only once.
-/
namespace ScriptEngine

variable {α β : Type}

/-- The deferred calls refer to nothing outside the zone. -/
def DeferredIn (Z : Zone) (frames : Store (List DeferredCall)) : Prop :=
  ∀ id calls, frames.get? id = some calls → ∀ c ∈ calls, c.In Z

theorem deferredIn_modify {Z : Zone} {frames : Store (List DeferredCall)}
    (hframes : DeferredIn Z frames) {frame : FrameId} {f : List DeferredCall → List DeferredCall}
    (hf : ∀ calls, (∀ c ∈ calls, c.In Z) → ∀ c ∈ f calls, c.In Z) :
    DeferredIn Z (frames.modify frame f) := by
  intro id calls hcalls
  obtain hold | ⟨rfl, old, hold, rfl⟩ := Store.get?_modify hcalls
  · exact hframes id calls hold
  · exact hf old (hframes _ old hold)

/-- The second state differs from the first one in nothing that scopes, holdings or deferred calls have
to do with, and no job is news. -/
structure EngineState.Alike (s s' : EngineState) : Prop where
  heap : s'.heap = s.heap
  governors : s'.governors = s.governors
  frames : s'.frames = s.frames
  held : s'.held = s.held
  pinned : s'.pinned = s.pinned
  jobs : ∀ task job, Notice.started task job ∈ s'.notices → Notice.started task job ∈ s.notices

/-- Besides, the same task runs, runs have kept their signals, what has happened is not taken back
(signals stay cancelled, and refusals and reports on record), evaluation has come upon nothing that does
not fit, no call is registered, and no scope has begun to linger. -/
structure EngineState.Aside (s s' : EngineState) : Prop extends s.Alike s' where
  current : s'.current = s.current
  lingering : s'.lingering = s.lingering
  reports : s.reports <+: s'.reports
  signal : ∀ run, (s'.run run).signal = (s.run run).signal
  cancelled : ∀ id, (s.signal id).cancelled = true → (s'.signal id).cancelled = true
  refusals : s.refusals <:+ s'.refusals
  misfits : s'.misfits = s.misfits
  deferrals : s'.deferrals = s.deferrals

namespace EngineState

/-- Only the clock or what is on record differ. -/
theorem aside_of_eq {s s' : EngineState} (hheap : s'.heap = s.heap)
    (hgovernors : s'.governors = s.governors) (hframes : s'.frames = s.frames)
    (hheld : s'.held = s.held) (hpinned : s'.pinned = s.pinned)
    (hnotices : s'.notices = s.notices ∨ s'.notices = #[]) (hcurrent : s'.current = s.current)
    (hlingering : s'.lingering = s.lingering) (hreports : s.reports <+: s'.reports)
    (hruns : s'.runs = s.runs) (hsignals : s'.signals = s.signals)
    (hrefusals : s.refusals <:+ s'.refusals) (hmisfits : s'.misfits = s.misfits)
    (hdeferrals : s'.deferrals = s.deferrals) : s.Aside s' where
  heap := hheap
  governors := hgovernors
  frames := hframes
  held := hheld
  pinned := hpinned
  jobs task job hj := by
    obtain hsame | hnone := hnotices
    · exact hsame ▸ hj
    · rw [hnone] at hj
      cases Array.mem_toList_iff.mpr hj
  current := hcurrent
  lingering := hlingering
  reports := hreports
  signal run := by rw [EngineState.run, hruns, EngineState.run]
  cancelled id hid := by rwa [EngineState.signal, hsignals]
  refusals := hrefusals
  misfits := hmisfits
  deferrals := hdeferrals

/-- A run changes, but not its signal. -/
theorem aside_modifyRun (s : EngineState) (run : RunId) {f : Run → Run}
    (hf : ∀ r, (f r).signal = r.signal) : s.Aside (s.modifyRun run f) where
  toAlike := ⟨rfl, rfl, rfl, rfl, rfl, fun _ _ => id⟩
  current := rfl
  lingering := rfl
  reports := List.prefix_refl _
  signal other := by
    unfold EngineState.run modifyRun
    rw [Store.get?_modify_eq]
    split
    · subst other
      cases s.runs.get? run with
      | none => rfl
      | some r => exact hf r
    · rfl
  cancelled _ hid := hid
  refusals := List.suffix_refl _
  misfits := rfl
  deferrals := rfl

theorem aside_refuse (s : EngineState) (r : Refusal) : s.Aside (s.refuse r) :=
  aside_of_eq rfl rfl rfl rfl rfl (.inl rfl) rfl rfl (List.prefix_refl _) rfl rfl
    (List.suffix_cons r s.refusals) rfl rfl

/-- That a checkpoint was passed, or passed too late, is nobody's business. -/
theorem aside_pass (s : EngineState) (run : RunId) : s.Aside (s.pass run) := by
  rw [pass_eq]
  exact aside_of_eq rfl rfl rfl rfl rfl (.inl rfl) rfl rfl (List.prefix_refl _) rfl rfl
    (List.suffix_refl _) rfl rfl

/-- Everything but jobs may be made known. -/
theorem aside_notify (s : EngineState) {n : Notice} (hn : ∀ task job, n ≠ .started task job) :
    s.Aside (s.notify n) where
  heap := rfl
  governors := rfl
  frames := rfl
  held := rfl
  pinned := rfl
  jobs task job hj := by
    obtain hj | hj := Array.mem_push.mp hj
    · exact hj
    · exact absurd hj.symm (hn task job)
  current := rfl
  lingering := rfl
  reports := List.prefix_refl _
  signal _ := rfl
  cancelled _ hid := hid
  refusals := List.suffix_refl _
  misfits := rfl
  deferrals := rfl

theorem cancelled_cancel {s : EngineState} (signal : SignalId) {id : SignalId}
    (hid : (s.signal id).cancelled = true) : ((s.cancel signal).signal id).cancelled = true := by
  unfold EngineState.signal at hid ⊢
  rw [show (s.cancel signal).signals = s.signals.modify signal _ from rfl, Store.get?_modify_eq]
  split
  · subst id
    cases hs : s.signals.get? signal with
    | none => rwa [hs] at hid
    | some g => rfl
  · exact hid

theorem aside_cancel (s : EngineState) (signal : SignalId) : s.Aside (s.cancel signal) where
  toAlike := ⟨rfl, rfl, rfl, rfl, rfl,
    (aside_notify (n := .signal signal) { s with signals := _ } fun _ _ hn => by cases hn).jobs⟩
  current := rfl
  lingering := rfl
  reports := List.prefix_refl _
  signal _ := rfl
  cancelled _ hid := cancelled_cancel signal hid
  refusals := List.suffix_refl _
  misfits := rfl
  deferrals := rfl

end EngineState

/-! ## Habits and customs -/

/-- **What a law allows** to a task that runs, which sees only what is of the zone, binds names in writable
scopes only, registers calls in certain frames only, and goes through certain code only: everything but to
open scopes. -/
structure Manners (Z : Zone) (writable : ScopeId → Prop) (G : EngineState → EngineState → Prop)
    (frames bodies : FrameId → Prop) (code : Fragment) : Prop extends Law G where
  zone_of_writable : ∀ {scope}, writable scope → Z (.scope scope)
  frames_of_bodies : ∀ {frame}, bodies frame → frames frame
  encloses : ∀ {k s}, G k s → s.heap.Encloses Z
  deferred : ∀ {k s}, G k s → DeferredIn Z s.frames
  started : ∀ {k s}, G k s → ∀ task job, Notice.started task job ∈ s.notices → job.In Z
  /-- The functions of scripts are written in the code. -/
  callees : ∀ {k s}, G k s → ∀ id, Z (.func id) → (s.heap.func id).In code
  elsewhere : ∀ {k s s'}, G k s → s.Aside s' → G k s'
  /-- Evaluation comes upon something in the code that does not fit. -/
  complain : ∀ {k s m}, G k s → code.Allows m → G k (s.complain m)
  /-- Objects other than scopes and functions of scripts change. -/
  heap : ∀ {k s h}, G k s → s.heap.Stays Z h → h.fabric = s.heap.fabric → G k { s with heap := h }
  /-- A function is made that is written in the code. -/
  newFunc : ∀ {k s definition scope selfBound}, G k s → Z (.scope scope) → definition.In code →
    G k { s with heap := (s.heap.addFunc (.script definition scope selfBound)).2 }
  register : ∀ {k s chan}, G k s → Z (.chan chan) → G k (s.register chan)
  define : ∀ {k s scope name v h}, G k s → writable scope → v.In Z →
    s.heap.define scope name v = .ok h → G k { s with heap := h }
  assign : ∀ {k s scope name v h}, G k s → writable scope → v.In Z →
    s.heap.assign scope name v = .ok h → G k { s with heap := h }
  /-- A name that has a value gets another one. -/
  revise : ∀ {k s scope name old v h}, G k s → Z (.scope scope) →
    s.heap.get scope name = .ok old → v.In Z → s.heap.assign scope name v = .ok h →
    G k { s with heap := h }
  packageNamed : ∀ {k s scope name package}, G k s → Z (.scope scope) →
    s.heap.packageNamed? scope name = some package → writable package
  definePackage : ∀ {k s scope name package h}, G k s → writable scope → writable package →
    code.Modular → s.heap.definePackage scope name package = .ok h → G k { s with heap := h }
  /-- A body begins. -/
  newFrame : ∀ {k s}, G k s → bodies s.frames.next ∧
    G k ({ s with frames := s.frames.push [] }.hold (.frame s.frames.next))
  defer : ∀ {k s frame call}, G k s → frames frame → call.In Z →
    G k (s.defer frame call)
  dropDeferred : ∀ {k s frame}, G k s → bodies frame →
    G k { s with frames := s.frames.modify frame List.tail }
  start : ∀ {k s job}, G k s → job.In Z → code.Concurrent → G k (s.start job).2
  capture : ∀ {k s scope}, G k s → Z (.scope scope) → code.Functional ∨ code.Modular →
    G k (s.capture scope)
  hold : ∀ {k s x}, G k s → x.Loose Z → G k (s.hold x)
  letGo : ∀ {k s} task, G k s → G k (s.letGoOf task)

/-- **A law that evaluation observes**, though not as long as a scope has been opened and not entered.
`between` tells what has become of the state until then, since an earlier moment. -/
structure Entrances (Z : Zone) (writable : ScopeId → Prop) (G : EngineState → EngineState → Prop)
    (between : ScopeId → EngineState → EngineState → Prop) (frames bodies : FrameId → Prop)
    (code : Fragment) : Prop extends Manners Z writable G frames bodies code where
  since : ∀ {k k' s scope}, G k k' → between scope k' s → between scope k s
  opened : ∀ {k s parent scope}, G k s → Z (.scope parent) → (s.addChild parent).1 = .ok scope →
    between scope k (s.addChild parent).2
  /-- There is no slot for a scope. -/
  refused : ∀ {k s parent e}, G k s → Z (.scope parent) → (s.addChild parent).1 = .error e →
    G k (s.addChild parent).2
  entered : ∀ {k s scope}, between scope k s → G k (s.hold (.block scope))
  between_letGo : ∀ {k s scope} task, between scope k s → between scope k (s.letGoOf task)
  writable_of_between : ∀ {k s scope}, between scope k s → writable scope

/-- **A law that evaluation observes all the time**, whichever task runs: a scope that has been opened can
be entered. -/
structure Habits (Z : Zone) (writable : ScopeId → Prop) (G : EngineState → EngineState → Prop)
    (enterable : ScopeId → EngineState → Prop) (frames : FrameId → Prop := fun _ => True)
    (bodies : FrameId → Prop := fun _ => True) (code : Fragment := .all) : Prop
    extends Manners Z writable G frames bodies code where
  /-- Another task runs. -/
  turn : ∀ {k s} task, G k s → G k { s with current := task }
  /-- A scope is opened, or none is because there is no slot for it. -/
  opened : ∀ {k s parent}, G k s → Z (.scope parent) →
    G k (s.addChild parent).2 ∧
      ∀ scope, (s.addChild parent).1 = .ok scope → enterable scope (s.addChild parent).2
  entered : ∀ {k s scope}, G k s → enterable scope s → G k (s.hold (.block scope))
  enterable_letGo : ∀ {k s scope} task, G k s → enterable scope s →
    enterable scope (s.letGoOf task)
  writable_of_enterable : ∀ {k s scope}, G k s → enterable scope s → writable scope

/-- **A law that evaluation observes if it sees only what is of the zone.** -/
structure Customs (Z : Zone) (G : EngineState → EngineState → Prop)
    (enterable : ScopeId → EngineState → Prop) : Prop extends Law G where
  encloses : ∀ {k s}, G k s → s.heap.Encloses Z
  deferred : ∀ {k s}, G k s → DeferredIn Z s.frames
  started : ∀ {k s}, G k s → ∀ task job, Notice.started task job ∈ s.notices → job.In Z
  elsewhere : ∀ {k s s'}, G k s → s.Alike s' → G k s'
  heap : ∀ {k s h}, G k s → s.heap.Stays Z h → G k { s with heap := h }
  frames : ∀ {k s frames}, G k s → DeferredIn Z frames → G k { s with frames }
  start : ∀ {k s job}, G k s → job.In Z → G k (s.start job).2
  capture : ∀ {k s scope}, G k s → Z (.scope scope) → G k (s.capture scope)
  hold : ∀ {k s x}, G k s → x.In Z → (∀ scope, x ≠ .block scope) → G k (s.hold x)
  letGo : ∀ {k s} task, G k s → G k (s.letGoOf task)
  /-- A scope is opened, or none is because there is no slot for it. -/
  opened : ∀ {k s parent}, G k s → Z (.scope parent) →
    G k (s.addChild parent).2 ∧
      ∀ scope, (s.addChild parent).1 = .ok scope → enterable scope (s.addChild parent).2
  entered : ∀ {k s scope}, G k s → enterable scope s → G k (s.hold (.block scope))
  enterable_letGo : ∀ {k s scope} task, G k s → enterable scope s →
    enterable scope (s.letGoOf task)
  enterable_in : ∀ {k s scope}, G k s → enterable scope s → Z (.scope scope)

/-- Nothing has been registered in a new frame. -/
theorem deferredIn_push {Z : Zone} {frames : Store (List DeferredCall)}
    (hframes : DeferredIn Z frames) : DeferredIn Z (frames.push []) := by
  intro id calls hcalls
  obtain rfl | hold := Store.get?_push hcalls
  · exact List.forall_mem_nil _
  · exact hframes id calls hold

/-- A custom is a habit: binding a name is a change like any other. -/
theorem Customs.habits {Z : Zone} {G : EngineState → EngineState → Prop}
    {enterable : ScopeId → EngineState → Prop} (hC : Customs Z G enterable) :
    Habits Z (fun scope => Z (.scope scope)) G enterable :=
  { hC with
    zone_of_writable := id
    frames_of_bodies := id
    newFrame := fun hs =>
      ⟨trivial, hC.hold (hC.frames hs (deferredIn_push (hC.deferred hs))) trivial nofun⟩
    defer := fun {k s frame call} hs _ hcall =>
      have hframes : G k { s with frames := s.frames.modify frame (call :: ·) } := hC.frames hs <|
        deferredIn_modify (hC.deferred hs) fun _ hcalls => List.forall_mem_cons.mpr ⟨hcall, hcalls⟩
      hC.elsewhere hframes ⟨rfl, rfl, rfl, rfl, rfl, fun _ _ => id⟩
    dropDeferred := fun hs _ => hC.frames hs <|
      deferredIn_modify (hC.deferred hs) fun _ hcalls c hc => hcalls c (List.mem_of_mem_tail hc)
    callees := fun _ _ _ => Function.in_all _
    start := fun hs hjob _ => hC.start hs hjob
    capture := fun hs hscope _ => hC.capture hs hscope
    hold := fun hs hx => hC.hold hs hx.is_in hx.ne_block
    turn := fun _ hs => hC.elsewhere hs ⟨rfl, rfl, rfl, rfl, rfl, fun _ _ => id⟩
    elsewhere := fun hs ha => hC.elsewhere hs ha.toAlike
    complain := fun hs _ => hC.elsewhere hs ⟨rfl, rfl, rfl, rfl, rfl, fun _ _ => id⟩
    heap := fun hs hstays _ => hC.heap hs hstays
    newFunc := fun {_ _ definition scope selfBound} hs hscope _ =>
      hC.heap hs ((hC.encloses hs).addFunc (f := .script definition scope selfBound)
        (List.forall_mem_singleton.mpr hscope)).1
    register := fun hs hchan => by
      have hstays := (hC.encloses hs).modifyChan (f := (·.register)) hchan fun _ _ hc => hc
      exact hC.elsewhere (hC.heap hs hstays)
        (EngineState.aside_notify _ fun _ _ hn => by cases hn).toAlike
    define := fun hs hscope hv hp => hC.heap hs (Heap.stays_define (hC.encloses hs) hscope hv hp)
    assign := fun hs hscope hv hp => hC.heap hs (Heap.stays_assign (hC.encloses hs) hscope hv hp)
    revise := fun hs hscope _ hv hp =>
      hC.heap hs (Heap.stays_assign (hC.encloses hs) hscope hv hp)
    packageNamed := fun hs hscope hp => Heap.packageNamed?_in (hC.encloses hs) hscope hp
    definePackage := fun hs hscope hpackage _ hp =>
      hC.heap hs (Heap.stays_definePackage (hC.encloses hs) hscope hpackage hp)
    writable_of_enterable := hC.enterable_in }

/-- **The computation obeys the law**: it observes it from any state that the law allows, and its
outcome is of the zone. -/
def Obeys (Z : Zone) (G : EngineState → EngineState → Prop) (Q : α → Prop) (m : Eval α) : Prop :=
  ∀ s, G s s → Observes id G (fun r _ => Ends Z Q r) (m s) s

/-- What has become of the state, since an earlier moment, where a scope has been opened or none has. -/
def Opened (Z : Zone) (G : EngineState → EngineState → Prop)
    (between : ScopeId → EngineState → EngineState → Prop) :
    Except EvalError ScopeId → EngineState → EngineState → Prop
  | .ok scope, k, s => between scope k s
  | .error e, k, s => G k s ∧ e.In Z

/-- The computation observes the law until it has opened a scope. -/
def OpensUntil (Z : Zone) (G : EngineState → EngineState → Prop)
    (between : ScopeId → EngineState → EngineState → Prop) (m : Eval ScopeId) : Prop :=
  ∀ s, G s s → ObservesUntil id G (Opened Z G between) (m s) s

/-- The law holds, and the scope can be entered. -/
abbrev Enters (G : EngineState → EngineState → Prop) (enterable : ScopeId → EngineState → Prop)
    (scope : ScopeId) (k s : EngineState) : Prop := G k s ∧ enterable scope s

/-- The computation obeys the law and opens a scope. -/
abbrev Opens (Z : Zone) (G : EngineState → EngineState → Prop)
    (enterable : ScopeId → EngineState → Prop) (m : Eval ScopeId) : Prop :=
  OpensUntil Z G (Enters G enterable) m

/-- A computation whose result does not matter. -/
abbrev ObeysAny (Z : Zone) (G : EngineState → EngineState → Prop) (m : Eval α) : Prop :=
  Obeys Z G (fun _ => True) m

theorem Obeys.observes {Z : Zone} {G : EngineState → EngineState → Prop} {Q : α → Prop} {m : Eval α}
    (hm : Obeys Z G Q m) {s : EngineState} (hs : G s s) :
    Observes id G (fun r _ => Ends Z Q r) (m s) s :=
  hm s hs

theorem Opens.observes {Z : Zone} {G : EngineState → EngineState → Prop}
    {enterable : ScopeId → EngineState → Prop} {m : Eval ScopeId} (hm : Opens Z G enterable m)
    {s : EngineState} (hs : G s s) : ObservesOn id G (m s) s := by
  rw [← Step.bind_done (m s)]
  refine observes_iff.mpr ((hm s hs).bind fun r k s' hr => ⟨?_, trivial⟩)
  cases r with
  | ok scope => exact hr.1
  | error e => exact hr.1

namespace Manners
variable {Z : Zone} {writable : ScopeId → Prop} {G : EngineState → EngineState → Prop}
  {frames bodies : FrameId → Prop} {code : Fragment}
  {P : α → Prop} {Q : β → Prop}

/-! ## Putting computations together -/

theorem pure {a : α} (ha : P a) : Obeys Z G P (Pure.pure a : Eval α) := fun _ hs => ⟨hs, ha⟩

theorem throw {e : EvalError} (he : e.In Z) : Obeys Z G P (MonadExcept.throw e : Eval α) :=
  fun _ hs => ⟨hs, he⟩

theorem breakDown (message : Option String) : Obeys Z G P (Eval.breakDown message : Eval α) :=
  fun _ hs => hs

theorem outOfFuel : Obeys Z G P (Eval.outOfFuel : Eval α) := fun _ hs => hs

theorem ofFailure {e : Failure} (he : ∀ v, e ≠ .fault (.thrown v)) :
    Obeys Z G P (Eval.ofFailure e : Eval α) := by
  cases e with
  | fault f => exact throw fun v hv => absurd (congrArg _ hv) (he v)
  | overflow => exact breakDown _

section
variable (hH : Manners Z writable G frames bodies code)
include hH

theorem bind {m : Eval α} {k : α → Eval β} (hm : Obeys Z G P m) (hk : ∀ a, P a → Obeys Z G Q (k a)) :
    Obeys Z G Q (m >>= k) := by
  intro s hs
  rw [Eval.bind_apply]
  refine (hm s hs).bind hH.toLaw fun r s' hs' hr => ?_
  cases r with
  | ok a => exact hk a hr s' (hH.stays hs')
  | error e => exact ⟨hH.stays hs', hr⟩

theorem weaken {P' : α → Prop} {m : Eval α} (hm : Obeys Z G P m) (hP : ∀ a, P a → P' a) :
    Obeys Z G P' m := by
  refine fun s hs => (hm s hs).weaken hH.toLaw fun r _ _ hr => ?_
  cases r with
  | ok a => exact hP a hr
  | error e => exact hr

theorem located (p : Position) {m : Eval α} (hm : Obeys Z G P m) :
    Obeys Z G P (Eval.located p m) := by
  intro s hs
  rw [Eval.located_apply]
  refine (hm s hs).bind hH.toLaw fun r s' hs' hr => ⟨hH.stays hs', ?_⟩
  cases r with
  | ok a => exact hr
  | error e =>
    intro v hv
    refine hr v ?_
    simp only [EvalError.locate] at hv
    split at hv <;> exact hv

theorem attempt {m : Eval α} (hm : Obeys Z G P m) :
    Obeys Z G (fun r => Ends Z P r) (Eval.attempt m) := by
  intro s hs
  rw [Eval.attempt_apply]
  exact (hm s hs).bind hH.toLaw fun r s' hs' hr => ⟨hH.stays hs', hr⟩

/-- Holding something while the computation runs, which is begun in a lawful way. -/
theorem held {x : Holding} {m : Eval α} {k s : EngineState} (hx : G k (s.hold x))
    (hm : Obeys Z G P m) : Observes id G (fun r _ => Ends Z P r) (Eval.holding x m s) k := by
  rw [Eval.holding_apply]
  refine .after hH.toLaw hx ((hm _ (hH.stays hx)).bind hH.toLaw fun r s' hs' hr => ?_)
  exact ⟨hH.letGo s'.current (hH.stays hs'), hr⟩

theorem holding {x : Holding} {m : Eval α} (hx : x.Loose Z) (hm : Obeys Z G P m) :
    Obeys Z G P (Eval.holding x m) :=
  fun _ hs => hH.held (hH.hold hs hx) hm

/-! ## Looking and changing -/

omit hH in
theorem read {f : EngineState → α} (hP : ∀ s, G s s → P (f s)) : Obeys Z G P (Eval.read f) :=
  fun s hs => ⟨hs, hP s hs⟩

omit hH in
theorem modify {f : EngineState → EngineState} (hf : ∀ s, G s s → G s (f s)) :
    ObeysAny Z G (Eval.modify f) := fun s hs => ⟨hf s hs, trivial⟩

omit hH in
theorem update {f : EngineState → α × EngineState} (hf : ∀ s, G s s → G s (f s).2 ∧ P (f s).1) :
    Obeys Z G P (Eval.update f) := hf

theorem onHeap {f : Heap → Outcome (α × Heap)} [hplain : ∀ h, (f h).Plain]
    [∀ h, (f h).KeepsFabric h]
    (hf : ∀ h a h', h.Encloses Z → f h = .ok (a, h') → h.Stays Z h' ∧ P a) :
    Obeys Z G P (Eval.onHeap f) := by
  intro s hs
  cases hr : f s.heap with
  | ok r =>
    obtain ⟨a, h'⟩ := r
    rw [Eval.onHeap_ok hr]
    obtain ⟨hstays, ha⟩ := hf s.heap a h' (hH.encloses hs) hr
    exact ⟨hH.heap hs hstays (Heap.fabric_eq hr), ha⟩
  | error e =>
    rw [Eval.onHeap_error hr]
    exact ofFailure (fun v hv => (hplain s.heap).ne_thrown v (hv ▸ hr)) s hs

omit hH in
/-- A change of the heap that the law allows, or none at all. -/
theorem changing {f : Heap → Outcome Heap} [hplain : ∀ h, (f h).Plain]
    (hf : ∀ s h, G s s → f s.heap = .ok h → G s { s with heap := h }) :
    ObeysAny Z G (Eval.changeHeap f) := by
  intro s hs
  cases hr : f s.heap with
  | ok h' =>
    rw [Eval.changeHeap_ok hr]
    exact ⟨hf s h' hs hr, trivial⟩
  | error e =>
    rw [Eval.changeHeap_error hr]
    exact ofFailure (fun v hv => (hplain s.heap).ne_thrown v (hv ▸ hr)) s hs

theorem misfit {m : Misfit} (hm : code.Allows m) : Obeys Z G P (Eval.misfit m : Eval α) :=
  hH.bind (modify fun _ hs => hH.complain hs hm) fun _ _ => throw nofun

/-- Binding a name that the code binds: a change that the law allows, or the name does not fit. -/
theorem binding {name : String} (hname : code.Binds name) {f : Heap → Outcome Heap}
    [hplain : ∀ h, (f h).Plain]
    (hbad : ∀ h e, f h = .error e → isIdentifier name = false)
    (hf : ∀ s h, G s s → f s.heap = .ok h → G s { s with heap := h }) :
    ObeysAny Z G (Eval.bindName name f) := by
  intro s hs
  cases hr : f s.heap with
  | ok h' =>
    rw [Eval.bindName_ok hr]
    exact ⟨hf s h' hs hr, trivial⟩
  | error e =>
    have hcomplain := hH.complain hs (hname.allows (hbad _ _ hr))
    rw [Eval.bindName_error hr]
    refine .after hH.toLaw hcomplain (ofFailure (fun v hv => ?_) _ (hH.stays hcomplain))
    exact (hplain s.heap).ne_thrown v (hv ▸ hr)

/-- A write is carried out in the very heap that it was prepared in. -/
theorem store {f : Heap → Outcome (Write × Heap)} [∀ h, (f h).Plain] [∀ h, (f h).KeepsFabric h]
    (hf : ∀ h w h', h.Encloses Z → f h = .ok (w, h') → h.Stays Z h' ∧ w.In Z) :
    ObeysAny Z G (Eval.store f) := by
  refine hH.bind (hH.onHeap hf) fun w hw => modify fun s hs => ?_
  exact hH.heap hs (Heap.stays_perform (hH.encloses hs) hw) (Heap.fabric_perform _ w)

/-- A name that has a value gets another one.  No other task runs in between, so all is looked up in
the heap that is written. -/
theorem revising {scope : ScopeId} (hscope : Z (.scope scope)) (name : String)
    {f : Value → Heap → Outcome Value} [hplain : ∀ v h, (f v h).Plain]
    (hf : ∀ v h w, f v h = .ok w → w.In Z) :
    Obeys Z G (Value.In Z) (do
      let current ← Eval.lookup scope name
      let updated ← Eval.tryHeap (f current)
      Eval.assign scope name updated
      return updated) := by
  intro s hs
  have hfailed {α β γ : Type} {Q : γ → Prop} {o : Outcome α} {e : Failure} (ho : o.Plain)
      (he : o = .error e) (k : β → Eval γ) :
      Observes id G (fun r _ => Ends Z Q r) ((Eval.ofFailure e >>= k) s) s :=
    hH.bind (P := fun _ => False) (ofFailure fun v hv => ho.ne_thrown v (hv ▸ he))
      (fun _ hfalse => hfalse.elim) s hs
  rw [Eval.bind_apply, Eval.lookup, Eval.tryHeap_apply]
  cases hold : s.heap.get scope name with
  | error e => exact Eval.bind_apply _ _ s ▸ hfailed inferInstance hold _
  | ok old =>
    show Observes id G _ ((Eval.tryHeap (f old) >>= _) s) s
    rw [Eval.bind_apply, Eval.tryHeap_apply]
    cases hnew : f old s.heap with
    | error e => exact Eval.bind_apply _ _ s ▸ hfailed (hplain _ _) hnew _
    | ok v =>
      show Observes id G _ ((Eval.assign scope name v >>= _) s) s
      rw [Eval.bind_apply, Eval.assign]
      cases hassign : s.heap.assign scope name v with
      | error e => exact absurd hassign (Heap.assign_ne_error hold)
      | ok h =>
        rw [Eval.bindName_ok hassign]
        have hv := hf old s.heap v hnew
        exact ⟨hH.revise hs hscope hold hv hassign, hv⟩

/-- The scope of a function is captured, and the function is made. -/
theorem closure {definition : FuncDef} {scope : ScopeId} (selfBound : Bool)
    (hscope : Z (.scope scope)) (hdefinition : definition.In code) :
    Obeys Z G (Value.In Z) (Eval.closure definition scope selfBound) := by
  have hcapture : ObeysAny Z G (Eval.modify (·.capture scope)) :=
    modify fun _ hs => hH.capture hs hscope (.inl ⟨definition, hdefinition.parts.1⟩)
  refine hH.bind hcapture fun _ _ s hs => ⟨hH.newFunc hs hscope hdefinition, ?_⟩
  exact ((hH.encloses hs).addFunc (f := .script definition scope (selfBound && definition.name.isSome))
    (List.forall_mem_singleton.mpr hscope)).2

/-! ## Waiting -/

omit hH in
theorem checkWait (on : Wait) : ObeysAny Z G (Eval.checkWait on) := by
  intro s hs
  rw [Eval.checkWait_apply]
  split
  · exact ⟨hs, nofun⟩
  · exact ⟨hs, trivial⟩

theorem await (on : Wait) : ObeysAny Z G (Eval.await on) := by
  intro s hs
  rw [Eval.await_apply]
  split
  · exact ⟨hs, nofun⟩
  · exact ⟨hs, fun s' hs' => checkWait on s' (hH.stays hs')⟩

theorem sleep (ms : Nat) : ObeysAny Z G (ExceptT.lift (Task.sleep ms) : Eval Unit) := by
  intro s hs
  show Observes id G _ (Step.bind (fun a s => .done s (Except.ok a)) (Task.sleepUntil (s.now + ms) s))
    s
  unfold Task.sleepUntil
  split
  · exact ⟨hs, trivial⟩
  · exact ⟨hs, fun s' hs' => ⟨hH.stays hs', trivial⟩⟩

theorem checkSignal (signal : SignalId) : ObeysAny Z G (Eval.checkSignal signal) :=
  hH.bind (read (P := fun _ => True) fun _ _ => trivial) fun _ _ => by
    split
    · exact throw nofun
    · exact pure trivial

/-! ## The limits of a run -/

/-- What runs, signals and notices other than jobs say is nobody's business. -/
theorem aside {f : EngineState → EngineState} (hf : ∀ s, EngineState.Aside s (f s)) :
    ObeysAny Z G (Eval.modify f) :=
  modify fun s hs => hH.elsewhere hs (hf s)

theorem tick (run : RunId) : ObeysAny Z G (Eval.tick run) := by
  have htick : ObeysAny Z G (Eval.tickLimiter run) :=
    update fun s hs => ⟨hH.elsewhere hs (s.aside_modifyRun run fun _ => rfl), trivial⟩
  refine hH.bind htick fun pause _ => ?_
  cases pause with
  | some due =>
    exact hH.bind (read (P := fun _ => True) fun _ _ => trivial) fun signal _ => hH.await _
  | none => exact pure trivial

/-- Something is refused, which is put on record. -/
theorem refuse (r : Refusal) : ObeysAny Z G (Eval.modify (·.refuse r)) :=
  hH.aside fun s => s.aside_refuse r

theorem checkLength (run : RunId) (length : Nat) : ObeysAny Z G (Eval.checkLength run length) :=
  hH.bind (read (P := fun _ => True) fun _ _ => trivial) fun _ _ => by
    split
    · exact hH.bind (hH.refuse _) fun _ _ => throw nofun
    · exact pure trivial

/-! ## Deferred calls -/

/-- A new frame is held while the computation runs. -/
theorem inFrame {m : FrameId → Eval α} (hm : ∀ frame, bodies frame → Obeys Z G P (m frame)) :
    Obeys Z G P (Eval.inFrame m) := by
  intro s hs
  obtain ⟨hbody, hheld⟩ := hH.newFrame hs
  rw [Eval.inFrame, Eval.bind_apply, Eval.update_apply, Step.bind_of_done, Eval.andThen_ok,
    Eval.holding_apply]
  refine .after hH.toLaw hheld ((hm _ hbody _ (hH.stays hheld)).bind hH.toLaw fun r s' hs' hr => ?_)
  exact ⟨hH.letGo s'.current (hH.stays hs'), hr⟩

end

theorem runRules (hH : Manners Z writable G frames bodies code) {runs : RunId → Prop}
    {signals : SignalId → Prop}
    (hsignals : ∀ {s run}, G s s → runs run → signals (s.run run).signal) :
    RunRules ⟨Z, writable, runs, signals, frames, bodies, code⟩ (fun P m => Obeys Z G P m) where
  bind := hH.bind
  signalOf hrun := read fun _ hs => hsignals hs hrun
  cyclesOf _ _ hP := read fun _ _ => hP _
  checkSignal _ := hH.checkSignal _
  await _ := hH.await _
  spend _ _ := hH.aside fun s => s.aside_modifyRun _ fun _ => rfl
  tick _ := hH.tick _

end Manners

/-! ## Entering scopes -/

namespace Entrances
variable {Z : Zone} {writable : ScopeId → Prop} {G : EngineState → EngineState → Prop}
  {between : ScopeId → EngineState → EngineState → Prop} {frames bodies : FrameId → Prop}
  {code : Fragment} {P : α → Prop}

section
variable (hE : Entrances Z writable G between frames bodies code)
include hE

theorem since_opened {r : Except EvalError ScopeId} {k k' s : EngineState} (hk : G k k')
    (hr : Opened Z G between r k' s) : Opened Z G between r k s := by
  cases r with
  | ok scope => exact hE.since hk hr
  | error e => exact ⟨hE.trans hk hr.1, hr.2⟩

theorem openScope {parent : ScopeId} (hparent : Z (.scope parent)) :
    OpensUntil Z G between (Eval.openScope parent) := by
  intro s hs
  rw [Eval.openScope_apply]
  cases hopened : (s.addChild parent).1 with
  | ok scope => exact hE.opened hs hparent hopened
  | error e =>
    obtain ⟨limit, rfl⟩ := EngineState.addChild_error hopened
    exact ⟨hE.elsewhere (hE.refused hs hparent hopened) (EngineState.aside_refuse _ _), nofun⟩

/-- Holding something while a scope is opened. -/
theorem holdingOpens {x : Holding} {m : Eval ScopeId} (hx : x.Loose Z)
    (hm : OpensUntil Z G between m) : OpensUntil Z G between (Eval.holding x m) := by
  intro s hs
  have hheld := hE.hold hs hx
  rw [Eval.holding_apply]
  refine .after (E := Opened Z G between) hE.toLaw hE.since_opened hheld ((hm _ (hE.stays hheld)).bind fun r k s' hr => ?_)
  cases r with
  | ok scope => exact hE.between_letGo s'.current hr
  | error e => exact ⟨hE.letGo s'.current hr.1, hr.2⟩

theorem thenOpens {m : Eval α} {k : α → Eval ScopeId} (hm : Obeys Z G P m)
    (hk : ∀ a, P a → OpensUntil Z G between (k a)) : OpensUntil Z G between (m >>= k) := by
  intro s hs
  rw [Eval.bind_apply]
  refine (observes_iff.mp (hm s hs)).bind fun r k₀ s' hr => ?_
  cases r with
  | ok a =>
    have hopens := hk a hr.2 s' (hE.stays hr.1)
    exact .after (E := Opened Z G between) hE.toLaw hE.since_opened hr.1 hopens
  | error e => exact hr

/-- **A scope that has been opened is held as a block.** -/
theorem inside {m : Eval ScopeId} {k : ScopeId → Eval α} (hm : OpensUntil Z G between m)
    (hk : ∀ scope, writable scope → Obeys Z G P (k scope)) :
    Obeys Z G P (m >>= fun scope => Eval.holding (.block scope) (k scope)) := by
  intro s hs
  rw [Eval.bind_apply]
  refine observes_iff.mpr ((hm s hs).bind fun r k₀ s' hr => observes_iff.mp ?_)
  cases r with
  | ok scope => exact hE.held (hE.entered hr) (hk scope (hE.writable_of_between hr))
  | error e => exact hr

end

/-- **Obeying the law follows the rules of evaluation**, with runs of some kind whose signals are of
some kind. -/
theorem rulesFor (hE : Entrances Z writable G between frames bodies code) {runs : RunId → Prop}
    {signals : SignalId → Prop}
    (hsignals : ∀ {s run}, G s s → runs run → signals (s.run run).signal) :
    Rules ⟨Z, writable, runs, signals, frames, bodies, code⟩ (fun P m => Obeys Z G P m)
      (OpensUntil Z G between) where
  toRunRules := hE.runRules hsignals
  zone_of_writable := hE.zone_of_writable
  frames_of_bodies := hE.frames_of_bodies
  pure := Manners.pure
  throw := Manners.throw
  breakDown := Manners.breakDown
  outOfFuel := Manners.outOfFuel
  weaken := hE.weaken
  located := hE.located
  attempt := hE.attempt
  misfit := hE.misfit
  holding := hE.holding
  readHeap hP := Manners.read fun _ hs => hP _ (hE.encloses hs)
  callee {id} hid := Manners.read fun _ hs => ⟨(hE.encloses hs).func hid, hE.callees hs id hid⟩
  deferred frame := Manners.read fun s hs => by
    cases hcalls : s.frames.get? frame with
    | none => exact List.forall_mem_nil _
    | some calls => exact hE.deferred hs frame calls hcalls
  sleep := hE.sleep
  checkpoint hrun := (hE.runRules hsignals).checkpointOf hrun (hE.aside fun s => s.aside_pass _)
  checkLength _ := hE.checkLength _
  cancel _ := hE.aside fun s => s.aside_cancel _
  onHeap := hE.onHeap
  alloc hf := fun s hs =>
    have hmade := hf s.heap (hE.encloses hs)
    ⟨hE.heap hs hmade.1.1 hmade.2, hmade.1.2⟩
  changeHeap hf := Manners.changing fun s h hs hp =>
    have hmade := hf s.heap h (hE.encloses hs) hp
    hE.heap hs hmade.1 hmade.2
  store := hE.store
  notify chan := hE.aside fun s => s.aside_notify fun _ _ hn => by cases hn
  register hchan := Manners.modify fun _ hs => hE.register hs hchan
  capture hscope hcode := Manners.modify fun _ hs => hE.capture hs hscope (.inr hcode)
  closure := hE.closure
  openScope := hE.openScope
  holdingOpens := hE.holdingOpens
  thenOpens := hE.thenOpens
  inside := hE.inside
  define hscope hname _ hv := hE.binding hname (fun _ _ => Heap.name_of_define_error)
    fun _ _ hs hp => hE.define hs hscope hv hp
  assign hscope hname _ hv := hE.binding hname (fun _ _ => Heap.name_of_assign_error)
    fun _ _ hs hp => hE.assign hs hscope hv hp
  revise := hE.revising
  packageNamed hscope name := Manners.read fun _ hs _ hp => hE.packageNamed hs hscope hp
  definePackage hscope hpackage _ _ hnode :=
    hE.binding ⟨_, hnode, List.mem_singleton_self _⟩ (fun _ _ => Heap.name_of_definePackage_error)
      fun _ _ hs hp => hE.definePackage hs hscope hpackage ⟨_, _, hnode⟩ hp
  inFrame := hE.inFrame
  defer hframe _ hcall := Manners.modify fun _ hs => hE.defer hs hframe hcall
  dropDeferred hframe := Manners.modify fun _ hs => hE.dropDeferred hs hframe
  start _ _ hcallee hargs hcode := Manners.update fun _ hs =>
    ⟨hE.start hs (List.forall_mem_cons.mpr ⟨hcallee, hargs⟩) hcode, trivial⟩

end Entrances

namespace Habits
variable {Z : Zone} {writable : ScopeId → Prop} {G : EngineState → EngineState → Prop}
  {enterable : ScopeId → EngineState → Prop} {frames bodies : FrameId → Prop} {code : Fragment}

/-- The law holds as soon as a scope has been opened. -/
theorem entrances (hH : Habits Z writable G enterable frames bodies code) :
    Entrances Z writable G (Enters G enterable) frames bodies code where
  toManners := hH.toManners
  since hk hb := ⟨hH.trans hk hb.1, hb.2⟩
  opened hs hparent hopened := ⟨(hH.opened hs hparent).1, (hH.opened hs hparent).2 _ hopened⟩
  refused hs hparent _ := (hH.opened hs hparent).1
  entered hb := hH.entered hb.1 hb.2
  between_letGo task hb := ⟨hH.letGo task hb.1, hH.enterable_letGo task hb.1 hb.2⟩
  writable_of_between hb := hH.writable_of_enterable hb.1 hb.2

/-- **Obeying a habit follows the rules of evaluation**, with runs of some kind whose signals are of
some kind. -/
theorem rulesFor (hH : Habits Z writable G enterable frames bodies code) {runs : RunId → Prop}
    {signals : SignalId → Prop}
    (hsignals : ∀ {s run}, G s s → runs run → signals (s.run run).signal) :
    Rules ⟨Z, writable, runs, signals, frames, bodies, code⟩ (fun P m => Obeys Z G P m)
      (Opens Z G enterable) :=
  hH.entrances.rulesFor hsignals

@[inherit_doc rulesFor]
theorem rules (hH : Habits Z writable G enterable frames bodies code) :
    Rules ⟨Z, writable, fun _ => True, fun _ => True, frames, bodies, code⟩ (fun P m => Obeys Z G P m)
      (Opens Z G enterable) :=
  hH.rulesFor fun _ _ => trivial

end Habits

-- From here on evaluations are put together by the rules, never by running their parts.
attribute [irreducible] Obeys OpensUntil

end ScriptEngine
