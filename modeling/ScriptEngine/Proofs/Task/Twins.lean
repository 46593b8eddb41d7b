import ScriptEngine.Proofs.EngineState.Agreement
import ScriptEngine.Proofs.Task.Customs

/-! # Twin computations

A computation that is run in two states that are alike should do the same in both, although it may see
that they are not the same state: limits may differ, or the time.  A **likeness** says which states
and which waits are alike, whether one side may pause where the other one goes on, and when all is
**lost**: the first side has come up against what makes the difference, and nothing is claimed from
there on.

Two computations run in **parallel** (`Parallel`) if they wait for the same things and end alike, or
if the first one is lost.  What is lost stays lost, since what has happened is never taken back
(`Accrues`).  A computation is its own **twin** (`Twin`) if from states that are alike it runs in
parallel.  A likeness that holds up in the face of what evaluation does to the state is **robust**
(`Likeness.Robust`), and being a twin then follows the rules of evaluation (`Likeness.Robust.rules`).
-/
namespace ScriptEngine

variable {α β : Type}

/-! ## What is not taken back -/

/-- **What has happened is not taken back**: tasks have been started, signals are cancelled, and
refusals are on record.  Runs of some kind keep to signals of some kind. -/
structure Accrues (runs : RunId → Prop) (signals : SignalId → Prop) (k s : EngineState) : Prop where
  tasks : k.held.next ≤ s.held.next
  cancelled : ∀ id, (k.signal id).cancelled = true → (s.signal id).cancelled = true
  refusals : k.refusals <:+ s.refusals
  signal : ∀ run, runs run → signals (s.run run).signal

section
variable {runs : RunId → Prop} {signals : SignalId → Prop}

namespace Accrues
variable {k s s' : EngineState}

theorem trans (hs : Accrues runs signals k s) (hs' : Accrues runs signals s s') :
    Accrues runs signals k s' :=
  ⟨Nat.le_trans hs.tasks hs'.tasks, fun id hid => hs'.cancelled id (hs.cancelled id hid),
    hs.refusals.trans hs'.refusals, hs'.signal⟩

theorem stays (hs : Accrues runs signals k s) : Accrues runs signals s s :=
  ⟨Nat.le_refl _, fun _ => id, List.suffix_refl _, hs.signal⟩

theorem apart (hs : Accrues runs signals k s) (ha : s.Apart s') : Accrues runs signals k s' where
  tasks := Nat.le_trans hs.tasks (Nat.le_of_eq ha.tasks.symm)
  cancelled id hid := by
    rw [EngineState.signal, ha.signals]
    exact hs.cancelled id hid
  refusals := ha.refusals ▸ hs.refusals
  signal run hrun := by
    rw [EngineState.run, ha.runs]
    exact hs.signal run hrun

end Accrues

/-- Whatever evaluation does, what has happened is not taken back. -/
theorem habits_accrues :
    Habits (fun _ => True) (fun _ => True) (Accrues runs signals) (fun _ _ => True) where
  trans := .trans
  stays := .stays
  zone_of_writable _ := trivial
  encloses _ := ⟨fun _ _ => trivial, fun _ _ _ _ _ _ => trivial⟩
  deferred _ := fun _ _ _ _ _ => ⟨fun _ _ => trivial, fun _ _ _ _ => trivial⟩
  started _ := fun _ _ _ _ _ _ _ => trivial
  callees _ _ _ := Function.in_all _
  elsewhere hs ha := hs.trans ⟨Nat.le_of_eq (by rw [ha.held]), ha.cancelled, ha.refusals,
    fun run hrun => ha.signal run ▸ hs.signal run hrun⟩
  complain hs _ := hs.trans ⟨Nat.le_refl _, fun _ => id, List.suffix_refl _, hs.signal⟩
  heap hs _ _ := hs.apart (EngineState.apart_heap _ _)
  newFunc hs _ _ := hs.apart (EngineState.apart_heap _ _)
  register hs _ := hs.trans ⟨Nat.le_refl _, fun _ => id, List.suffix_refl _, hs.signal⟩
  define hs _ _ _ := hs.apart (EngineState.apart_heap _ _)
  assign hs _ _ _ := hs.apart (EngineState.apart_heap _ _)
  revise hs _ _ _ _ := hs.apart (EngineState.apart_heap _ _)
  packageNamed _ _ _ := trivial
  definePackage hs _ _ _ _ := hs.apart (EngineState.apart_heap _ _)
  frames_of_bodies := id
  newFrame hs := ⟨trivial, (hs.apart (EngineState.apart_frames _ _)).apart (EngineState.apart_hold _ _)⟩
  defer hs _ _ := hs.apart (EngineState.apart_defer _ _ _)
  dropDeferred hs _ := hs.apart (EngineState.apart_frames _ _)
  start hs _ _ := hs.trans ⟨Nat.le_trans (Nat.le_succ _) (Nat.le_of_eq (Store.next_push _ _).symm),
    fun _ => id, List.suffix_refl _, hs.signal⟩
  capture hs _ _ := hs.apart (EngineState.apart_capture _ _)
  hold hs _ := hs.apart (EngineState.apart_hold _ _)
  letGo task hs := hs.apart (EngineState.apart_letGoOf _ task)
  turn _ hs := hs.trans ⟨Nat.le_refl _, fun _ => id, List.suffix_refl _, hs.signal⟩
  opened hs _ := ⟨hs.apart (EngineState.apart_addChild _ _), fun _ _ => trivial⟩
  entered hs _ := hs.apart (EngineState.apart_hold _ _)
  enterable_letGo _ _ _ := trivial
  writable_of_enterable _ _ := trivial

/-- **All that evaluation does accrues.** -/
theorem rules_accrues :
    Rules (.all runs signals)
      (fun P m => Obeys (fun _ => True) (Accrues runs signals) P m)
      (Opens (fun _ => True) (Accrues runs signals) fun _ _ => True) :=
  habits_accrues.rulesFor fun hs hrun => hs.signal _ hrun

end

/-! ## Running in parallel -/

/-- In which respects two runs are to be alike. -/
structure Likeness where
  states : EngineState → EngineState → Prop
  waits : Wait → Wait → Prop
  /-- One side may pause where the other one goes on. -/
  pauses : Prop
  /-- Nothing is claimed any more. -/
  lost : EngineState → Prop
  /-- Runs that evaluation belongs to. -/
  runs : RunId → Prop
  /-- Signals that end its waits. -/
  signals : SignalId → Prop

/-- What has happened on the first side is not taken back. -/
abbrev Likeness.accrues (L : Likeness) : EngineState → EngineState → Prop :=
  Accrues L.runs L.signals

/-- **The steps run in parallel**: they wait for the same, and what they end with is alike and
satisfies `Q`.  While they wait, others may do what keeps the states alike. -/
inductive Parallel (L : Likeness) (Q : α → Prop) : Step α → Step α → Prop where
  | done {s s' : EngineState} {a : α} (hs : L.states s s') (ha : Q a) :
      Parallel L Q (.done s a) (.done s' a)
  | stop {s s' : EngineState} {why : Halt} (hs : L.states s s') :
      Parallel L Q (.stop s why) (.stop s' why)
  | wait {s s' : EngineState} {on on' : Wait} {resume resume' : EngineState → Step α}
      (hs : L.states s s') (hon : L.waits on on')
      (hr : ∀ t t', L.states t t' → Parallel L Q (resume t) (resume' t')) :
      Parallel L Q (.wait s on resume) (.wait s' on' resume')
  /-- The first side pauses. -/
  | pause {s : EngineState} {due : Nat} {signal : SignalId} {resume : EngineState → Step α}
      {y : Step α} (hp : L.pauses) (hsignal : L.signals signal) (hs : L.states s s)
      (hr : ∀ t, L.states s t → Parallel L Q (resume t) y) :
      Parallel L Q (.wait s (.pause due signal) resume) y
  /-- The second side pauses. -/
  | lag {s : EngineState} {due : Nat} {signal : SignalId} {resume : EngineState → Step α}
      {x : Step α} (hp : L.pauses) (hsignal : L.signals signal) (hs : L.states s s)
      (hr : ∀ t, L.states s t → Parallel L Q x (resume t)) :
      Parallel L Q x (.wait s (.pause due signal) resume)
  /-- The first side is lost. -/
  | lost {k : EngineState} {x y : Step α} (hk : L.lost k)
      (hx : Observes id L.accrues (fun a _ => Q a) x k) : Parallel L Q x y

namespace Parallel
variable {L : Likeness} {P : α → Prop} {Q : β → Prop}

/-- One step after the other. -/
theorem bind {x y : Step α} {f : α → EngineState → Step β} (hxy : Parallel L P x y)
    (hf : ∀ a s s', L.states s s' → P a → Parallel L Q (f a s) (f a s'))
    (hlost : ∀ a s, L.accrues s s → P a → Observes id L.accrues (fun b _ => Q b) (f a s) s) :
    Parallel L Q (x.bind f) (y.bind f) := by
  induction hxy with
  | done hs ha => exact hf _ _ _ hs ha
  | stop hs => exact .stop hs
  | wait hs hon _ ih => exact .wait hs hon ih
  | pause hp hsignal hs _ ih => exact .pause hp hsignal hs ih
  | lag hp hsignal hs _ ih => exact .lag hp hsignal hs ih
  | lost hk hx => exact .lost hk (hx.bind habits_accrues.toLaw fun a s hs ha => hlost a s hs.stays ha)

theorem weaken {P' : α → Prop} {x y : Step α} (hxy : Parallel L P x y) (hP : ∀ a, P a → P' a) :
    Parallel L P' x y := by
  rw [← x.bind_done, ← y.bind_done]
  exact hxy.bind (fun a s s' hs ha => .done hs (hP a ha)) fun a s hs ha => ⟨hs, hP a ha⟩

end Parallel

/-- **The computation is its own twin**: from states that are alike it runs in parallel. -/
structure Twin (L : Likeness) (P : α → Prop) (m : Eval α) : Prop where
  parallel : ∀ {s s'}, L.states s s' → Parallel L (Ends (fun _ => True) P) (m s) (m s')
  obeys : Obeys (fun _ => True) L.accrues P m

/-- It is its own twin as long as it opens a scope. -/
structure TwinOpening (L : Likeness) (m : Eval ScopeId) : Prop where
  parallel : ∀ {s s'}, L.states s s' → Parallel L (fun _ => True) (m s) (m s')
  opens : Opens (fun _ => True) L.accrues (fun _ _ => True) m

/-- **The likeness holds up** in the face of what evaluation does. -/
structure Likeness.Robust (L : Likeness) : Prop where
  heap_eq : ∀ {s s'}, L.states s s' → s'.heap = s.heap
  frames_eq : ∀ {s s'}, L.states s s' → s'.frames = s.frames
  held_eq : ∀ {s s'}, L.states s s' → s'.held = s.held
  current_eq : ∀ {s s'}, L.states s s' → s'.current = s.current
  signal_eq : ∀ {s s' run}, L.states s s' → L.runs run →
    (s'.run run).signal = (s.run run).signal ∧ L.signals (s.run run).signal
  cycles_eq : ∀ {s s' run}, L.states s s' → L.runs run → (s'.run run).cycles = (s.run run).cycles
  -- changes that are made at one go
  heap : ∀ {s s'} h, L.states s s' → L.states { s with heap := h } { s' with heap := h }
  frames : ∀ {s s'} frames, L.states s s' → L.states { s with frames } { s' with frames }
  defer : ∀ {s s'} frame call, L.states s s' →
    L.states (s.defer frame call) (s'.defer frame call)
  complain : ∀ {s s'} m, L.states s s' → L.states (s.complain m) (s'.complain m)
  notify : ∀ {s s'} chan, L.states s s' →
    L.states (s.notify (.channel chan)) (s'.notify (.channel chan))
  hold : ∀ {s s'} x, L.states s s' → L.states (s.hold x) (s'.hold x)
  letGoOf : ∀ {s s'} task, L.states s s' → L.states (s.letGoOf task) (s'.letGoOf task)
  capture : ∀ {s s'} scope, L.states s s' → L.states (s.capture scope) (s'.capture scope)
  spend : ∀ {s s' run} n, L.states s s' → L.runs run →
    L.states (s.modifyRun run fun r => { r with cycles := r.cycles + n })
      (s'.modifyRun run fun r => { r with cycles := r.cycles + n })
  pass : ∀ {s s'} run, L.states s s' → L.states (s.pass run) (s'.pass run)
  -- where the sides may differ
  openScope : ∀ {s s'} parent, L.states s s' →
    Parallel L (fun _ => True) (Eval.openScope parent s) (Eval.openScope parent s')
  checkSignal : ∀ {s s' signal}, L.states s s' → L.signals signal →
    Parallel L (fun _ => True) (Eval.checkSignal signal s) (Eval.checkSignal signal s')
  await : ∀ {s s'} {on : Wait}, L.states s s' → (∀ signal, on.signal? = some signal → L.signals signal) →
    Parallel L (fun _ => True) (Eval.await on s) (Eval.await on s')
  sleep : ∀ {s s'} ms, L.states s s' →
    Parallel L (fun _ => True) ((ExceptT.lift (Task.sleep ms) : Eval Unit) s)
      ((ExceptT.lift (Task.sleep ms) : Eval Unit) s')
  tick : ∀ {s s' run}, L.states s s' → L.runs run →
    Parallel L (fun _ => True) (Eval.tick run s) (Eval.tick run s')
  checkLength : ∀ {s s' run} length, L.states s s' → L.runs run →
    Parallel L (fun _ => True) (Eval.checkLength run length s) (Eval.checkLength run length s')
  cancel : ∀ {s s' signal}, L.states s s' → L.signals signal →
    Parallel L (fun _ => True) (Eval.modify (·.cancel signal) s) (Eval.modify (·.cancel signal) s')
  start : ∀ {s s'} job, L.states s s' →
    Parallel L (fun _ => True) (Eval.update (·.start job) s) (Eval.update (·.start job) s')

namespace Likeness.Robust
variable {L : Likeness} {P : α → Prop}
  {Q : β → Prop} {s s' : EngineState}

/-! ## Putting computations together -/

/-- How evaluation goes on after an outcome. -/
theorem andThen {k : α → Eval β} (hk : ∀ a, P a → Twin L Q (k a)) {r : Except EvalError α}
    (hr : Ends (fun _ => True) P r) (hs : L.states s s') :
    Parallel L (Ends (fun _ => True) Q) (Eval.andThen k r s) (Eval.andThen k r s') := by
  cases r with
  | ok a => exact (hk a hr).parallel hs
  | error e => exact .done hs hr

theorem bind {m : Eval α} {k : α → Eval β} (hm : Twin L P m) (hk : ∀ a, P a → Twin L Q (k a)) :
    Twin L Q (m >>= k) where
  parallel hs := by
    rw [Eval.bind_apply, Eval.bind_apply]
    refine (hm.parallel hs).bind (fun r s s' hs hr => andThen hk hr hs) fun r s hs hr => ?_
    cases r with
    | ok a => exact (hk a hr).obeys.observes hs
    | error e => exact ⟨hs, hr⟩
  obeys := rules_accrues.bind hm.obeys fun a ha => (hk a ha).obeys

theorem weaken {P' : α → Prop} {m : Eval α} (hm : Twin L P m) (hP : ∀ a, P a → P' a) :
    Twin L P' m where
  parallel hs := (hm.parallel hs).weaken fun r hr => by
    cases r with
    | ok a => exact hP a hr
    | error e => exact hr
  obeys := rules_accrues.weaken hm.obeys hP

theorem located (p : Position) {m : Eval α} (hm : Twin L P m) : Twin L P (Eval.located p m) where
  parallel hs := by
    have hends {r : Except EvalError α} (hr : Ends (fun _ => True) P r) :
        Ends (fun _ => True) P (r.mapError (·.locate p)) := by
      cases r with
      | ok a => exact hr
      | error e => exact error_in_all _
    rw [Eval.located_apply, Eval.located_apply]
    exact (hm.parallel hs).bind (fun _ _ _ hs hr => .done hs (hends hr))
      fun _ s hs hr => ⟨hs, hends hr⟩
  obeys := rules_accrues.located p hm.obeys

theorem attempt {m : Eval α} (hm : Twin L P m) :
    Twin L (Ends (fun _ => True) P) (Eval.attempt m) where
  parallel hs := by
    rw [Eval.attempt_apply, Eval.attempt_apply]
    exact (hm.parallel hs).bind (fun _ _ _ hs hr => .done hs hr) fun _ s hs hr => ⟨hs, hr⟩
  obeys := rules_accrues.attempt hm.obeys

theorem ofFailure (hs : L.states s s') (e : Failure) :
    Parallel L (Ends (fun _ => True) P) (Eval.ofFailure e s) (Eval.ofFailure e s') := by
  cases e with
  | fault f => exact .done hs (error_in_all _)
  | overflow => exact .stop hs

variable (hL : L.Robust)
include hL

theorem letGo (hs : L.states s s') : L.states s.letGo s'.letGo := by
  unfold EngineState.letGo
  rw [hL.current_eq hs]
  exact hL.letGoOf s.current hs

theorem unwind (task : TaskId) (keep : Nat) (hs : L.states s s') :
    L.states (s.unwind task keep) (s'.unwind task keep) := by
  unfold EngineState.unwind EngineState.holdCount
  rw [hL.held_eq hs]
  induction ((s.held.get? task).getD []).length - keep with
  | zero => exact hs
  | succ n ih => exact hL.letGoOf task ih

/-- Holding something while steps run. -/
theorem held {Q : Except EvalError α → Prop} (x : Holding) {m : Eval α}
    (hm : ∀ {s s'}, L.states s s' → Parallel L Q (m s) (m s')) (hs : L.states s s') :
    Parallel L Q (Eval.holding x m s) (Eval.holding x m s') := by
  rw [Eval.holding_apply, Eval.holding_apply]
  refine (hm (hL.hold x hs)).bind (fun r s s' hs hr => .done (hL.letGo hs) hr) fun r s hs hr => ?_
  exact ⟨hs.apart (s.apart_letGoOf s.current), hr⟩

/-! ## Looking and changing -/

theorem onHeap {f : Heap → Outcome (β × Heap)} (hf : ∀ h a h', f h = .ok (a, h') → Q a)
    (hs : L.states s s') :
    Parallel L (Ends (fun _ => True) Q) (Eval.onHeap f s) (Eval.onHeap f s') := by
  cases hr : f s.heap with
  | ok r =>
    obtain ⟨a, h⟩ := r
    rw [Eval.onHeap_ok hr, Eval.onHeap_ok (hL.heap_eq hs ▸ hr)]
    exact .done (hL.heap h hs) (hf _ a h hr)
  | error e =>
    rw [Eval.onHeap_error hr, Eval.onHeap_error (hL.heap_eq hs ▸ hr)]
    exact ofFailure hs e

theorem changeHeap (f : Heap → Outcome Heap) (hs : L.states s s') :
    Parallel L (Ends (fun _ => True) fun _ => True) (Eval.changeHeap f s) (Eval.changeHeap f s') := by
  cases hr : f s.heap with
  | ok h =>
    rw [Eval.changeHeap_ok hr, Eval.changeHeap_ok (hL.heap_eq hs ▸ hr)]
    exact .done (hL.heap h hs) trivial
  | error e =>
    rw [Eval.changeHeap_error hr, Eval.changeHeap_error (hL.heap_eq hs ▸ hr)]
    exact ofFailure hs e

theorem bindName (name : String) (f : Heap → Outcome Heap) (hs : L.states s s') :
    Parallel L (Ends (fun _ => True) fun _ => True) (Eval.bindName name f s)
      (Eval.bindName name f s') := by
  cases hr : f s.heap with
  | ok h =>
    rw [Eval.bindName_ok hr, Eval.bindName_ok (hL.heap_eq hs ▸ hr)]
    exact .done (hL.heap h hs) trivial
  | error e =>
    rw [Eval.bindName_error hr, Eval.bindName_error (hL.heap_eq hs ▸ hr)]
    exact ofFailure (hL.complain _ hs) e

theorem readHeap {f : Heap → β} (hf : ∀ h, Q (f h)) (hs : L.states s s') :
    Parallel L (Ends (fun _ => True) Q) (Eval.readHeap f s) (Eval.readHeap f s') := by
  rw [Eval.readHeap_apply, Eval.readHeap_apply, hL.heap_eq hs]
  exact .done hs (hf _)

/-- A change of the heap that takes place in any case. -/
theorem modifyHeap (f : Heap → Heap) (hs : L.states s s') :
    L.states (s.modifyHeap f) (s'.modifyHeap f) := by
  unfold EngineState.modifyHeap
  rw [hL.heap_eq hs]
  exact hL.heap _ hs

omit hL in
/-- A look that shows the same in both states. -/
theorem look {f : EngineState → β} (hsame : f s' = f s) (hs : L.states s s') (hQ : Q (f s)) :
    Parallel L (Ends (fun _ => True) Q) (Eval.read f s) (Eval.read f s') := by
  rw [Eval.read_apply, Eval.read_apply, hsame]
  exact .done hs hQ

theorem signalOf (hs : L.states s s') {run : RunId} (hrun : L.runs run) :
    Parallel L (Ends (fun _ => True) L.signals) (Eval.signalOf run s) (Eval.signalOf run s') :=
  look (hL.signal_eq hs hrun).1 hs (hL.signal_eq hs hrun).2

theorem alloc {f : Heap → β × Heap} (hf : ∀ h, Q (f h).1) (hs : L.states s s') :
    Parallel L (Ends (fun _ => True) Q) (Eval.alloc f s) (Eval.alloc f s') := by
  rw [Eval.alloc_apply, Eval.alloc_apply, hL.heap_eq hs]
  exact .done (hL.heap _ hs) (hf _)

/-- The scope of a function is captured, and the function is made. -/
theorem closure (definition : FuncDef) (scope : ScopeId) (selfBound : Bool) (hs : L.states s s') :
    Parallel L (Ends (fun _ => True) (Value.In fun _ => True))
      (Eval.closure definition scope selfBound s) (Eval.closure definition scope selfBound s') := by
  rw [Eval.closure_apply, Eval.closure_apply]
  exact hL.alloc (fun _ => value_in_all _) (hL.capture scope hs)

/-- A write is prepared and carried out. -/
theorem store (f : Heap → Outcome (Write × Heap)) (hs : L.states s s') :
    Parallel L (Ends (fun _ => True) fun _ => True) (Eval.store f s) (Eval.store f s') := by
  rw [Eval.store, Eval.bind_apply, Eval.bind_apply]
  refine (hL.onHeap (Q := fun _ => True) (fun _ _ _ _ => trivial) hs).bind
    (fun r t t' ht _ => ?_) fun r t ht _ => ?_
  · cases r with
    | ok w => exact .done (hL.modifyHeap _ ht) trivial
    | error e => exact .done ht (error_in_all e)
  · cases r with
    | ok w => exact ⟨ht.apart (t.apart_heap _), trivial⟩
    | error e => exact ⟨ht, error_in_all e⟩

theorem tryHeap {f : Heap → Outcome β} [∀ h, (f h).Plain] (hf : ∀ h a, f h = .ok a → Q a) :
    Twin L Q (Eval.tryHeap f) where
  parallel {s s'} hs := by
    rw [Eval.tryHeap_apply, Eval.tryHeap_apply, hL.heap_eq hs]
    cases hr : f s.heap with
    | ok a => exact .done hs (hf _ a hr)
    | error e => exact ofFailure hs e
  obeys := rules_accrues.tryHeap fun h a _ hr => hf h a hr

/-- A name that has a value gets another one. -/
theorem revise {scope : ScopeId} (name : String) {f : Value → Heap → Outcome Value}
    [∀ v h, (f v h).Plain] :
    Twin L (Value.In fun _ => True) (do
      let current ← Eval.lookup scope name
      let updated ← Eval.tryHeap (f current)
      Eval.assign scope name updated
      return updated) := by
  refine bind (hL.tryHeap (Q := fun _ => True) fun _ _ _ => trivial) fun current _ => ?_
  refine bind (hL.tryHeap (Q := fun _ => True) fun _ _ _ => trivial) fun updated _ => ?_
  have hassign : Twin L (fun _ => True) (Eval.assign scope name updated) :=
    ⟨fun hs => hL.bindName _ _ hs, rules_accrues.assign trivial (Fragment.binds_all name) (value_in_all updated)⟩
  refine bind hassign fun _ _ => ?_
  exact ⟨fun hs => .done hs (value_in_all updated), rules_accrues.pure (value_in_all updated)⟩

/-! ## Scopes -/

omit hL in
theorem thenOpens {m : Eval α} {k : α → Eval ScopeId} (hm : Twin L P m)
    (hk : ∀ a, P a → TwinOpening L (k a)) : TwinOpening L (m >>= k) where
  parallel hs := by
    rw [Eval.bind_apply, Eval.bind_apply]
    refine (hm.parallel hs).bind (fun r s s' hs hr => ?_) fun r s hs hr => ?_
    · cases r with
      | ok a => exact (hk a hr).parallel hs
      | error e => exact .done hs trivial
    · cases r with
      | ok a => exact (hk a hr).opens.observes hs
      | error e => exact ⟨hs, trivial⟩
  opens := rules_accrues.thenOpens hm.obeys fun a ha => (hk a ha).opens

/-- A scope that has been opened is held as a block. -/
theorem inside {m : Eval ScopeId} {k : ScopeId → Eval α} (hm : TwinOpening L m)
    (hk : ∀ scope, Twin L P (k scope)) :
    Twin L P (m >>= fun scope => Eval.holding (.block scope) (k scope)) where
  parallel hs := by
    rw [Eval.bind_apply, Eval.bind_apply]
    refine (hm.parallel hs).bind (fun r s s' hs _ => ?_) fun r s hs _ => ?_
    · cases r with
      | ok scope => exact hL.held _ (hk scope).parallel hs
      | error e => exact .done hs (error_in_all e)
    · cases r with
      | ok scope => exact habits_accrues.held (hs.apart (s.apart_hold _)) (hk scope).obeys
      | error e => exact ⟨hs, error_in_all e⟩
  obeys := rules_accrues.inside hm.opens fun scope _ => (hk scope).obeys

/-! ## Deferred calls -/

theorem newFrame : Twin L (fun _ => True)
    (Eval.update fun s => (s.frames.next, { s with frames := s.frames.push [] })) where
  parallel hs := by
    rw [Eval.update_apply, Eval.update_apply, hL.frames_eq hs]
    exact .done (hL.frames _ hs) trivial
  obeys := Manners.update fun _ hs => ⟨hs.apart (EngineState.apart_frames _ _), trivial⟩

theorem inFrame {m : FrameId → Eval α} (hm : ∀ frame, Twin L P (m frame)) :
    Twin L P (Eval.inFrame m) where
  parallel hs := by
    rw [Eval.inFrame, Eval.bind_apply, Eval.bind_apply]
    refine (hL.newFrame.parallel hs).bind (fun r s s' hs _ => ?_) fun r s hs _ => ?_
    · cases r with
      | ok frame => exact hL.held _ (hm frame).parallel hs
      | error e => exact .done hs (error_in_all e)
    · cases r with
      | ok frame => exact habits_accrues.held (hs.apart (s.apart_hold _)) (hm frame).obeys
      | error e => exact ⟨hs, error_in_all e⟩
  obeys := rules_accrues.inFrame fun frame _ => (hm frame).obeys

theorem dropDeferred (frame : FrameId) (hs : L.states s s') :
    Parallel L (Ends (fun _ => True) fun _ => True) (Eval.dropDeferred frame s)
      (Eval.dropDeferred frame s') := by
  rw [Eval.dropDeferred, Eval.modify_apply, Eval.modify_apply, hL.frames_eq hs]
  exact .done (hL.frames _ hs) trivial

theorem runRules :
    RunRules (.all L.runs L.signals)
      (fun P m => Twin L P m) where
  bind := bind
  signalOf hrun := ⟨fun hs => hL.signalOf hs hrun, rules_accrues.signalOf hrun⟩
  cyclesOf f hrun hP := ⟨fun hs => look (congrArg f (hL.cycles_eq hs hrun)) hs (hP _),
    rules_accrues.cyclesOf f hrun hP⟩
  checkSignal hsignal := ⟨fun hs => (hL.checkSignal hs hsignal).weaken fun r _ => ends_in_all r,
    rules_accrues.checkSignal hsignal⟩
  await hon := ⟨fun hs => (hL.await hs hon).weaken fun r _ => ends_in_all r,
    rules_accrues.await hon⟩
  spend hrun n := ⟨fun hs => .done (hL.spend n hs hrun) trivial,
    rules_accrues.spend hrun n⟩
  tick hrun := ⟨fun hs => (hL.tick hs hrun).weaken fun r _ => ends_in_all r,
    rules_accrues.tick hrun⟩

theorem pass_twin (run : RunId) : Twin L (fun _ => True) (Eval.modify (·.pass run)) where
  parallel hs := .done (hL.pass run hs) trivial
  obeys := habits_accrues.aside fun s => s.aside_pass run

/-- **Being a twin follows the rules of evaluation.** -/
theorem rules :
    Rules (.all L.runs L.signals)
      (fun P m => Twin L P m) (TwinOpening L) where
  toRunRules := hL.runRules
  zone_of_writable _ := trivial
  frames_of_bodies := id
  pure ha := ⟨fun hs => .done hs ha, rules_accrues.pure ha⟩
  throw he := ⟨fun hs => .done hs he, rules_accrues.throw he⟩
  breakDown message := ⟨fun hs => .stop hs, rules_accrues.breakDown message⟩
  outOfFuel := ⟨fun hs => .stop hs, rules_accrues.outOfFuel⟩
  weaken := weaken
  located := located
  attempt := attempt
  misfit hm := ⟨fun hs => .done (hL.complain _ hs) (error_in_all _), rules_accrues.misfit hm⟩
  holding hx hm := ⟨fun hs => hL.held _ hm.parallel hs, rules_accrues.holding hx hm.obeys⟩
  readHeap hP := ⟨fun hs => hL.readHeap (fun h => hP h h.encloses_all) hs,
    rules_accrues.readHeap hP⟩
  callee hid := ⟨fun hs => hL.readHeap (fun _ => ⟨fun _ _ => trivial, Function.in_all _⟩) hs,
    rules_accrues.callee hid⟩
  deferred frame := ⟨fun hs => look (by rw [hL.frames_eq hs]) hs fun c _ =>
    ⟨value_in_all _, fun v _ => value_in_all v⟩, rules_accrues.deferred frame⟩
  sleep ms := ⟨fun hs => (hL.sleep ms hs).weaken fun r _ => ends_in_all r,
    rules_accrues.sleep ms⟩
  checkpoint hrun := hL.runRules.checkpointOf hrun (hL.pass_twin _)
  checkLength hrun length :=
    ⟨fun hs => (hL.checkLength length hs hrun).weaken fun r _ => ends_in_all r,
      rules_accrues.checkLength hrun length⟩
  cancel hsignal := ⟨fun hs => (hL.cancel hs hsignal).weaken fun r _ => ends_in_all r,
    rules_accrues.cancel hsignal⟩
  onHeap hf := ⟨fun hs => hL.onHeap (fun h a h' hr => (hf h a h' h.encloses_all hr).2) hs,
    rules_accrues.onHeap hf⟩
  alloc hf := ⟨fun hs => hL.alloc (fun h => (hf h h.encloses_all).1.2) hs,
    rules_accrues.alloc hf⟩
  changeHeap hf := ⟨fun hs => hL.changeHeap _ hs, rules_accrues.changeHeap hf⟩
  store hf := ⟨fun hs => hL.store _ hs, rules_accrues.store hf⟩
  notify chan := ⟨fun hs => .done (hL.notify chan hs) trivial, rules_accrues.notify chan⟩
  register hchan := ⟨fun hs => .done (hL.notify _ (hL.modifyHeap _ hs)) trivial,
    rules_accrues.register hchan⟩
  capture hscope hcode :=
    ⟨fun hs => .done (hL.capture _ hs) trivial, rules_accrues.capture hscope hcode⟩
  closure selfBound hscope hdefinition :=
    ⟨fun hs => hL.closure _ _ _ hs, rules_accrues.closure selfBound hscope hdefinition⟩
  openScope hparent := ⟨hL.openScope _, rules_accrues.openScope hparent⟩
  holdingOpens hx hm := ⟨fun hs => hL.held _ hm.parallel hs,
    rules_accrues.holdingOpens hx hm.opens⟩
  thenOpens := thenOpens
  inside hm hk := hL.inside hm fun scope => hk scope trivial
  define hscope hname _ hv := ⟨fun hs => hL.bindName _ _ hs,
    rules_accrues.define hscope hname hv⟩
  assign hscope hname _ hv := ⟨fun hs => hL.bindName _ _ hs,
    rules_accrues.assign hscope hname hv⟩
  revise _ name _ _ _ := hL.revise name
  packageNamed hscope name := ⟨fun hs => hL.readHeap (fun _ _ _ => trivial) hs,
    rules_accrues.packageNamed hscope name⟩
  definePackage hscope hpackage _ _ hnode := ⟨fun hs => hL.bindName _ _ hs,
    rules_accrues.definePackage hscope hpackage hnode⟩
  inFrame hm := hL.inFrame fun frame => hm frame trivial
  defer _ _ hcall :=
    ⟨fun hs => .done (hL.defer _ _ hs) trivial, rules_accrues.defer trivial hcall⟩
  dropDeferred _ := ⟨fun hs => hL.dropDeferred _ hs, rules_accrues.dropDeferred trivial⟩
  start spread hrun hcallee hargs hcode :=
    ⟨fun hs => (hL.start _ hs).weaken fun r _ => ends_in_all r,
      rules_accrues.start spread hrun hcallee hargs hcode⟩

end Likeness.Robust
end ScriptEngine
