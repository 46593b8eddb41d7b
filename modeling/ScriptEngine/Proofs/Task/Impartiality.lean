import ScriptEngine.Proofs.Task.Twins

/-! # Computations that do not take sides

A computation that is its own twin runs in parallel with itself from states that are alike.  A task
that waits by now has come from one state only, though, and is to go on in parallel as well if it is
resumed in states that are alike.  So a computation is **impartial** (`Impartial`) if it runs in
parallel with itself not only from where it starts, but also from each of its waits, whatever happened
before.

If a likeness keeps schedulers in lockstep (`Likeness.InStep`), then being impartial follows the rules
of evaluation (`Likeness.InStep.rulesOfImpartiality`).
-/
namespace ScriptEngine

variable {α β : Type}

/-! ## Impartial computations -/

/-- **Wherever the step waits**, it runs in parallel with itself when it is resumed, and takes nothing
back that has happened. -/
def Step.EvenHanded (L : Likeness) (Q : α → Prop) : Step α → Prop
  | .done _ _ => True
  | .stop _ _ => True
  | .wait _ _ resume =>
    (∀ s s', L.states s s' → Parallel L Q (resume s) (resume s')) ∧
      ∀ s, Observes id L.accrues (fun a _ => Q a) (resume s) s ∧ (resume s).EvenHanded L Q

/-- **The computation is impartial**: it runs in parallel with itself from where it starts and from
each of its waits. -/
structure Impartial (L : Likeness) (Q : α → Prop) (m : Task α) : Prop where
  parallel : ∀ {s s'}, L.states s s' → Parallel L Q (m s) (m s')
  observes : ∀ s, Observes id L.accrues (fun a _ => Q a) (m s) s
  even : ∀ s, (m s).EvenHanded L Q

/-- Evaluation that is impartial. -/
abbrev ImpartialEval (L : Likeness) (P : α → Prop) (m : Eval α) : Prop :=
  Impartial L (Ends (fun _ => True) P) m

section
variable {L : Likeness} {P : α → Prop} {Q : β → Prop}

/-- What a step goes on to do is impartial, so all of it is even-handed.  The induction is on the
waits of the step. -/
theorem Step.EvenHanded.bind {x : Step α} {f : α → Task β} {k : EngineState}
    (hx : x.EvenHanded L P) (hobserves : Observes id L.accrues (fun a _ => P a) x k)
    (hf : ∀ a, P a → Impartial L Q (f a)) : (x.bind f).EvenHanded L Q := by
  induction x generalizing k with
  | done s a => exact (hf a hobserves.2).even s
  | stop s why => trivial
  | wait s on resume ih =>
    refine ⟨fun t t' ht => ?_, fun t => ⟨?_, ih t (hx.2 t).2 (hx.2 t).1⟩⟩
    · exact (hx.1 t t' ht).bind (fun a _ _ hs ha => (hf a ha).parallel hs)
        fun a s _ ha => (hf a ha).observes s
    · exact (hx.2 t).1.bind habits_accrues.toLaw fun a s _ ha => (hf a ha).observes s

theorem Step.EvenHanded.weaken {P' : α → Prop} {x : Step α} (hx : x.EvenHanded L P)
    (hP : ∀ a, P a → P' a) : x.EvenHanded L P' := by
  induction x with
  | done s a => trivial
  | stop s why => trivial
  | wait s on resume ih =>
    refine ⟨fun t t' ht => (hx.1 t t' ht).weaken hP, fun t => ⟨?_, ih t (hx.2 t).2⟩⟩
    exact (hx.2 t).1.weaken habits_accrues.toLaw fun a _ _ ha => hP a ha

namespace Impartial

/-- One computation after the other. -/
theorem bind {m : Task α} {f : α → Task β} (hm : Impartial L P m)
    (hf : ∀ a, P a → Impartial L Q (f a)) : Impartial L Q fun s => (m s).bind f where
  parallel hs := (hm.parallel hs).bind (fun a _ _ hs ha => (hf a ha).parallel hs)
    fun a s _ ha => (hf a ha).observes s
  observes s := (hm.observes s).bind habits_accrues.toLaw fun a s _ ha => (hf a ha).observes s
  even s := (hm.even s).bind (hm.observes s) hf

/-- A change at one go that keeps what is alike alike. -/
theorem done {f : EngineState → EngineState} {a : α}
    (hf : ∀ {s s'}, L.states s s' → L.states (f s) (f s')) (hkept : ∀ s, L.accrues s (f s))
    (ha : P a) : Impartial L P fun s => .done (f s) a where
  parallel hs := .done (hf hs) ha
  observes s := ⟨hkept s, ha⟩
  even _ := trivial

/-- Something is done first that keeps what is alike alike. -/
theorem preceded {m : Task α} (hm : Impartial L P m) {f : EngineState → EngineState}
    (hf : ∀ {s s'}, L.states s s' → L.states (f s) (f s')) (hkept : ∀ s, L.accrues s (f s)) :
    Impartial L P fun s => m (f s) where
  parallel hs := hm.parallel (hf hs)
  observes s := (hm.observes (f s)).after habits_accrues.toLaw (hkept s)
  even s := hm.even (f s)

/-- A task that waits is impartial if it was so when it began to. -/
theorem of_wait {s : EngineState} {on : Wait} {resume : Task α}
    (hwait : Step.EvenHanded L P (.wait s on resume)) : Impartial L P resume where
  parallel hs := hwait.1 _ _ hs
  observes s := (hwait.2 s).1
  even s := (hwait.2 s).2

theorem weaken {P' : α → Prop} {m : Task α} (hm : Impartial L P m) (hP : ∀ a, P a → P' a) :
    Impartial L P' m where
  parallel hs := (hm.parallel hs).weaken hP
  observes s := (hm.observes s).weaken habits_accrues.toLaw fun a _ _ ha => hP a ha
  even s := (hm.even s).weaken hP

end Impartial

/-! ## Steps that do not wait -/

theorem even_ofFailure (e : Failure) (s : EngineState) :
    Step.EvenHanded L (Ends (fun _ => True) P) (Eval.ofFailure e s) := by
  cases e <;> trivial

theorem even_tryHeap (f : Heap → Outcome α) (s : EngineState) :
    Step.EvenHanded L (Ends (fun _ => True) P) (Eval.tryHeap f s) := by
  rw [Eval.tryHeap_apply]
  cases f s.heap with
  | ok a => trivial
  | error e => exact even_ofFailure e s

theorem even_onHeap (f : Heap → Outcome (α × Heap)) (s : EngineState) :
    Step.EvenHanded L (Ends (fun _ => True) P) (Eval.onHeap f s) := by
  cases hr : f s.heap with
  | ok r =>
    rw [Eval.onHeap_ok hr]
    trivial
  | error e =>
    rw [Eval.onHeap_error hr]
    exact even_ofFailure e s

theorem even_changeHeap {P : Unit → Prop} (f : Heap → Outcome Heap) (s : EngineState) :
    Step.EvenHanded L (Ends (fun _ => True) P) (Eval.changeHeap f s) := by
  cases hr : f s.heap with
  | ok h =>
    rw [Eval.changeHeap_ok hr]
    trivial
  | error e =>
    rw [Eval.changeHeap_error hr]
    exact even_ofFailure e s

theorem even_bindName {P : Unit → Prop} (name : String) (f : Heap → Outcome Heap) (s : EngineState) :
    Step.EvenHanded L (Ends (fun _ => True) P) (Eval.bindName name f s) := by
  cases hr : f s.heap with
  | ok h =>
    rw [Eval.bindName_ok hr]
    trivial
  | error e =>
    rw [Eval.bindName_error hr]
    exact even_ofFailure e _

theorem even_store (f : Heap → Outcome (Write × Heap)) (s : EngineState) :
    Step.EvenHanded L (Ends (fun _ => True) fun _ => True) (Eval.store f s) := by
  rw [Eval.store, Eval.bind_apply]
  cases hr : f s.heap with
  | ok r =>
    rw [Eval.onHeap_ok hr]
    trivial
  | error e =>
    rw [Eval.onHeap_error hr]
    cases e <;> trivial

theorem even_openScope (parent : ScopeId) (s : EngineState) :
    Step.EvenHanded L (fun _ => True) (Eval.openScope parent s) := by
  rw [Eval.openScope_apply]
  cases (s.addChild parent).1 with
  | ok scope => trivial
  | error e => cases e <;> trivial

end

/-! ## Likenesses that keep schedulers in lockstep -/

/-- **The likeness keeps schedulers in lockstep**: nothing that the scheduler looks at tells the sides
apart. -/
structure Likeness.InStep (L : Likeness) : Prop extends L.Robust where
  waits_eq : ∀ {on on'}, L.waits on on' → on' = on
  steady : ¬ L.pauses
  all_runs : ∀ run, L.runs run
  all_signals : ∀ signal, L.signals signal
  lost_stays : ∀ {k s}, L.accrues k s → L.lost k → L.lost s
  now_eq : ∀ {s s'}, L.states s s' → s'.now = s.now
  notices_eq : ∀ {s s'}, L.states s s' → s'.notices = s.notices
  signals_eq : ∀ {s s'}, L.states s s' → s'.signals = s.signals
  -- what the scheduler writes
  current : ∀ {s s'} task, L.states s s' →
    L.states { s with current := task } { s' with current := task }
  notices : ∀ {s s'}, L.states s s' → L.states { s with notices := #[] } { s' with notices := #[] }
  now : ∀ {s s'} t, L.states s s' → L.states { s with now := t } { s' with now := t }
  report : ∀ {s s'} r, L.states s s' →
    L.states { s with reports := s.reports ++ [r] } { s' with reports := s'.reports ++ [r] }

namespace Likeness.InStep
variable {L : Likeness} {P : α → Prop} {Q : β → Prop} (hL : L.InStep)
include hL

/-- Whatever has happened so far is not taken back. -/
theorem valid (s : EngineState) : L.accrues s s :=
  ⟨Nat.le_refl _, fun _ => id, List.suffix_refl _, fun _ _ => hL.all_signals _⟩

/-- Its own twin, and even-handed where it waits. -/
theorem impartial {m : Eval α} (hm : Twin L P m)
    (heven : ∀ s, Step.EvenHanded L (Ends (fun _ => True) P) (m s)) : ImpartialEval L P m where
  parallel := hm.parallel
  observes s := hm.obeys.observes (hL.valid s)
  even := heven

theorem accrues_letGo (s : EngineState) : L.accrues s s.letGo :=
  (hL.valid s).apart (s.apart_letGoOf s.current)

/-! ## Waiting -/

theorem impartial_checkWait (on : Wait) : ImpartialEval L (fun _ => True) (Eval.checkWait on) := by
  have hon : Twin L (fun _ => True) (Eval.checkWait on) := by
    unfold Eval.checkWait
    cases on.signal? with
    | none => exact hL.rules.pure trivial
    | some signal => exact hL.rules.checkSignal (hL.all_signals signal)
  refine hL.impartial hon fun s => ?_
  rw [Eval.checkWait_apply]
  split <;> trivial

theorem even_await (on : Wait) (s : EngineState) :
    Step.EvenHanded L (Ends (fun _ => True) fun _ => True) (Eval.await on s) := by
  have hcheck := hL.impartial_checkWait on
  rw [Eval.await_apply]
  split
  · trivial
  · exact ⟨fun _ _ ht => hcheck.parallel ht, fun t => ⟨hcheck.observes t, hcheck.even t⟩⟩

theorem even_sleep (ms : Nat) (s : EngineState) :
    Step.EvenHanded L (Ends (fun _ => True) fun _ => True)
      ((ExceptT.lift (Task.sleep ms) : Eval Unit) s) := by
  rw [Eval.sleep_apply]
  split
  · trivial
  · exact ⟨fun _ _ ht => .done ht trivial, fun t => ⟨⟨hL.valid t, trivial⟩, trivial⟩⟩

theorem even_tick (run : RunId) (s : EngineState) :
    Step.EvenHanded L (Ends (fun _ => True) fun _ => True) (Eval.tick run s) := by
  rw [Eval.tick_apply]
  cases ((s.run run).limiter.tick s.now).2 with
  | none => trivial
  | some due => exact hL.even_await _ _

/-! ## Putting computations together -/

/-- Evaluation goes on after a result, and an error is passed on. -/
theorem andThen {P : α → Prop} {R : Except EvalError β → Prop} {k : α → Eval β}
    (hk : ∀ a, P a → Impartial L R (k a)) (herror : ∀ e, R (.error e)) {r : Except EvalError α}
    (hr : Ends (fun _ => True) P r) : Impartial L R (Eval.andThen k r) := by
  cases r with
  | ok a => exact hk a hr
  | error e => exact .done id hL.valid (herror e)

theorem followedBy {P : α → Prop} {R : Except EvalError β → Prop} {m : Eval α} {k : α → Eval β}
    (hm : ImpartialEval L P m) (hk : ∀ a, P a → Impartial L R (k a))
    (herror : ∀ e, R (.error e)) : Impartial L R (m >>= k : Eval β) := by
  have hbind : (m >>= k : Eval β) = fun s => (m s).bind (Eval.andThen k) :=
    funext (Eval.bind_apply m k)
  rw [hbind]
  exact hm.bind fun r hr => hL.andThen hk herror hr

theorem bind {m : Eval α} {k : α → Eval β} (hm : ImpartialEval L P m)
    (hk : ∀ a, P a → ImpartialEval L Q (k a)) : ImpartialEval L Q (m >>= k) :=
  hL.followedBy hm hk error_in_all

theorem holding {R : Except EvalError α → Prop} (x : Holding) {m : Eval α}
    (hm : Impartial L R m) : Impartial L R (Eval.holding x m) := by
  have hheld : Impartial L R fun s => m (s.hold x) :=
    hm.preceded (hL.hold x) fun s => (hL.valid s).apart (s.apart_hold x)
  exact hheld.bind fun r hr => .done hL.letGo hL.accrues_letGo hr

theorem located (p : Position) {m : Eval α} (hm : ImpartialEval L P m) :
    ImpartialEval L P (Eval.located p m) :=
  Impartial.bind hm fun r hr => by
    refine .done id hL.valid ?_
    cases r with
    | ok a => exact hr
    | error e => exact error_in_all _

theorem attempt {m : Eval α} (hm : ImpartialEval L P m) :
    ImpartialEval L (Ends (fun _ => True) P) (Eval.attempt m) :=
  Impartial.bind hm fun _ hr => .done id hL.valid hr

/-- A scope that has been opened is held as a block. -/
theorem inside {m : Eval ScopeId} {k : ScopeId → Eval α} (hm : Impartial L (fun _ => True) m)
    (hk : ∀ scope, ImpartialEval L P (k scope)) :
    ImpartialEval L P (m >>= fun scope => Eval.holding (.block scope) (k scope)) := by
  have hany : ImpartialEval L (fun _ => True) m := hm.weaken fun r _ => ends_in_all r
  exact hL.bind hany fun scope _ => hL.holding _ (hk scope)

/-- A name that has a value gets another one. -/
theorem revise {scope : ScopeId} (name : String) {f : Value → Heap → Outcome Value}
    [∀ v h, (f v h).Plain] :
    ImpartialEval L (Value.In fun _ => True) (do
      let current ← Eval.lookup scope name
      let updated ← Eval.tryHeap (f current)
      Eval.assign scope name updated
      return updated) := by
  have htry {f : Heap → Outcome Value} [∀ h, (f h).Plain] :
      ImpartialEval L (fun _ => True) (Eval.tryHeap f) :=
    hL.impartial (hL.tryHeap fun _ _ _ => trivial) (even_tryHeap f)
  refine hL.bind htry fun current _ => hL.bind htry fun updated _ => ?_
  have hassign : ImpartialEval L (fun _ => True) (Eval.assign scope name updated) :=
    hL.impartial (hL.rules.assign trivial (Fragment.binds_all name) (value_in_all updated))
      (even_bindName _ _)
  refine hL.bind hassign fun _ _ => ?_
  exact hL.impartial (hL.rules.pure (value_in_all updated)) fun _ => trivial

theorem runRulesOfImpartiality :
    RunRules (.all L.runs L.signals)
      (fun P m => ImpartialEval L P m) where
  bind := hL.bind
  signalOf hrun := hL.impartial (hL.rules.signalOf hrun) fun _ => trivial
  cyclesOf f hrun hP := hL.impartial (hL.rules.cyclesOf f hrun hP) fun _ => trivial
  checkSignal hsignal := hL.impartial (hL.rules.checkSignal hsignal) fun s => by
    rw [Eval.checkSignal_apply]
    split <;> trivial
  await hon := hL.impartial (hL.rules.await hon) (hL.even_await _)
  spend hrun n := hL.impartial (hL.rules.spend hrun n) fun _ => trivial
  tick hrun := hL.impartial (hL.rules.tick hrun) (hL.even_tick _)

/-- **Being impartial follows the rules of evaluation.** -/
theorem rulesOfImpartiality :
    Rules (.all L.runs L.signals)
      (fun P m => ImpartialEval L P m) (fun m => Impartial L (fun _ => True) m) where
  toRunRules := hL.runRulesOfImpartiality
  zone_of_writable _ := trivial
  frames_of_bodies := id
  pure ha := hL.impartial (hL.rules.pure ha) fun _ => trivial
  throw he := hL.impartial (hL.rules.throw he) fun _ => trivial
  breakDown message := hL.impartial (hL.rules.breakDown message) fun _ => trivial
  outOfFuel := hL.impartial hL.rules.outOfFuel fun _ => trivial
  weaken hm hP := hm.weaken fun r hr => by
    cases r with
    | ok a => exact hP a hr
    | error e => exact hr
  located := hL.located
  attempt := hL.attempt
  misfit hm := hL.impartial (hL.rules.misfit hm) fun _ => trivial
  holding {_ _ x _} _ hm := hL.holding x hm
  readHeap hP := hL.impartial (hL.rules.readHeap hP) fun _ => trivial
  callee hid := hL.impartial (hL.rules.callee hid) fun _ => trivial
  deferred frame := hL.impartial (hL.rules.deferred frame) fun _ => trivial
  sleep ms := hL.impartial (hL.rules.sleep ms) (hL.even_sleep ms)
  checkpoint hrun := hL.runRulesOfImpartiality.checkpointOf hrun
    (hL.impartial (hL.pass_twin _) fun _ => trivial)
  checkLength hrun length := hL.impartial (hL.rules.checkLength hrun length) fun s => by
    rw [Eval.checkLength_apply]
    split <;> trivial
  cancel hsignal := hL.impartial (hL.rules.cancel hsignal) fun _ => trivial
  onHeap hf := hL.impartial (hL.rules.onHeap hf) (even_onHeap _)
  alloc hf := hL.impartial (hL.rules.alloc hf) fun _ => trivial
  changeHeap hf := hL.impartial (hL.rules.changeHeap hf) (even_changeHeap _)
  store hf := hL.impartial (hL.rules.store hf) (even_store _)
  notify chan := hL.impartial (hL.rules.notify chan) fun _ => trivial
  register hchan := hL.impartial (hL.rules.register hchan) fun _ => trivial
  capture hscope hcode := hL.impartial (hL.rules.capture hscope hcode) fun _ => trivial
  closure selfBound hscope hdefinition :=
    hL.impartial (hL.rules.closure selfBound hscope hdefinition) fun _ => trivial
  openScope {parent} _ :=
    { parallel := hL.openScope parent
      observes := fun s =>
        (rules_accrues.openScope trivial).observes (hL.valid s)
      even := even_openScope parent }
  holdingOpens {x _} _ hm := hL.holding x hm
  thenOpens hm hk := hL.followedBy hm hk fun _ => trivial
  inside hm hk := hL.inside hm fun scope => hk scope trivial
  define hscope hname _ hv :=
    hL.impartial (hL.rules.define hscope hname hv) (even_bindName _ _)
  assign hscope hname _ hv :=
    hL.impartial (hL.rules.assign hscope hname hv) (even_bindName _ _)
  revise _ name _ _ _ := hL.revise name
  packageNamed hscope name := hL.impartial (hL.rules.packageNamed hscope name) fun _ => trivial
  definePackage hscope hpackage _ _ hnode :=
    hL.impartial (hL.rules.definePackage hscope hpackage hnode) (even_bindName _ _)
  inFrame hm := hL.bind (hL.impartial hL.newFrame fun _ => trivial) fun frame _ =>
    hL.holding _ (hm frame trivial)
  defer _ _ hcall := hL.impartial (hL.rules.defer trivial hcall) fun _ => trivial
  dropDeferred _ := hL.impartial (hL.rules.dropDeferred trivial) fun _ => trivial
  start spread hrun hcallee hargs hcode :=
    hL.impartial (hL.rules.start spread hrun hcallee hargs hcode) fun _ => trivial

end Likeness.InStep
end ScriptEngine
