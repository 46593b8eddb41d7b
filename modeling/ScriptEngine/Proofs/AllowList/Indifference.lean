import ScriptEngine.Evaluator.Level
import ScriptEngine.Proofs.AllowList.Moves
import ScriptEngine.Proofs.Task.Rules

/-! # Computations that go the same way in both versions

Steps go **together** if they wait for the same things and end with the same, and if the states that they
leave are still two versions of each other, in which nothing known has been lost
(`AllowList.Together`).  While they wait, others may do what leaves it so.  A computation is **indifferent**
to the version if from two versions of a state it goes together (`AllowList.Indifferent`); what is to be
known at its end is a part of the statement, since a statement that binds a name makes the name known for
those after it.

Whatever does not look at scopes, or changes them in the same way in both versions, is **neutral**
(`AllowList.Neutral`): it is indifferent, whatever is known.  There is an instance for all that evaluation
does without asking for anything, except opening scopes, looking up and binding names, and making functions.
-/
namespace ScriptEngine
namespace AllowList

variable {α β : Type}

/-- What is to hold of a value. Nothing is claimed of an error. -/
def Upon (Q : Versions → α → Prop) (p : Versions) : Except EvalError α → Prop
  | .ok a => Q p a
  | .error _ => True

/-- **The steps go together**: they wait for the same, and end with the same, of which `Q` holds. -/
inductive Together (A : AllowList) (Q : Versions → α → Prop) :
    Versions → Step α → Step α → Prop where
  | done {k p : Versions} {a : α} (hp : A.Later k p) (ha : Q p a) :
      Together A Q k (.done p.left a) (.done (A.right p) a)
  | stop {k p : Versions} {why : Halt} (hp : A.Later k p) :
      Together A Q k (.stop p.left why) (.stop (A.right p) why)
  | wait {k p : Versions} {on : Wait} {resume resume' : EngineState → Step α} (hp : A.Later k p)
      (hr : ∀ q, A.Later p q → Together A Q q (resume q.left) (resume' (A.right q))) :
      Together A Q k (.wait p.left on resume) (.wait (A.right p) on resume')

/-- **The computation is indifferent**: begun in two versions in which no less is known than in `k`, it
goes together, and `Q` holds of its value. -/
structure Indifferent (A : AllowList) (k : Versions) (Q : Versions → α → Prop) (m : Eval α) : Prop where
  together : ∀ {p}, A.Later k p → A.Together (Upon Q) p (m p.left) (m (A.right p))

/-- **The computation is neutral**: it goes together from any two versions. -/
class Neutral (A : AllowList) (m : Eval α) : Prop where
  indifferent : ∀ k, A.Indifferent k (fun _ _ => True) m

variable {A : AllowList} {k p q : Versions} {P P' : Versions → α → Prop} {Q : Versions → β → Prop}

/-! ## Putting steps together -/

namespace Together
variable {x y : Step α}

theorem later (hxy : A.Together P p x y) (h : A.Later k p) : A.Together P k x y := by
  cases hxy with
  | done hp ha => exact .done (h.trans hp) ha
  | stop hp => exact .stop (h.trans hp)
  | wait hp hr => exact .wait (h.trans hp) hr

/-- One step after the other. -/
theorem bind {f : α → EngineState → Step β} (hxy : A.Together P k x y)
    (hf : ∀ a p, A.Later k p → P p a → A.Together Q p (f a p.left) (f a (A.right p))) :
    A.Together Q k (x.bind f) (y.bind f) := by
  induction hxy with
  | done hp ha => exact (hf _ _ hp ha).later hp
  | stop hp => exact .stop hp
  | wait hp _ ih =>
    exact .wait hp fun q hq => ih q hq fun a r hr => hf a r (hp.trans (hq.trans hr))

theorem weaken (hxy : A.Together P k x y) (hP : ∀ p a, A.Later k p → P p a → P' p a) :
    A.Together P' k x y := by
  induction hxy with
  | done hp ha => exact .done hp (hP _ _ hp ha)
  | stop hp => exact .stop hp
  | wait hp _ ih =>
    exact .wait hp fun q hq => ih q hq fun r a hr => hP r a (hp.trans (hq.trans hr))

/-- A step that has ended. -/
theorem ended {s : EngineState} {a : α} (hs : A.Later p { p with left := s })
    (ha : P { p with left := s } a) :
    A.Together P p (.done s a) (.done (s.onScopes (A.swap p.vars p.packages)) a) :=
  .done (p := { p with left := s }) hs ha

end Together

/-! ## Putting computations together -/

namespace Indifferent
variable {m : Eval α}

theorem later (hm : A.Indifferent k P m) (h : A.Later k p) : A.Indifferent p P m :=
  ⟨fun hq => hm.together (h.trans hq)⟩

theorem weaken (hm : A.Indifferent k P m) (hP : ∀ p a, A.Later k p → P p a → P' p a) :
    A.Indifferent k P' m := by
  refine ⟨fun hp => (hm.together hp).weaken fun q r hq hr => ?_⟩
  cases r with
  | ok a => exact hP q a (hp.trans hq) hr
  | error e => trivial

/-- The value does not matter. -/
theorem any (hm : A.Indifferent k P m) : A.Indifferent k (fun _ _ => True) m :=
  hm.weaken fun _ _ _ _ => trivial

theorem pure {a : α} (ha : ∀ p, A.Later k p → P p a) : A.Indifferent k P (Pure.pure a) :=
  ⟨fun hp => .ended (hp.valid.refl) (ha _ hp)⟩

theorem throw (e : EvalError) : A.Indifferent k P (MonadExcept.throw e) :=
  ⟨fun hp => .ended hp.valid.refl trivial⟩

theorem bind {f : α → Eval β} (hm : A.Indifferent k P m)
    (hf : ∀ a p, A.Later k p → P p a → A.Indifferent p Q (f a)) : A.Indifferent k Q (m >>= f) := by
  refine ⟨fun {p} hp => ?_⟩
  rw [Eval.bind_apply, Eval.bind_apply]
  refine (hm.together hp).bind fun r q hq hr => ?_
  cases r with
  | ok a => exact (hf a q (hp.trans hq) hr).together hq.valid.refl
  | error e => exact .ended hq.valid.refl trivial

theorem located (pos : Position) (hm : A.Indifferent k P m) :
    A.Indifferent k P (Eval.located pos m) := by
  refine ⟨fun {p} hp => ?_⟩
  rw [Eval.located_apply, Eval.located_apply]
  refine (hm.together hp).bind fun r q hq hr => .ended hq.valid.refl ?_
  cases r with
  | ok a => exact hr
  | error e => trivial

/-- What an attempt comes to is known like the value of what was attempted. -/
theorem attempt (hm : A.Indifferent k P m) :
    A.Indifferent k (fun p r => Upon P p r) (Eval.attempt m) := by
  refine ⟨fun {p} hp => ?_⟩
  rw [Eval.attempt_apply, Eval.attempt_apply]
  exact (hm.together hp).bind fun r q hq hr => .ended hq.valid.refl hr

/-- What is known of the value is still known when something is let go. -/
theorem keeping (x : Holding) (hm : A.Indifferent k P m)
    (hP : ∀ p q a, A.Later k p → A.Later p q → P p a → P q a) :
    A.Indifferent k P (Eval.holding x m) := by
  refine ⟨fun {p} hp => ?_⟩
  have hheld : A.Later p { p with left := p.left.hold x } :=
    hp.valid.thins (thins_of_fabric rfl fun _ => id)
  rw [Eval.holding_apply, Eval.holding_apply]
  refine ((hm.together (hp.trans hheld)).later hheld).bind fun r q hq hr => ?_
  have hgone : A.Later q { q with left := q.left.letGo } :=
    hq.valid.thins (thins_letGoOf q.left q.left.current)
  have hright : (A.right q).letGo = q.left.letGo.onScopes (A.swap q.vars q.packages) :=
    letGoOf_swap q.left q.left.current
  rw [hright]
  refine .ended hgone ?_
  cases r with
  | ok a => exact hP _ _ a (hp.trans hq) hgone hr
  | error e => trivial

theorem holding (x : Holding) {P : α → Prop} (hm : A.Indifferent k (fun _ => P) m) :
    A.Indifferent k (fun _ => P) (Eval.holding x m) := hm.keeping x fun _ _ _ _ _ ha => ha

end Indifferent

theorem Neutral.together {m : Eval α} [hm : A.Neutral m] (hp : A.Valid p) :
    A.Together (Upon fun _ _ => True) p (m p.left) (m (A.right p)) :=
  (hm.indifferent p).together hp.refl

/-- After something neutral. -/
theorem Indifferent.after {m : Eval α} {f : α → Eval β} [hm : A.Neutral m]
    (hf : ∀ a p, A.Later k p → A.Indifferent p Q (f a)) : A.Indifferent k Q (m >>= f) :=
  (hm.indifferent k).bind fun a p hp _ => hf a p hp

/-! ## Neutral computations -/

instance (a : α) : A.Neutral (Pure.pure a) := ⟨fun _ => .pure fun _ _ => trivial⟩

instance (e : EvalError) : A.Neutral (MonadExcept.throw e : Eval α) := ⟨fun _ => .throw e⟩

instance {m : Eval α} {f : α → Eval β} [hm : A.Neutral m] [hf : ∀ a, A.Neutral (f a)] :
    A.Neutral (m >>= f) :=
  ⟨fun _ => .after fun a p _ => (hf a).indifferent p⟩

instance (pos : Position) {m : Eval α} [hm : A.Neutral m] : A.Neutral (Eval.located pos m) :=
  ⟨fun k => (hm.indifferent k).located pos⟩

instance (x : Holding) {m : Eval α} [hm : A.Neutral m] : A.Neutral (Eval.holding x m) :=
  ⟨fun k => (hm.indifferent k).holding x⟩

instance (v : Value) {m : Eval α} [A.Neutral m] : A.Neutral (Eval.holdingValue v m) :=
  (inferInstance : A.Neutral (Eval.holding _ m))

instance {m : Eval α} [hm : A.Neutral m] : A.Neutral (Eval.attempt m) :=
  ⟨fun k => (hm.indifferent k).attempt.any⟩

instance (c : Prop) [Decidable c] {m n : Eval α} [hm : A.Neutral m] [hn : A.Neutral n] :
    A.Neutral (if c then m else n) := by
  split
  · exact hm
  · exact hn

instance (message : Option String) : A.Neutral (Eval.breakDown message : Eval α) :=
  ⟨fun _ => ⟨fun hp => .stop hp.valid.refl⟩⟩

instance : A.Neutral (Eval.outOfFuel : Eval α) := ⟨fun _ => ⟨fun hp => .stop hp.valid.refl⟩⟩

instance (f : Fault) : A.Neutral (Eval.fail f : Eval α) :=
  (inferInstance : A.Neutral (MonadExcept.throw _))

instance (message : String) : A.Neutral (Eval.failWith message : Eval α) :=
  (inferInstance : A.Neutral (Eval.fail _))

instance (e : Failure) : A.Neutral (Eval.ofFailure e : Eval α) := by
  cases e <;> unfold Eval.ofFailure <;> infer_instance

instance (o : Outcome α) : A.Neutral (Eval.ofOutcome o) := by
  cases o with
  | ok a => exact (inferInstance : A.Neutral (Pure.pure a))
  | error e => exact (inferInstance : A.Neutral (Eval.ofFailure e))

instance (r : Except EvalError α) : A.Neutral (MonadExcept.ofExcept r : Eval α) := by
  cases r with
  | ok a => exact (inferInstance : A.Neutral (Pure.pure a))
  | error e => exact (inferInstance : A.Neutral (MonadExcept.throw e))

/-! ## Looking and changing -/

/-- A change that is the same in both versions, and takes nothing of what is known. -/
theorem neutral_update {f : EngineState → α × EngineState}
    (hright : ∀ s vars packages, f (s.onScopes (A.swap vars packages)) =
      ((f s).1, (f s).2.onScopes (A.swap vars packages)))
    (hthins : ∀ s, Thins s (f s).2) : A.Neutral (Eval.update f) := by
  refine ⟨fun k => ⟨fun {p} hp => ?_⟩⟩
  rw [Eval.update_apply, Eval.update_apply, right, hright]
  exact .ended (hp.valid.thins (hthins p.left)) trivial

theorem neutral_modify {f : EngineState → EngineState}
    (hright : ∀ s vars packages, f (s.onScopes (A.swap vars packages)) =
      (f s).onScopes (A.swap vars packages))
    (hthins : ∀ s, Thins s (f s)) : A.Neutral (Eval.modify f) := by
  refine ⟨fun k => ⟨fun {p} hp => ?_⟩⟩
  rw [Eval.modify_apply, Eval.modify_apply, right, hright]
  exact .ended (hp.valid.thins (hthins p.left)) trivial

/-- A look at something other than scopes. -/
theorem neutral_read {f : EngineState → α} (hf : ∀ g s, f (EngineState.onScopes g s) = f s) :
    A.Neutral (Eval.read f) := by
  refine ⟨fun k => ⟨fun {p} hp => ?_⟩⟩
  rw [Eval.read_apply, Eval.read_apply, right, hf]
  exact .ended hp.valid.refl trivial

theorem thins_elsewhere {s s' : EngineState} (hheap : s'.heap = s.heap) (hpinned : s'.pinned = s.pinned)
    (hreports : s'.reports = s.reports) : Thins s s' := by
  refine thins_of_fabric (by rw [hheap]) fun o ho => ?_
  rw [EngineState.Secures, hpinned, hreports]
  exact ho

theorem thins_heap (s : EngineState) {h : Heap} (hfabric : h.fabric = s.heap.fabric) :
    Thins s { s with heap := h } := thins_of_fabric hfabric fun _ => id

instance (f : Heap → α) [hf : Heap.LooksAtValues f] : A.Neutral (Eval.readHeap f) :=
  neutral_read fun g s => hf.onScopes_eq g s.heap

instance (f : Heap → Outcome α) [Heap.LooksAtValues f] : A.Neutral (Eval.tryHeap f) :=
  (inferInstance : A.Neutral (Eval.readHeap f >>= fun o => Eval.ofOutcome o))

instance (f : Heap → Outcome (α × Heap)) [hf : Heap.WorksOnValues f] [∀ h, (f h).KeepsFabric h] :
    A.Neutral (Eval.onHeap f) := by
  refine ⟨fun k => ⟨fun {p} hp => ?_⟩⟩
  have hright := hf.onScopes_eq (A.swap p.vars p.packages) p.left.heap
  cases hr : f p.left.heap with
  | error e =>
    rw [hr] at hright
    rw [Eval.onHeap_error hr, Eval.onHeap_error (s := A.right p) hright]
    exact Neutral.together hp.valid
  | ok r =>
    rw [hr] at hright
    rw [Eval.onHeap_ok hr, Eval.onHeap_ok (s := A.right p) hright]
    exact .ended (hp.valid.thins (thins_heap _ (Heap.fabric_eq hr))) trivial

/-- A new thing on the heap that is no function of a script. -/
theorem neutral_alloc {f : Heap → α × Heap}
    (hright : ∀ g h, f (Heap.onScopes g h) = Heap.besides g (f h))
    (hfabric : ∀ h, (f h).2.fabric = h.fabric) : A.Neutral (Eval.alloc f) := by
  refine ⟨fun k => ⟨fun {p} hp => ?_⟩⟩
  have hr : f (A.right p).heap = Heap.besides (A.swap p.vars p.packages) (f p.left.heap) :=
    hright _ _
  rw [Eval.alloc_apply, Eval.alloc_apply, hr]
  exact .ended (hp.valid.thins (thins_heap _ (hfabric _))) trivial

theorem neutral_changeHeap {f : Heap → Outcome Heap}
    (hright : ∀ g h, f (Heap.onScopes g h) = (f h).map (Heap.onScopes g))
    (hfabric : ∀ {h h'}, f h = .ok h' → h'.fabric = h.fabric) : A.Neutral (Eval.changeHeap f) := by
  refine ⟨fun k => ⟨fun {p} hp => ?_⟩⟩
  have hright := hright (A.swap p.vars p.packages) p.left.heap
  cases hr : f p.left.heap with
  | error e =>
    rw [hr] at hright
    rw [Eval.changeHeap_error hr, Eval.changeHeap_error (s := A.right p) hright]
    exact Neutral.together hp.valid
  | ok h =>
    rw [hr] at hright
    rw [Eval.changeHeap_ok hr, Eval.changeHeap_ok (s := A.right p) hright]
    exact .ended (hp.valid.thins (thins_heap _ (hfabric hr))) trivial

instance (f : Heap → Outcome (Write × Heap)) [Heap.WorksOnValues f] [∀ h, (f h).KeepsFabric h] :
    A.Neutral (Eval.store f) := by
  have hperform (w : Write) : A.Neutral (Eval.modify (·.modifyHeap (·.perform w))) :=
    neutral_modify
      (fun s vars packages => congrArg (fun h => { s with heap := h }) (Heap.perform_onScopes _ s.heap w))
      fun s => thins_heap s (Heap.fabric_perform _ w)
  exact (inferInstance : A.Neutral (Eval.onHeap f >>= fun w => Eval.modify (·.modifyHeap (·.perform w))))

/-! ## What evaluation does by itself -/

instance (signal : SignalId) : A.Neutral (Eval.read (·.isCancelled signal)) :=
  neutral_read fun _ _ => rfl

instance (run : RunId) : A.Neutral (Eval.signalOf run) := neutral_read fun _ _ => rfl

instance (frame : FrameId) : A.Neutral (Eval.deferred frame) := neutral_read fun _ _ => rfl

instance (signal : SignalId) : A.Neutral (Eval.checkSignal signal) := by
  unfold Eval.checkSignal
  infer_instance

instance (on : Wait) : A.Neutral (Eval.checkWait on) := by
  unfold Eval.checkWait
  split <;> infer_instance

instance (on : Wait) : A.Neutral (Eval.await on) := by
  refine ⟨fun k => ⟨fun {p} hp => ?_⟩⟩
  rw [Eval.await_apply, Eval.await_apply]
  have hcancelled : (A.right p).isCancelled = p.left.isCancelled := rfl
  rw [hcancelled]
  split
  · exact .ended hp.valid.refl trivial
  · exact .wait hp.valid.refl fun q hq => Neutral.together hq.valid

instance (ms : Nat) : A.Neutral (ExceptT.lift (Task.sleep ms) : Eval Unit) := by
  refine ⟨fun k => ⟨fun {p} hp => ?_⟩⟩
  rw [Eval.sleep_apply, Eval.sleep_apply]
  split
  · exact .ended hp.valid.refl trivial
  · exact .wait hp.valid.refl fun q hq => .done hq.valid.refl trivial

/-! ## The limits of a run -/

instance (run : RunId) (n : Nat) : A.Neutral (Eval.countCycles run n) := by
  have hspend : A.Neutral (Eval.modify (·.modifyRun run fun r => { r with cycles := r.cycles + n })) :=
    neutral_modify (fun _ _ _ => rfl) fun _ => thins_elsewhere rfl rfl rfl
  have hread : A.Neutral (Eval.read fun s => (s.run run).cycles) := neutral_read fun _ _ => rfl
  unfold Eval.countCycles
  infer_instance

instance (run : RunId) : A.Neutral (Eval.tickLimiter run) :=
  neutral_update (fun _ _ _ => rfl) fun _ => thins_elsewhere rfl rfl rfl

instance (run : RunId) : A.Neutral (Eval.tick run) := by
  have hpause (pause : Option Nat) : A.Neutral (match pause with
      | some due => do Eval.await (.pause due (← Eval.signalOf run))
      | none => Pure.pure () : Eval Unit) := by
    cases pause <;> infer_instance
  show A.Neutral (Eval.tickLimiter run >>= _)
  infer_instance

instance (run : RunId) : A.Neutral (Eval.step run) := by
  unfold Eval.step
  infer_instance

instance (run : RunId) : A.Neutral (Eval.checkRun run) := by
  unfold Eval.checkRun
  infer_instance

instance (run : RunId) : A.Neutral (Eval.checkpoint run) := by
  have hpass : A.Neutral (Eval.modify (·.pass run)) := by
    refine neutral_modify (fun s vars packages => ?_) fun s => ?_
    · unfold EngineState.pass
      rw [show (s.onScopes (A.swap vars packages)).runCancelled run = s.runCancelled run from rfl]
      split <;> rfl
    · rw [EngineState.pass_eq]
      exact thins_elsewhere rfl rfl rfl
  unfold Eval.checkpoint
  infer_instance

instance (r : Refusal) : A.Neutral (Eval.modify (·.refuse r)) :=
  neutral_modify (fun _ _ _ => rfl) fun _ => thins_elsewhere rfl rfl rfl

instance (run : RunId) (length : Nat) : A.Neutral (Eval.checkLength run length) := by
  have hread : A.Neutral (Eval.read fun s => (s.run run).maxElements) := neutral_read fun _ _ => rfl
  unfold Eval.checkLength
  infer_instance

instance (run : RunId) : A.Neutral (Eval.pulse run) := by
  unfold Eval.pulse
  infer_instance

instance (run : RunId) (text : String) (stretches count : Nat) (written : String) :
    A.Neutral (Eval.repeatStretches run text stretches count written) := by
  induction stretches generalizing count written with
  | zero => unfold Eval.repeatStretches; infer_instance
  | succ stretches ih => unfold Eval.repeatStretches; infer_instance

instance (run : RunId) (text : String) (count : Int64) :
    A.Neutral (Eval.repeatText run text count) := by
  unfold Eval.repeatText
  infer_instance

instance (run : RunId) (op : BinaryOp) (left right : Value) :
    A.Neutral (Eval.combine run op left right) := by
  unfold Eval.combine
  split <;> infer_instance

/-! ## New values -/

instance (items : Array Value) : A.Neutral (Eval.alloc (·.addPlainList items)) :=
  neutral_alloc (fun _ _ => rfl) fun _ => rfl

instance (keyType valueType : Option HostType) :
    A.Neutral (Eval.alloc (·.addMap ⟨[], keyType, valueType⟩)) :=
  neutral_alloc (fun _ _ => rfl) fun _ => rfl

instance (type : HostType) (items : List Value) : A.Neutral (Eval.typedList type items) := by
  unfold Eval.typedList
  infer_instance

/-- Items are built in stretches. -/
theorem neutral_build {f : Nat → Heap → Outcome Value × Heap} (run : RunId) (length : Nat)
    {item : Nat → EngineState → Outcome Value × EngineState}
    (hitem : ∀ i s, item i s = ((f i s.heap).1, { s with heap := (f i s.heap).2 }))
    (hright : ∀ i g h, f i (Heap.onScopes g h) = Heap.besides g (f i h))
    (hfabric : ∀ i h, (f i h).2.fabric = h.fabric) : A.Neutral (Eval.build run length item) := by
  have hfill (count index : Nat) (items : Array Value) :
      A.Neutral (Eval.update (Eval.fill item count index items)) := by
    rw [Eval.update_fill hitem]
    refine neutral_alloc (fun g h => ?_) fun h => ?_
    · induction count generalizing index items h with
      | zero => rfl
      | succ count ih =>
        simp only [Eval.fillHeap, hright]
        cases hf : f index h with
        | mk o h' =>
          cases o with
          | ok v => exact ih _ _ _
          | error e => rfl
    · induction count generalizing index items h with
      | zero => rfl
      | succ count ih =>
        have hsame := hfabric index h
        simp only [Eval.fillHeap]
        cases hf : f index h with
        | mk o h' =>
          rw [hf] at hsame
          cases o with
          | ok v => exact (ih _ _ _).trans hsame
          | error e => exact hsame
  have hstretches (stretches size : Nat) (built : List (Array Value)) :
      A.Neutral (Eval.buildStretches run length item stretches size built) := by
    induction stretches generalizing size built with
    | zero => unfold Eval.buildStretches; infer_instance
    | succ stretches ih => unfold Eval.buildStretches; infer_instance
  unfold Eval.build
  infer_instance

instance (run : RunId) (type : HostType) (args : List Value) :
    A.Neutral (Eval.make run type args) := by
  unfold Eval.make
  split
  · rename_i elem
    have hbuild (length : Nat) : A.Neutral (Eval.build run length (Eval.zeroItem elem)) := by
      refine neutral_build (f := fun _ h =>
        if elem.hasZero then (.ok (h.zeroValue elem).1, (h.zeroValue elem).2)
        else (.error .overflow, h)) run length (fun i s => ?_) (fun i g h => ?_) fun i h => ?_
      · unfold Eval.zeroItem
        split <;> rfl
      · simp only [Heap.zeroValue_onScopes]
        split <;> rfl
      · split
        · rename_i hzero
          have hz : h.zero elem = .ok (h.zeroValue elem) := if_pos hzero
          exact (Heap.grows_zero hz).fabric
        · rfl
    infer_instance
  · infer_instance

instance (run : RunId) (bounds : RangeBounds) : A.Neutral (Builtin.buildRange run bounds) := by
  have hbuild := neutral_build (A := A) run bounds.count
    (f := fun i h => (.ok (.int (Int64.ofInt (bounds.item i))), h)) (fun _ _ => rfl)
    (fun _ _ _ => rfl) fun _ _ => rfl
  unfold Builtin.buildRange
  infer_instance

/-! ## Channels -/

instance (n : Notice) : A.Neutral (Eval.modify (·.notify n)) :=
  neutral_modify (fun _ _ _ => rfl) fun _ => thins_elsewhere rfl rfl rfl

instance (chan : ChanId) (v : Value) : A.Neutral (Eval.offer chan v) := by
  unfold Eval.offer
  infer_instance

instance (chan : ChanId) (v : Value) : A.Neutral (Eval.trySend chan v) := by
  unfold Eval.trySend
  infer_instance

instance (chan : ChanId) : A.Neutral (Eval.tryRecv chan) := by
  have hnotify (received : Option (Value × Bool)) : A.Neutral (do
      if let some (_, true) := received then Eval.modify (·.notify (.channel chan))
      return received : Eval (Option (Value × Bool))) := by
    split <;> infer_instance
  show A.Neutral (Eval.onHeap (·.tryRecv chan) >>= _)
  infer_instance

instance (chan : ChanId) : A.Neutral (Eval.close chan) := by
  have hclose : A.Neutral (Eval.changeHeap (·.closeChan chan)) :=
    neutral_changeHeap (fun g h => Heap.closeChan_onScopes g h chan) Heap.fabric_closeChan
  unfold Eval.close
  infer_instance

instance (chan : ChanId) (v : Value) (signal : SignalId) (rounds : Nat) :
    A.Neutral (Eval.leave chan v signal rounds) := by
  induction rounds with
  | zero => exact (inferInstance : A.Neutral Eval.outOfFuel)
  | succ rounds ih =>
    have hnext (ticket : Option Nat) : A.Neutral (match ticket with
        | some ticket => return ticket
        | none => do
          Eval.holdingValue v (Eval.await (.room chan signal))
          Eval.leave chan v signal rounds : Eval Nat) := by
      cases ticket <;> infer_instance
    show A.Neutral (Eval.offer chan v >>= _)
    infer_instance

instance (chan : ChanId) (ticket : Nat) (signal : SignalId) (rounds : Nat) :
    A.Neutral (Eval.awaitPickup chan ticket signal rounds) := by
  have hsettled : A.Neutral (Eval.readHeap fun h => (h.chan chan).isSettled ticket) :=
    neutral_read fun _ _ => rfl
  induction rounds with
  | zero => exact (inferInstance : A.Neutral Eval.outOfFuel)
  | succ rounds ih => unfold Eval.awaitPickup; infer_instance

instance (rounds : Nat) (chan : ChanId) (v : Value) (signal : SignalId) :
    A.Neutral (Eval.send rounds chan v signal) := by
  have hunbuffered : A.Neutral (Eval.readHeap fun h => (h.chan chan).capacity == 0) :=
    neutral_read fun _ _ => rfl
  unfold Eval.send
  infer_instance

instance (chan : ChanId) (signal : SignalId) (rounds : Nat) :
    A.Neutral (Eval.awaitValue chan signal rounds) := by
  induction rounds with
  | zero => exact (inferInstance : A.Neutral Eval.outOfFuel)
  | succ rounds ih =>
    have hnext (received : Option (Value × Bool)) : A.Neutral (match received with
        | some received => return received
        | none => do
          Eval.await (.recv chan signal)
          Eval.awaitValue chan signal rounds : Eval (Value × Bool)) := by
      cases received <;> infer_instance
    show A.Neutral (Eval.tryRecv chan >>= _)
    infer_instance

instance (chan : ChanId) : A.Neutral (Eval.modify (·.register chan)) :=
  neutral_modify (fun _ _ _ => rfl) fun _ => thins_of_fabric rfl fun _ => id

instance (chan : ChanId) {m : Eval α} [A.Neutral m] : A.Neutral (Eval.receiving chan m) := by
  unfold Eval.receiving
  infer_instance

instance (rounds : Nat) (chan : ChanId) (signal : SignalId) :
    A.Neutral (Eval.recv rounds chan signal) := by
  have hnext (received : Option (Value × Bool)) : A.Neutral (match received with
      | some received => return received
      | none => Eval.receiving chan (Eval.awaitValue chan signal rounds) : Eval (Value × Bool)) := by
    cases received <;> infer_instance
  show A.Neutral (Eval.holding _ (Eval.tryRecv chan >>= _))
  infer_instance

/-! ## Deferred calls and tasks -/

instance (frame : FrameId) (call : DeferredCall) : A.Neutral (Eval.defer frame call) :=
  neutral_modify (fun _ _ _ => rfl) fun _ => thins_elsewhere rfl rfl rfl

instance (frame : FrameId) : A.Neutral (Eval.dropDeferred frame) :=
  neutral_modify (fun _ _ _ => rfl) fun _ => thins_elsewhere rfl rfl rfl

instance (job : Job) : A.Neutral (Eval.update (·.start job)) :=
  neutral_update (fun _ _ _ => rfl) fun _ => thins_elsewhere rfl rfl rfl

instance (signal : SignalId) : A.Neutral (Eval.modify (·.cancel signal)) :=
  neutral_modify (fun _ _ _ => rfl) fun _ => thins_elsewhere rfl rfl rfl

instance (scope : ScopeId) : A.Neutral (Eval.modify (·.capture scope)) :=
  neutral_modify (fun s _ _ => capture_swap s scope) fun s => thins_capture s scope

/-- A frame for deferred calls. -/
theorem Indifferent.inFrame {m : FrameId → Eval α} {P : α → Prop}
    (hm : ∀ frame p, A.Later k p → A.Indifferent p (fun _ => P) (m frame)) :
    A.Indifferent k (fun _ => P) (Eval.inFrame m) := by
  have hnew : A.Neutral (Eval.update fun s =>
      (s.frames.next, { s with frames := s.frames.push [] })) :=
    neutral_update (fun _ _ _ => rfl) fun _ => thins_elsewhere rfl rfl rfl
  exact .after fun frame p hp => (hm frame p hp).holding _

/-! ## The core library -/

instance (run : RunId) (args : List Value) (f : Builtin) : A.Neutral (f.act run args) := by
  unfold Builtin.act
  cases f with
  | close =>
    show A.Neutral (match args.headD Value.nil with
      | .chan id => do Eval.close id; return []
      | v => Eval.tryHeap (·.wrongArgument "close" v))
    split <;> infer_instance
  | delete =>
    have hdelete (target key : Value) : A.Neutral (Eval.changeHeap (·.delete target key)) :=
      neutral_changeHeap (fun g h => Heap.delete_onScopes g h target key) Heap.fabric_delete
    infer_instance
  | append =>
    have happend (target : Value) (args : List Value) :
        Heap.WorksOnValues fun h => h.append target (h.packed args) :=
      ⟨fun g h => (inferInstance : Heap.WorksOnValues fun h' =>
        h'.append target (h.packed args)).onScopes_eq g h⟩
    infer_instance
  | _ => infer_instance

end AllowList
end ScriptEngine
