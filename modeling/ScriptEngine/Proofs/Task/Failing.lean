import ScriptEngine.Evaluator.Level
import ScriptEngine.Proofs.Task.Endings

/-! # What evaluation fails with

Errors come into being without a place, wherever something goes wrong, and are given the place of a node on
their way out of it.  Nothing else is ever done to them: they are passed on, or put aside.  So a kind of
errors to which all errors without a place belong, and which is kept when an error is located at the nodes in
question, is all that evaluation can fail with (`Eval.Fails`).

That a part of evaluation fails with such errors only is an instance of a class, and most instances are found
by going through the definitions.  What looks at errors (`try`, and the deferred calls of a body) hands
errors on as values; there the values have to be of the kind too (`Eval.HandsOn`).
-/
namespace ScriptEngine

variable {α β : Type}

theorem Step.Ends.and {P Q : α → Prop} {x : Step α} (hP : x.Ends P) (hQ : x.Ends Q) :
    x.Ends fun a => P a ∧ Q a := by
  induction x with
  | done s a => exact ⟨hP, hQ⟩
  | wait s on resume ih => exact fun s' => ih s' (hP s') (hQ s')
  | stop s why => trivial

/-- If the outcome is an error, it is of the kind. -/
def FailsIn (E : EvalError → Prop) (r : Except EvalError α) : Prop := ∀ e, r = .error e → E e

/-- The kind takes in interrupts. -/
class TakesInterrupts (E : EvalError → Prop) : Prop where
  interrupt : E { fault := .interrupt }

/-- The kind takes in all faults without a place. -/
class TakesFaults (E : EvalError → Prop) : Prop where
  fault : ∀ f, E { fault := f }

/-- Errors stay of the kind if they are located at the place. -/
class KeptAt (E : EvalError → Prop) (p : Position) : Prop where
  locate : ∀ e, E e → E (e.locate p)

instance {E : EvalError → Prop} [hE : TakesFaults E] : TakesInterrupts E := ⟨hE.fault _⟩

namespace Eval

/-- **The computation fails with such errors only**, in whatever states it is begun and resumed. -/
class Fails (E : EvalError → Prop) (m : Eval α) : Prop where
  ends : ∀ s, (m s).Ends (FailsIn E)

/-- The computation fails with such errors only, and what it gives, if it is an error, is one of them. -/
structure HandsOn (E : EvalError → Prop) (m : Eval (Except EvalError α)) : Prop where
  fails : Fails E m
  yields : Yields (FailsIn E) m

variable {E : EvalError → Prop}

namespace Fails

/-! ## What never fails -/

/-- What gives a value at once. -/
theorem of_done {m : Eval α} (hm : ∀ s, ∃ t a, m s = .done t (.ok a)) : Fails E m := by
  refine ⟨fun s => ?_⟩
  obtain ⟨t, a, h⟩ := hm s
  rw [h]
  exact nofun

instance (a : α) : Fails E (pure a) := of_done fun s => ⟨s, a, rfl⟩

instance (f : EngineState → α) : Fails E (read f) := of_done fun s => ⟨s, f s, rfl⟩

instance (f : Heap → α) : Fails E (readHeap f) := of_done fun s => ⟨s, f s.heap, rfl⟩

instance (f : EngineState → EngineState) : Fails E (modify f) := of_done fun s => ⟨f s, (), rfl⟩

instance (f : EngineState → α × EngineState) : Fails E (update f) :=
  of_done fun s => ⟨(f s).2, (f s).1, rfl⟩

instance (f : Heap → α × Heap) : Fails E (alloc f) :=
  of_done fun s => ⟨{ s with heap := (f s.heap).2 }, (f s.heap).1, rfl⟩

instance (message : Option String) : Fails E (breakDown message : Eval α) := ⟨fun _ => trivial⟩

instance : Fails E (outOfFuel : Eval α) := ⟨fun _ => trivial⟩

instance (on : Wait) : Fails E (ExceptT.lift (Task.wait on) : Eval Unit) := ⟨fun _ _ => nofun⟩

instance (ms : Nat) : Fails E (ExceptT.lift (Task.sleep ms) : Eval Unit) := by
  refine ⟨fun s => ?_⟩
  show Step.Ends _ (Step.bind (fun a s => .done s (Except.ok a)) (Task.sleepUntil (s.now + ms) s))
  unfold Task.sleepUntil
  split
  · exact nofun
  · exact fun _ => nofun

/-! ## Putting computations together -/

theorem bind_of_yields {P : α → Prop} {m : Eval α} {k : α → Eval β} (hm : Fails E m)
    (hP : Yields P m) (hk : ∀ a, P a → Fails E (k a)) : Fails E (m >>= k) := by
  refine ⟨fun s => ?_⟩
  rw [bind_apply]
  refine ((hm.ends s).and (hP.ends s)).bind fun r t hr => ?_
  cases r with
  | error e =>
    intro e' he'
    cases he'
    exact hr.1 e rfl
  | ok a => exact (hk a (hr.2 a rfl)).ends t

theorem bind {m : Eval α} {k : α → Eval β} (hm : Fails E m) (hk : ∀ a, Fails E (k a)) :
    Fails E (m >>= k) :=
  hm.bind_of_yields (P := fun _ => True) (.of_forall fun _ => trivial) fun a _ => hk a

instance {m : Eval α} {k : α → Eval β} [hm : Fails E m] [hk : ∀ a, Fails E (k a)] : Fails E (m >>= k) :=
  hm.bind hk

instance (c : Prop) [Decidable c] {m n : Eval α} [hm : Fails E m] [hn : Fails E n] :
    Fails E (if c then m else n) := by
  split
  · exact hm
  · exact hn

instance (x : Holding) {m : Eval α} [hm : Fails E m] : Fails E (holding x m) := by
  refine ⟨fun s => ?_⟩
  rw [holding_apply]
  exact (hm.ends _).bind fun r t hr => hr

instance (v : Value) {m : Eval α} [hm : Fails E m] : Fails E (holdingValue v m) :=
  inferInstanceAs (Fails E (holding _ m))

instance (p : Position) [hp : KeptAt E p] {m : Eval α} [hm : Fails E m] : Fails E (located p m) := by
  refine ⟨fun s => ?_⟩
  rw [located_apply]
  refine (hm.ends s).bind fun r t hr e he => ?_
  cases r with
  | ok a => cases he
  | error e' =>
    cases he
    exact hp.locate e' (hr e' rfl)

/-! ## Failing -/

instance [hE : TakesFaults E] (f : Fault) : Fails E (fail f : Eval α) := by
  refine ⟨fun s e he => ?_⟩
  cases he
  exact hE.fault f

instance [TakesFaults E] (message : String) : Fails E (failWith message : Eval α) :=
  inferInstanceAs (Fails E (fail _))

instance [TakesFaults E] (m : Misfit) : Fails E (misfit m : Eval α) := by
  unfold misfit
  infer_instance

instance [TakesFaults E] (e : Failure) : Fails E (ofFailure e : Eval α) := by
  cases e <;> unfold ofFailure <;> infer_instance

instance [TakesFaults E] (o : Outcome α) : Fails E (ofOutcome o) := by
  cases o <;> unfold ofOutcome <;> infer_instance

/-- An outcome that is handed on. -/
theorem ofExcept {r : Except EvalError α} (hr : FailsIn E r) :
    Fails E (MonadExcept.ofExcept r : Eval α) := by
  cases r with
  | ok a => exact inferInstanceAs (Fails E (pure a))
  | error e => exact ⟨fun s e' he' => by cases he'; exact hr e rfl⟩

instance [TakesFaults E] (f : Heap → Outcome α) : Fails E (tryHeap f) := by
  unfold tryHeap
  infer_instance

/-- What is done at once, or fails as an operation on the heap does. -/
theorem of_failure [TakesFaults E] {m : Eval α}
    (hm : ∀ s, (∃ t a, m s = .done t (.ok a)) ∨ ∃ e t, m s = ofFailure e t) : Fails E m := by
  refine ⟨fun s => ?_⟩
  obtain ⟨t, a, h⟩ | ⟨e, t, h⟩ := hm s
  · rw [h]
    exact nofun
  · rw [h]
    exact (inferInstance : Fails E (ofFailure e : Eval α)).ends t

instance [TakesFaults E] (f : Heap → Outcome (α × Heap)) : Fails E (onHeap f) := by
  refine of_failure fun s => ?_
  unfold onHeap
  split
  · exact .inl ⟨_, _, rfl⟩
  · exact .inr ⟨_, _, rfl⟩

instance [TakesFaults E] (f : Heap → Outcome Heap) : Fails E (changeHeap f) := by
  refine of_failure fun s => ?_
  unfold changeHeap
  split
  · exact .inl ⟨_, _, rfl⟩
  · exact .inr ⟨_, _, rfl⟩

instance [TakesFaults E] (name : String) (f : Heap → Outcome Heap) : Fails E (bindName name f) := by
  refine of_failure fun s => ?_
  unfold bindName
  split
  · exact .inl ⟨_, _, rfl⟩
  · exact .inr ⟨_, _, rfl⟩

instance [TakesFaults E] (f : Heap → Outcome (Write × Heap)) : Fails E (store f) := by
  unfold store
  infer_instance

end Fails

/-! ## Outcomes that are handed on -/

namespace HandsOn

theorem pure {r : Except EvalError α} (hr : FailsIn E r) : HandsOn E (Pure.pure r) :=
  ⟨inferInstance, yields_pure hr⟩

theorem attempt {m : Eval α} (hm : Fails E m) : HandsOn E (attempt m) := by
  refine ⟨⟨fun s => ?_⟩, ⟨fun s => ?_⟩⟩
  · rw [attempt_apply]
    exact (hm.ends s).bind fun r t _ => nofun
  · rw [attempt_apply]
    refine (hm.ends s).bind fun r t hr o ho => ?_
    cases ho
    exact hr

theorem holding (x : Holding) {m : Eval (Except EvalError α)} (hm : HandsOn E m) :
    HandsOn E (holding x m) :=
  have := hm.fails
  ⟨inferInstance, hm.yields.holding x⟩

theorem after {m : Eval β} {k : β → Eval (Except EvalError α)} (hm : Fails E m)
    (hk : ∀ b, HandsOn E (k b)) : HandsOn E (m >>= k) :=
  ⟨hm.bind fun b => (hk b).fails, yields_bind fun b => (hk b).yields⟩

/-- The outcome decides how evaluation goes on. -/
theorem thenFails {m : Eval (Except EvalError α)} {k : Except EvalError α → Eval β} (hm : HandsOn E m)
    (hk : ∀ r, FailsIn E r → Fails E (k r)) : Fails E (m >>= k) :=
  hm.fails.bind_of_yields hm.yields hk

theorem bind {m : Eval (Except EvalError α)} {k : Except EvalError α → Eval (Except EvalError β)}
    (hm : HandsOn E m) (hk : ∀ r, FailsIn E r → HandsOn E (k r)) : HandsOn E (m >>= k) :=
  ⟨hm.thenFails fun r hr => (hk r hr).fails, hm.yields.bind fun r hr => (hk r hr).yields⟩

end HandsOn

namespace Fails

/-! ## What a run does

A cycle can only be interrupted. -/

section
variable [hE : TakesInterrupts E]

theorem interrupt : Fails E (fail .interrupt : Eval α) := by
  refine ⟨fun s e he => ?_⟩
  cases he
  exact hE.interrupt

instance (signal : SignalId) : Fails E (checkSignal signal) := by
  refine bind inferInstance fun on => ?_
  split
  · exact interrupt
  · infer_instance

instance (on : Wait) : Fails E (checkWait on) := by
  unfold checkWait
  split <;> infer_instance

instance (on : Wait) : Fails E (await on) := by
  unfold await
  infer_instance

instance (run : RunId) : Fails E (signalOf run) := inferInstanceAs (Fails E (read _))

instance (run : RunId) : Fails E (checkRun run) := by
  unfold checkRun
  infer_instance

instance (run : RunId) (n : Nat) : Fails E (countCycles run n) := by
  unfold countCycles
  infer_instance

instance (run : RunId) : Fails E (tick run) := by
  refine bind (inferInstanceAs (Fails E (update _))) fun pause => ?_
  cases pause <;> infer_instance

instance (run : RunId) : Fails E (step run) := by
  unfold step
  infer_instance

instance (run : RunId) : Fails E (checkpoint run) := by
  unfold checkpoint
  infer_instance

instance (run : RunId) : Fails E (pulse run) := by
  unfold pulse
  infer_instance

end

/-! ## What is put together from it -/

section
variable [TakesFaults E]

instance (v : Value) : Fails E (typeName v) := inferInstanceAs (Fails E (readHeap _))

instance (v : Value) : Fails E (truthy v) := inferInstanceAs (Fails E (readHeap _))

instance (run : RunId) (length : Nat) : Fails E (checkLength run length) := by
  unfold checkLength
  infer_instance

instance (run : RunId) (length : Nat) (item : Nat → EngineState → Outcome Value × EngineState)
    (stretches size : Nat) (built : List (Array Value)) :
    Fails E (buildStretches run length item stretches size built) := by
  induction stretches generalizing size built with
  | zero => exact inferInstanceAs (Fails E (pure built))
  | succ stretches ih =>
    unfold buildStretches
    infer_instance

instance (run : RunId) (length : Nat) (item : Nat → EngineState → Outcome Value × EngineState) :
    Fails E (build run length item) := by
  unfold build
  infer_instance

instance (run : RunId) (text : String) (stretches count : Nat) (written : String) :
    Fails E (repeatStretches run text stretches count written) := by
  induction stretches generalizing count written with
  | zero => exact inferInstanceAs (Fails E (pure written))
  | succ stretches ih =>
    unfold repeatStretches
    infer_instance

instance (run : RunId) (text : String) (count : Int64) : Fails E (repeatText run text count) := by
  unfold repeatText
  infer_instance

instance (run : RunId) (op : BinaryOp) (left right : Value) :
    Fails E (combine run op left right) := by
  unfold combine
  split <;> infer_instance

instance (run : RunId) (type : HostType) (args : List Value) : Fails E (make run type args) := by
  unfold make
  split <;> infer_instance

instance (type : HostType) (items : List Value) : Fails E (typedList type items) :=
  inferInstanceAs (Fails E (onHeap _))

/-! ### Names and scopes -/

instance (type : TypeExpr) (scope : ScopeId) : Fails E (resolve type scope) :=
  inferInstanceAs (Fails E (tryHeap _))

instance (parent : ScopeId) : Fails E (openScope parent) := by
  refine bind inferInstance fun governor => bind inferInstance fun opened => ?_
  cases opened <;> infer_instance

instance (scope : ScopeId) (name : String) : Fails E (lookup scope name) :=
  inferInstanceAs (Fails E (tryHeap _))

instance (scope : ScopeId) (name : String) (v : Value) : Fails E (define scope name v) :=
  inferInstanceAs (Fails E (bindName _ _))

instance (scope : ScopeId) (bindings : List (String × Value)) : Fails E (defineAll scope bindings) := by
  induction bindings with
  | nil => exact inferInstanceAs (Fails E (pure ()))
  | cons binding rest ih =>
    unfold defineAll
    infer_instance

instance (scope : ScopeId) (name : String) (v : Value) : Fails E (assign scope name v) :=
  inferInstanceAs (Fails E (bindName _ _))

instance (scope : ScopeId) (name : String) (package : ScopeId) :
    Fails E (definePackage scope name package) :=
  inferInstanceAs (Fails E (bindName _ _))

instance (definition : FuncDef) (scope : ScopeId) (selfBound : Bool) :
    Fails E (closure definition scope selfBound) := by
  unfold closure
  infer_instance

instance (object : Expr) (scope : ScopeId) : Fails E (packageOf? object scope) := by
  unfold packageOf?
  split <;> infer_instance

instance (p : Place) (scope : ScopeId) : Fails E (readPlace p scope) := by
  cases p <;> unfold readPlace <;> infer_instance

instance (p : Place) (scope : ScopeId) (v : Value) : Fails E (writePlace p scope v) := by
  cases p <;> unfold writePlace <;> infer_instance

instance (p : Place) {m : Eval α} [hm : Fails E m] : Fails E (p.holding m) := by
  unfold Place.holding
  induction p.holdings with
  | nil => exact hm
  | cons x xs ih => exact inferInstanceAs (Fails E (holding x _))

instance (parent : ScopeId) {m : ScopeId → Eval α} [∀ scope, Fails E (m scope)] :
    Fails E (inChild parent m) := by
  unfold inChild
  infer_instance

/-! ### Deferred calls -/

omit [TakesFaults E] in
instance (frame : FrameId) (call : DeferredCall) : Fails E (defer frame call) :=
  inferInstanceAs (Fails E (modify _))

omit [TakesFaults E] in
instance (frame : FrameId) : Fails E (deferred frame) := inferInstanceAs (Fails E (read _))

omit [TakesFaults E] in
instance (frame : FrameId) : Fails E (dropDeferred frame) := inferInstanceAs (Fails E (modify _))

/-! ### Channels -/

instance (chan : ChanId) (v : Value) : Fails E (offer chan v) := by
  unfold offer
  infer_instance

instance (chan : ChanId) (v : Value) : Fails E (trySend chan v) := by
  unfold trySend
  infer_instance

instance (chan : ChanId) : Fails E (tryRecv chan) := by
  refine bind inferInstance fun received => ?_
  split <;> infer_instance

instance (chan : ChanId) : Fails E (close chan) := by
  unfold close
  infer_instance

instance (chan : ChanId) (v : Value) (signal : SignalId) (rounds : Nat) :
    Fails E (leave chan v signal rounds) := by
  induction rounds with
  | zero => exact inferInstanceAs (Fails E outOfFuel)
  | succ rounds ih =>
    refine bind inferInstance fun ticket => ?_
    cases ticket <;> infer_instance

instance (chan : ChanId) (ticket : Nat) (signal : SignalId) (rounds : Nat) :
    Fails E (awaitPickup chan ticket signal rounds) := by
  induction rounds with
  | zero => exact inferInstanceAs (Fails E outOfFuel)
  | succ rounds ih =>
    unfold awaitPickup
    infer_instance

instance (rounds : Nat) (chan : ChanId) (v : Value) (signal : SignalId) :
    Fails E (send rounds chan v signal) := by
  unfold send
  infer_instance

instance (chan : ChanId) (signal : SignalId) (rounds : Nat) :
    Fails E (awaitValue chan signal rounds) := by
  induction rounds with
  | zero => exact inferInstanceAs (Fails E outOfFuel)
  | succ rounds ih =>
    refine bind inferInstance fun received => ?_
    cases received <;> infer_instance

instance (chan : ChanId) {m : Eval α} [Fails E m] : Fails E (receiving chan m) := by
  unfold receiving
  infer_instance

instance (rounds : Nat) (chan : ChanId) (signal : SignalId) : Fails E (recv rounds chan signal) := by
  have hrecv : Fails E (do
      match ← tryRecv chan with
      | some received => return received
      | none => receiving chan (awaitValue chan signal rounds)) := by
    refine bind inferInstance fun received => ?_
    cases received <;> infer_instance
  exact inferInstanceAs (Fails E (holdingValue _ _))

instance (chans : List ChanId) {m : Eval α} [hm : Fails E m] : Fails E (receivingAll chans m) := by
  induction chans with
  | nil => exact hm
  | cons chan rest ih =>
    unfold receivingAll
    infer_instance

instance (ops : List (ChanId × Option Value)) (index : Nat) : Fails E (tryCases ops index) := by
  induction ops generalizing index with
  | nil => exact inferInstanceAs (Fails E (pure none))
  | cons op rest ih =>
    obtain ⟨chan, outgoing⟩ := op
    cases outgoing with
    | some v =>
      unfold tryCases
      infer_instance
    | none =>
      refine bind inferInstance fun received => ?_
      cases received <;> infer_instance

instance (ops : List (ChanId × Option Value)) (canSkip : Bool) (signal : SignalId) (rounds : Nat) :
    Fails E (awaitCase ops canSkip signal rounds) := by
  induction rounds with
  | zero => exact inferInstanceAs (Fails E outOfFuel)
  | succ rounds ih =>
    refine bind inferInstance fun _ => bind inferInstance fun chosen => ?_
    cases chosen <;> infer_instance

/-! ### The core library -/

instance (run : RunId) (bounds : RangeBounds) : Fails E (Builtin.buildRange run bounds) := by
  unfold Builtin.buildRange
  infer_instance

instance (run : RunId) (args : List Value) (f : Builtin) : Fails E (f.act run args) := by
  unfold Builtin.act
  cases f with
  | close =>
    show Fails E (match args.headD Value.nil with
      | .chan id => do close id; return []
      | v => tryHeap (·.wrongArgument "close" v))
    split <;> infer_instance
  | _ => infer_instance

end

end Fails
end Eval
end ScriptEngine
