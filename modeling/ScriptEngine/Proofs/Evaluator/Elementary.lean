import ScriptEngine.Evaluator.Level

/-! # What evaluation does by itself

Evaluating a node is asking for the values of its parts, and doing something with them.  What it does
besides asking is always put together from a few **elementary** computations: looking at the state,
failing, waiting, changing one thing in the state at one go.  `Elementary` is the complete list, so a
law about all that evaluation can do to the state is a law about the members of this list.
`Ingredient` is a finer list, of use to laws that are about a part of the state only.

Few members are not single changes: above all a send, whose value is converted long before it may be
accepted, and the building of a slice, whose items are there long before the slice is.  The laws
about the list have to say what becomes of a value meanwhile.
-/
namespace ScriptEngine

/-- What evaluation does without asking for anything. Unless `parking`, it waits for a channel only as
a part of an operation that has looked at the channel before. -/
class inductive Ingredient (parking : Bool) : {α : Type} → Eval α → Prop where
  | pure {α : Type} (a : α) : Ingredient parking (Pure.pure a : Eval α)
  | bind {α β : Type} {m : Eval α} {k : α → Eval β} (hm : Ingredient parking m)
      (hk : ∀ a, Ingredient parking (k a)) : Ingredient parking (m >>= k)
  | holding {α : Type} (x : Holding) {m : Eval α} (hm : Ingredient parking m) :
      Ingredient parking (Eval.holding x m)
  | located {α : Type} (p : Position) {m : Eval α} (hm : Ingredient parking m) :
      Ingredient parking (Eval.located p m)
  -- looking, failing, waiting
  | read {α : Type} (f : EngineState → α) : Ingredient parking (Eval.read f)
  | ofOutcome {α : Type} (o : Outcome α) : Ingredient parking (Eval.ofOutcome o)
  | throw {α : Type} (e : EvalError) : Ingredient parking (MonadExcept.throw e : Eval α)
  | breakDown {α : Type} (message : Option String) :
      Ingredient parking (Eval.breakDown message : Eval α)
  | outOfFuel {α : Type} : Ingredient parking (Eval.outOfFuel : Eval α)
  | await (on : Wait) (hp : parking = true ∨ on.channels = []) :
      Ingredient parking (Eval.await on)
  | sleep (ms : Nat) : Ingredient parking (ExceptT.lift (Task.sleep ms) : Eval Unit)
  -- the limits of a run
  | spend (run : RunId) (n : Nat) : Ingredient parking
      (Eval.modify (·.modifyRun run fun r => { r with cycles := r.cycles + n }))
  | tickLimiter (run : RunId) : Ingredient parking (Eval.tickLimiter run)
  | cancel (signal : SignalId) : Ingredient parking (Eval.modify (·.cancel signal))
  | refuse (r : Refusal) : Ingredient parking (Eval.modify (·.refuse r))
  | pass (run : RunId) : Ingredient parking (Eval.modify (·.pass run))
  | complain (m : Misfit) : Ingredient parking (Eval.modify (·.complain m))
  -- names
  | addChild (parent : ScopeId) :
      Ingredient parking (Eval.update (·.addChild parent))
  | define (scope : ScopeId) (name : String) (v : Value) :
      Ingredient parking (Eval.define scope name v)
  | assign (scope : ScopeId) (name : String) (v : Value) :
      Ingredient parking (Eval.assign scope name v)
  | definePackage (scope : ScopeId) (name : String) (package : ScopeId) :
      Ingredient parking (Eval.definePackage scope name package)
  | addClosure (definition : FuncDef) (scope : ScopeId) (selfBound : Bool) :
      Ingredient parking (Eval.alloc (·.addFunc (.script definition scope selfBound)))
  -- scopes, deferred calls and tasks
  | capture (scope : ScopeId) : Ingredient parking (Eval.modify (·.capture scope))
  | newFrame : Ingredient parking
      (Eval.update fun s => (s.frames.next, { s with frames := s.frames.push [] }))
  | defer (frame : FrameId) (call : DeferredCall) :
      Ingredient parking (Eval.defer frame call)
  | dropDeferred (frame : FrameId) : Ingredient parking (Eval.dropDeferred frame)
  | start (job : Job) : Ingredient parking (Eval.update (·.start job))
  -- new objects
  | addPlainList (items : Array Value) :
      Ingredient parking (Eval.alloc (·.addPlainList items))
  | addMap (keyType valueType : Option HostType) :
      Ingredient parking (Eval.alloc (·.addMap ⟨[], keyType, valueType⟩))
  | typedList (type : HostType) (items : List Value) :
      Ingredient parking (Eval.typedList type items)
  | zero (type : HostType) : Ingredient parking (Eval.onHeap (·.zero type))
  | make (run : RunId) (type : HostType) (args : List Value) :
      Ingredient parking (Eval.make run type args)
  | buildRange (run : RunId) (bounds : RangeBounds) :
      Ingredient parking (Builtin.buildRange run bounds)
  | binary (op : BinaryOp) (left right : Value) :
      Ingredient parking (Eval.onHeap (·.binary op left right))
  | slice (target : Value) (start stop : Option Value) :
      Ingredient parking (Eval.onHeap (·.slice target start stop))
  | append (target : Value) (args : List Value) :
      Ingredient parking (Eval.onHeap fun h => h.append target (h.packed args))
  | hostArguments (f : HostFunction) (fixed : List Value) (rest : Option (List Value)) :
      Ingredient parking (Eval.onHeap (·.hostArguments f fixed rest))
  | hostResult (f : HostFunction) (results : List Value) :
      Ingredient parking (Eval.onHeap (·.hostResult f results))
  -- writes
  | storeEntry (map : MapId) (key v : Value) :
      Ingredient parking (Eval.store (·.prepareEntry map key v))
  | storeIndex (container index v : Value) :
      Ingredient parking (Eval.store (·.prepareIndex container index v))
  | storeMember (container : Value) (name : String) (v : Value) :
      Ingredient parking (Eval.store (·.prepareMember container name v))
  | delete (target key : Value) : Ingredient parking (Eval.changeHeap (·.delete target key))
  -- channels
  | trySend (chan : ChanId) (v : Value) : Ingredient parking (Eval.trySend chan v)
  | tryRecv (chan : ChanId) : Ingredient parking (Eval.tryRecv chan)
  | register (chan : ChanId) : Ingredient parking (Eval.modify (·.register chan))
  | close (chan : ChanId) : Ingredient parking (Eval.close chan)
  | send (rounds : Nat) (chan : ChanId) (v : Value) (signal : SignalId) :
      Ingredient parking (Eval.send rounds chan v signal)
  | recv (hp : parking = false) (rounds : Nat) (chan : ChanId) (signal : SignalId) :
      Ingredient parking (Eval.recv rounds chan signal)
  | awaitCase (hp : parking = false) (ops : List (ChanId × Option Value)) (canSkip : Bool)
      (signal : SignalId) (rounds : Nat) :
      Ingredient parking (Eval.awaitCase ops canSkip signal rounds)

/-- What evaluation does without asking for anything, its waits taken by themselves. -/
abbrev Elementary {α : Type} (m : Eval α) : Prop := Ingredient true m

namespace Ingredient
variable {α β : Type} {parking : Bool}

attribute [instance] pure read ofOutcome throw breakDown outOfFuel sleep spend tickLimiter
  cancel refuse pass complain addChild define assign definePackage addClosure capture newFrame defer dropDeferred start
  addPlainList addMap typedList zero make buildRange binary slice append hostArguments hostResult
  storeEntry storeIndex storeMember delete trySend tryRecv register close send

instance (on : Wait) : Ingredient true (Eval.await on) := await on (.inl rfl)

instance : Ingredient parking (Eval.await .turn) := await .turn (.inr rfl)

instance (due : Nat) (signal : SignalId) :
    Ingredient parking (Eval.await (.pause due signal)) := await _ (.inr rfl)

instance {m : Eval α} {k : α → Eval β} [hm : Ingredient parking m]
    [hk : ∀ a, Ingredient parking (k a)] :
    Ingredient parking (m >>= k) := bind hm hk

instance (x : Holding) {m : Eval α} [hm : Ingredient parking m] :
    Ingredient parking (Eval.holding x m) :=
  holding x hm

instance (p : Position) {m : Eval α} [hm : Ingredient parking m] :
    Ingredient parking (Eval.located p m) :=
  located p hm

instance (c : Prop) [Decidable c] {m n : Eval α} [hm : Ingredient parking m]
    [hn : Ingredient parking n] :
    Ingredient parking (if c then m else n) := by
  split
  · exact hm
  · exact hn

instance (v : Value) {m : Eval α} [Ingredient parking m] :
    Ingredient parking (Eval.holdingValue v m) :=
  inferInstanceAs (Ingredient parking (Eval.holding _ m))

instance (f : Heap → α) : Ingredient parking (Eval.readHeap f) := read _

instance (f : Heap → Outcome α) : Ingredient parking (Eval.tryHeap f) :=
  inferInstanceAs (Ingredient parking (Eval.readHeap f >>= fun o => Eval.ofOutcome o))

instance (f : Fault) : Ingredient parking (Eval.fail f : Eval α) := throw _

instance (message : String) : Ingredient parking (Eval.failWith message : Eval α) := throw _

instance (m : Misfit) : Ingredient parking (Eval.misfit m : Eval α) := by
  unfold Eval.misfit; infer_instance

/-! ## What is put together from it -/

instance (v : Value) :
    Ingredient parking (Eval.typeName v) := by unfold Eval.typeName; infer_instance

instance (v : Value) :
    Ingredient parking (Eval.truthy v) := by unfold Eval.truthy; infer_instance

instance (run : RunId) : Ingredient parking (Eval.signalOf run) := read _

instance (signal : SignalId) : Ingredient parking (Eval.checkSignal signal) := by
  unfold Eval.checkSignal; infer_instance

instance (run : RunId) : Ingredient parking (Eval.checkRun run) := by
  unfold Eval.checkRun; infer_instance

instance (run : RunId) (n : Nat) : Ingredient parking (Eval.countCycles run n) := by
  unfold Eval.countCycles; infer_instance

instance (run : RunId) : Ingredient parking (Eval.tick run) := by
  unfold Eval.tick
  refine bind inferInstance fun pause => ?_
  cases pause <;> infer_instance

instance (run : RunId) :
    Ingredient parking (Eval.step run) := by unfold Eval.step; infer_instance

instance (run : RunId) : Ingredient parking (Eval.checkpoint run) := by
  unfold Eval.checkpoint; infer_instance

instance (run : RunId) (length : Nat) :
    Ingredient parking (Eval.checkLength run length) := by
  unfold Eval.checkLength; infer_instance

instance (run : RunId) :
    Ingredient parking (Eval.pulse run) := by unfold Eval.pulse; infer_instance

instance (run : RunId) (text : String) (stretches count : Nat) (written : String) :
    Ingredient parking (Eval.repeatStretches run text stretches count written) := by
  induction stretches generalizing count written with
  | zero => unfold Eval.repeatStretches; infer_instance
  | succ stretches ih => unfold Eval.repeatStretches; infer_instance

instance (run : RunId) (text : String) (count : Int64) :
    Ingredient parking (Eval.repeatText run text count) := by
  unfold Eval.repeatText; infer_instance

instance (run : RunId) (op : BinaryOp) (left right : Value) :
    Ingredient parking (Eval.combine run op left right) := by
  unfold Eval.combine
  split <;> infer_instance

instance (type : TypeExpr) (scope : ScopeId) :
    Ingredient parking (Eval.resolve type scope) := by
  unfold Eval.resolve; infer_instance

instance (parent : ScopeId) : Ingredient parking (Eval.openScope parent) := by
  refine bind inferInstance fun governor => bind inferInstance fun opened => ?_
  cases opened with
  | ok scope => exact .pure scope
  | error e => exact bind inferInstance fun _ => ofOutcome (.error e)

instance (scope : ScopeId) (bindings : List (String × Value)) :
    Ingredient parking (Eval.defineAll scope bindings) := by
  induction bindings with
  | nil => unfold Eval.defineAll; infer_instance
  | cons binding rest ih => unfold Eval.defineAll; infer_instance

instance (scope : ScopeId) (name : String) : Ingredient parking (Eval.lookup scope name) := by
  unfold Eval.lookup; infer_instance

instance (definition : FuncDef) (scope : ScopeId) (selfBound : Bool) :
    Ingredient parking (Eval.closure definition scope selfBound) := by
  unfold Eval.closure; infer_instance

instance (object : Expr) (scope : ScopeId) :
    Ingredient parking (Eval.packageOf? object scope) := by
  unfold Eval.packageOf?
  split <;> infer_instance

instance (frame : FrameId) : Ingredient parking (Eval.deferred frame) := read _

instance {ε : Except EvalError α} :
    Ingredient parking (MonadExcept.ofExcept ε : Eval α) := by
  cases ε with
  | ok a => exact pure a
  | error e => exact throw e

instance (callee : Value) (definition : FuncDef) (selfBound : Bool) (fixed : List Value)
    (rest : Option (List Value)) (scope : ScopeId) :
    Ingredient parking (Evaluator.bindParams callee definition selfBound fixed rest scope) := by
  have hrest : Ingredient parking (do
      Eval.defineAll scope (definition.params.zip fixed)
      match rest, definition.params.getLast? with
      | some rest, some name =>
        Eval.define scope name (← Eval.alloc (·.addPlainList rest.toArray))
      | _, _ => Pure.pure ()) := by
    refine bind inferInstance fun _ => ?_
    split <;> infer_instance
  unfold Evaluator.bindParams
  cases selfBound with
  | false => exact hrest
  | true =>
    cases definition.name with
    | none => exact hrest
    | some name => exact bind inferInstance fun _ => hrest

instance (p : Place) (scope : ScopeId) : Ingredient parking (Eval.readPlace p scope) := by
  cases p <;> unfold Eval.readPlace <;> infer_instance

instance (p : Place) (scope : ScopeId) (v : Value) :
    Ingredient parking (Eval.writePlace p scope v) := by
  cases p <;> unfold Eval.writePlace <;> infer_instance

instance (p : Place) {m : Eval α} [hm : Ingredient parking m] :
    Ingredient parking (p.holding m) := by
  unfold Place.holding
  induction p.holdings with
  | nil => exact hm
  | cons x xs ih => exact holding x ih

instance {m : Eval α} (chan : ChanId) [Ingredient parking m] :
    Ingredient parking (Eval.receiving chan m) := by
  unfold Eval.receiving; infer_instance

instance (chans : List ChanId) {m : Eval α} [hm : Ingredient parking m] :
    Ingredient parking (Eval.receivingAll chans m) := by
  induction chans with
  | nil => exact hm
  | cons chan rest ih => unfold Eval.receivingAll; infer_instance

instance (chan : ChanId) (signal : SignalId) (rounds : Nat) :
    Ingredient true (Eval.awaitValue chan signal rounds) := by
  induction rounds with
  | zero => exact outOfFuel
  | succ rounds ih =>
    refine bind inferInstance fun received => ?_
    cases received <;> infer_instance

instance (rounds : Nat) (chan : ChanId) (signal : SignalId) :
    Ingredient parking (Eval.recv rounds chan signal) := by
  cases parking with
  | false => exact recv rfl rounds chan signal
  | true =>
    refine holding _ (bind inferInstance fun received => ?_)
    cases received <;> infer_instance

instance (ops : List (ChanId × Option Value)) (index : Nat) :
    Ingredient parking (Eval.tryCases ops index) := by
  induction ops generalizing index with
  | nil => exact pure _
  | cons op rest ih =>
    obtain ⟨chan, outgoing⟩ := op
    cases outgoing with
    | some v => unfold Eval.tryCases; infer_instance
    | none =>
      refine bind inferInstance fun received => ?_
      cases received <;> infer_instance

instance (ops : List (ChanId × Option Value)) (canSkip : Bool) (signal : SignalId)
    (rounds : Nat) : Ingredient parking (Eval.awaitCase ops canSkip signal rounds) := by
  cases parking with
  | false => exact awaitCase rfl ops canSkip signal rounds
  | true =>
    induction rounds with
    | zero => exact outOfFuel
    | succ rounds ih =>
      refine bind inferInstance fun _ => bind inferInstance fun chosen => ?_
      cases chosen <;> infer_instance

instance (targets values : Nat) :
    Ingredient parking (Evaluator.mismatchedCount targets values : Eval α) :=
  throw _

instance (count : Nat) (v : Value × Option Bool) :
    Ingredient parking (Evaluator.spreadValue count v) := by
  unfold Evaluator.spreadValue
  split
  split <;> infer_instance

instance (definition : FuncDef) (scope : ScopeId) :
    Ingredient parking (Evaluator.declareFunc definition scope) := by
  unfold Evaluator.declareFunc
  split <;> infer_instance

instance (run : RunId) (args : List Value) (f : Builtin) :
    Ingredient parking (f.act run args) := by
  unfold Builtin.act
  cases f with
  | close =>
    show Ingredient parking (match args.headD Value.nil with
      | .chan id => do Eval.close id; return []
      | v => Eval.tryHeap (·.wrongArgument "close" v))
    split <;> infer_instance
  | _ => infer_instance

/-- The waits of a channel operation are waits. -/
theorem elementary {m : Eval α} (hm : Ingredient parking m) : Elementary m := by
  induction hm with
  | bind _ _ hm hk => exact .bind hm hk
  | holding x _ hm => exact .holding x hm
  | located p _ hm => exact .located p hm
  | await on _ => exact .await on (.inl rfl)
  | _ => infer_instance

end Ingredient
end ScriptEngine
