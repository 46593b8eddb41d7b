import ScriptEngine.EngineState.Collect

/-! Tasks. A task runs on the shared state until it is done, until it has to wait, or until it
breaks down. A task that waits says what for, and how it goes on from whatever the state is by then;
between two waits nothing else runs. Evaluation is a task that may fail. -/
namespace ScriptEngine

/-- What a task waits for. All waits that name a signal also end when that signal is on. -/
inductive Wait where
  /-- Other tasks that can run come first. -/
  | turn
  /-- This time has come. -/
  | time (due : Nat)
  /-- This time has come, for a run that has used up its cycles. -/
  | pause (due : Nat) (signal : SignalId)
  /-- A value to receive. -/
  | recv (chan : ChanId) (signal : SignalId)
  /-- Room for a value to send. -/
  | room (chan : ChanId) (signal : SignalId)
  /-- A receiver for the value that was sent with this ticket. -/
  | pickup (chan : ChanId) (ticket : Nat) (signal : SignalId)
  /-- One of these operations: a value to send, or none to receive one. -/
  | cases (ops : List (ChanId × Option Value)) (signal : SignalId)
  /-- The signal itself. -/
  | cancelled (signal : SignalId)
deriving DecidableEq, Inhabited

namespace Wait

/-- The signal that ends the wait. -/
def signal? : Wait → Option SignalId
  | .turn | .time _ => none
  | .pause _ s | .recv _ s | .room _ s | .pickup _ _ s | .cases _ s | .cancelled s => some s

/-- The channels whose changes end the wait. -/
def channels : Wait → List ChanId
  | .recv c _ | .room c _ | .pickup c _ _ => [c]
  | .cases ops _ => ops.map (·.1)
  | _ => []

/-- The time that ends the wait. -/
def time? : Wait → Option Nat
  | .time t | .pause t _ => some t
  | _ => none

end Wait

/-- Why a task cannot go on. -/
inductive Halt where
  /-- It broke down in host code, with a message or with something that is none, or for want of
  space. -/
  | breakDown (message : Option String)
  /-- The task has used up what bounds its recursion. -/
  | outOfFuel
deriving Repr, DecidableEq, Inhabited

/-- How far a task has come. -/
inductive Step (α : Type) where
  | done (s : EngineState) (a : α)
  | wait (s : EngineState) (on : Wait) (resume : EngineState → Step α)
  | stop (s : EngineState) (why : Halt)

namespace Step

variable {α β : Type}

/-- Goes on with `f` once the step is done, however often it waits before. -/
@[specialize] def bind (f : α → EngineState → Step β) : Step α → Step β
  | .done s a => f a s
  | .wait s on resume => .wait s on fun s => bind f (resume s)
  | .stop s why => .stop s why

/-- Turns a breakdown into an answer, however often the step waits before. The task lets go of all
but the first `keep` things it holds. -/
def catchBreakDown (keep : Nat) : Step α → Step (Except (Option String) α)
  | .done s a => .done s (.ok a)
  | .wait s on resume => .wait s on fun s => catchBreakDown keep (resume s)
  | .stop s (.breakDown message) => .done (s.unwind s.current keep) (.error message)
  | .stop s .outOfFuel => .stop s .outOfFuel

theorem bind_done (x : Step α) : x.bind (fun a s => .done s a) = x := by
  induction x with
  | done s a => rfl
  | wait s on resume ih => simp [bind, ih]
  | stop s why => rfl

theorem bind_assoc {γ : Type} (x : Step α) (f : α → EngineState → Step β)
    (g : β → EngineState → Step γ) : (x.bind f).bind g = x.bind fun a s => (f a s).bind g := by
  induction x with
  | done s a => rfl
  | wait s on resume ih => simp [bind, ih]
  | stop s why => rfl

end Step

/-- A task with a result. -/
def Task (α : Type) : Type := EngineState → Step α

namespace Task

variable {α β : Type}

@[inline] def pure (a : α) : Task α := fun s => .done s a

@[inline] def bind (m : Task α) (f : α → Task β) : Task β := fun s => (m s).bind f

instance : Monad Task where
  pure := Task.pure
  bind := Task.bind

/-- What `f` sees of the state. -/
@[inline] def read (f : EngineState → α) : Task α := fun s => let a := f s; .done s a

/-- Changes the state. -/
@[inline] def modify (f : EngineState → EngineState) : Task Unit := fun s => .done (f s) ()

/-- Changes the state and gives what `f` finds on the way. -/
@[inline] def update (f : EngineState → α × EngineState) : Task α := fun s =>
  let (a, s) := f s
  .done s a

/-- Waits. -/
def wait (on : Wait) : Task Unit := fun s => .wait s on fun s => .done s ()

/-- Cannot go on. -/
def stop (why : Halt) : Task α := fun s => .stop s why

/-- Runs a task that may break down. -/
def guarded (m : Task α) : Task (Except (Option String) α) := fun s =>
  let keep := s.holdCount s.current
  (m s).catchBreakDown keep

/-- Holds something while a task runs, and lets go of it when the task is done. -/
@[inline] def holding (x : Holding) (m : Task α) : Task α := fun s =>
  (m (s.hold x)).bind fun a s => .done s.letGo a

/-- Sleeps until a time, unless it has come. -/
def sleepUntil (t : Nat) : Task Unit := fun s =>
  if t ≤ s.now then .done s () else wait (.time t) s

/-- Sleeps for some milliseconds. -/
def sleep (ms : Nat) : Task Unit := fun s => sleepUntil (s.now + ms) s

/-- Waits until a signal is on. -/
def awaitSignal (signal : SignalId) : Task Unit := fun s =>
  if s.isCancelled signal then .done s () else wait (.cancelled signal) s

end Task

/-- A task that may fail. -/
abbrev Eval := ExceptT EvalError Task

namespace Eval

variable {α : Type}

/-- Fails. -/
@[inline] def fail (f : Fault) : Eval α := throw { fault := f }

/-- Fails because an operation makes no sense. -/
@[inline] def failWith (message : String) : Eval α := fail (.invalidOperation message)

/-- The task breaks down. -/
def breakDown (message : Option String) : Eval α := ExceptT.lift (Task.stop (.breakDown message))

/-- A fault is an error, and an overflow breaks the task down. -/
def ofFailure : Failure → Eval α
  | .fault f => fail f
  | .overflow => breakDown (some Failure.overflowMessage)

/-- The outcome of an operation on the heap. -/
@[inline] def ofOutcome : Outcome α → Eval α
  | .ok a => pure a
  | .error e => ofFailure e

/-- What `f` sees of the state. -/
@[inline] def read (f : EngineState → α) : Eval α := ExceptT.lift (Task.read f)

/-- Changes the state. -/
@[inline] def modify (f : EngineState → EngineState) : Eval Unit := ExceptT.lift (Task.modify f)

/-- Changes the state and gives what `f` finds on the way. -/
@[inline] def update (f : EngineState → α × EngineState) : Eval α := ExceptT.lift (Task.update f)

/-- Fails because the structure of the script does not fit. -/
def misfit (m : Misfit) : Eval α := do
  modify (·.complain m)
  failWith m.message

/-- What `f` sees of the heap. -/
@[inline] def readHeap (f : Heap → α) : Eval α := read fun s => f s.heap

/-- Looks something up in the heap. -/
@[inline] def tryHeap (f : Heap → Outcome α) : Eval α := do ofOutcome (← readHeap f)

/-- Runs an operation on the heap. One that fails leaves the heap as it was. -/
@[inline] def onHeap (f : Heap → Outcome (α × Heap)) : Eval α := fun s =>
  match f s.heap with
  | .ok (a, h) => .done { s with heap := h } (.ok a)
  | .error e => ofFailure e s

/-- Adds something to the heap. -/
@[inline] def alloc (f : Heap → α × Heap) : Eval α := fun s =>
  let (a, h) := f s.heap
  .done { s with heap := h } (.ok a)

/-- Runs an operation on the heap that has no result. -/
@[inline] def changeHeap (f : Heap → Outcome Heap) : Eval Unit := fun s =>
  match f s.heap with
  | .ok h => .done { s with heap := h } (.ok ())
  | .error e => ofFailure e s

/-- Runs an operation on the heap that binds a name. One that cannot be bound does not fit. -/
@[inline] def bindName (name : String) (f : Heap → Outcome Heap) : Eval Unit := fun s =>
  match f s.heap with
  | .ok h => .done { s with heap := h } (.ok ())
  | .error e => ofFailure e (s.complain (.name name))

/-- Carries out the write that `f` prepares. -/
@[inline] def store (f : Heap → Outcome (Write × Heap)) : Eval Unit := do
  let w ← onHeap f
  modify (·.modifyHeap (·.perform w))

/-- Errors of `m` happened at this place. -/
@[inline] def located (p : Position) (m : Eval α) : Eval α := fun s =>
  Step.bind (fun r s => .done s (r.mapError (·.locate p))) (m s)

/-- The outcome of `m`, whether it fails or not. -/
@[inline] def attempt (m : Eval α) : Eval (Except EvalError α) := ExceptT.lift m.run

/-- Holds something while `m` runs. -/
@[inline] def holding (x : Holding) (m : Eval α) : Eval α := Task.holding x m.run

/-- Holds a value while `m` runs. -/
@[inline] def holdingValue (v : Value) (m : Eval α) : Eval α := holding (.value v) m

/-- The bound on recursion is used up. -/
def outOfFuel : Eval α := ExceptT.lift (Task.stop .outOfFuel)

/-- Fails if the signal is on. -/
def checkSignal (signal : SignalId) : Eval Unit := do
  if ← read (·.isCancelled signal) then fail .interrupt

/-- Fails if the wait's signal is on. -/
def checkWait (on : Wait) : Eval Unit :=
  match on.signal? with
  | some signal => checkSignal signal
  | none => pure ()

/-- Waits, unless a signal ends the wait: then this fails. -/
def await (on : Wait) : Eval Unit := do
  checkWait on
  ExceptT.lift (Task.wait on)
  checkWait on

end Eval

end ScriptEngine
