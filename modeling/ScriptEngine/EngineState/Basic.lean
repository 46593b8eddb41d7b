import ScriptEngine.Channel
import ScriptEngine.Governor
import ScriptEngine.Scope

/-! The state that all tasks share: the heap, the limits on what runs may use, the clock, what every
task holds, and the notices that tell the scheduler what has happened. Nothing in it is a program,
so every part can be looked at. -/
namespace ScriptEngine

abbrev SignalId := Nat
abbrev RunId := Nat
abbrev FrameId := Nat
abbrev TaskId := Nat

/-- What one run may use and has used. Tasks started by a run belong to it. -/
structure Run where
  signal : SignalId
  limiter : Limiter
  /-- The most elements that one operation may produce; 0 means no ceiling. -/
  maxElements : Nat
  cycles : Nat := 0
deriving Inhabited

/-- A call that is made when the body that registered it ends. Its parts are evaluated already. -/
structure DeferredCall where
  callee : Value
  args : List Value
  spread : Bool
deriving Inhabited

/-- Something a task holds on to while it is in the middle of something else. What is held is not
garbage, and it is given back when the task lets go of it. -/
inductive Holding where
  | value (v : Value)
  | values (vs : List Value)
  /-- Items of something that is being built. -/
  | stretches (built : List (Array Value))
  /-- The rows that an iteration has not come to yet. -/
  | rows (left : List (Value × Value))
  /-- The scope of a block, a call or a module that is under way. -/
  | block (scope : ScopeId)
  /-- A scope that somebody else made. -/
  | package (scope : ScopeId)
  /-- The deferred calls of a body that is under way. -/
  | frame (id : FrameId)
  /-- A registration as a waiting receiver. -/
  | receiver (chan : ChanId)
deriving Inhabited

/-- What a task is to do. -/
inductive Job where
  /-- A call of a run. -/
  | call (run : RunId) (callee : Value) (args : List Value) (spread : Bool)
  /-- A send or a receive that the host started; the outcome is reported. -/
  | send (chan : ChanId) (value : Value) (signal : SignalId)
  | recv (chan : ChanId) (signal : SignalId)
deriving Inhabited

/-- What a job refers to. -/
def Job.values : Job → List Value
  | .call _ callee args _ => callee :: args
  | .send chan value _ => [.chan chan, value]
  | .recv chan _ => [.chan chan]

/-- Something that may make tasks runnable. -/
inductive Notice where
  /-- The channel has changed. -/
  | channel (id : ChanId)
  /-- The signal was cancelled. -/
  | signal (id : SignalId)
  /-- A task was started. -/
  | started (task : TaskId) (job : Job)
deriving Inhabited

/-- How a task that the host started has ended. A receive has a value, and tells whether it was
sent. -/
structure Report where
  task : TaskId
  outcome : Except EvalError (Option (Value × Bool))
deriving Inhabited

/-- A ceiling that something came up against. -/
inductive Refusal where
  /-- A governor had no slot for one more scope. -/
  | scope (governor : GovernorId)
  /-- A result would have had more elements than its run may produce. -/
  | length (run : RunId)
deriving Repr, DecidableEq, Inhabited

/-- The state that all tasks share. -/
structure EngineState where
  heap : Heap := {}
  governors : Store Governor := {}
  signals : Store Signal := {}
  runs : Store Run := {}
  /-- Milliseconds since the beginning. -/
  now : Nat := 0
  /-- The deferred calls of the bodies under way, last one first. -/
  frames : Store (List DeferredCall) := {}
  /-- What each task holds, last one first. -/
  held : Store (List Holding) := {}
  /-- The task that runs. -/
  current : TaskId := 0
  /-- What has happened since the scheduler last looked, in order. -/
  notices : Array Notice := #[]
  /-- The scopes that the host holds. -/
  pinned : List ScopeId := []
  /-- The number of counted scopes that something besides their block may refer to. -/
  lingering : Nat := 0
  reports : List Report := []
  /-- What evaluation was refused because of a ceiling, the latest first. -/
  refusals : List Refusal := []
  /-- What evaluation came upon and could not go on with, the latest first. -/
  misfits : List Misfit := []
  /-- The calls that bodies have registered, each with its frame, the latest first. -/
  deferrals : List (FrameId × DeferredCall) := []
  /-- The checkpoints that tasks have passed although their run was cancelled by then, the latest
  first. -/
  overruns : List (TaskId × RunId) := []
deriving Inhabited

namespace EngineState

/-- Before anything has happened there is one task, which holds nothing. -/
def initial : EngineState := { held := ({} : Store (List Holding)).push [] }

def governor (s : EngineState) (id : GovernorId) : Governor := (s.governors.get? id).getD default

def signal (s : EngineState) (id : SignalId) : Signal := (s.signals.get? id).getD default

def run (s : EngineState) (id : RunId) : Run := (s.runs.get? id).getD default

@[inline] def modifyHeap (s : EngineState) (f : Heap → Heap) : EngineState :=
  { s with heap := f s.heap }

@[inline] def modifyRun (s : EngineState) (id : RunId) (f : Run → Run) : EngineState :=
  { s with runs := s.runs.modify id f }

def addGovernor (s : EngineState) (limit : Nat) : GovernorId × EngineState :=
  (s.governors.next, { s with governors := s.governors.push { limit } })

def addSignal (s : EngineState) (signal : Signal) : SignalId × EngineState :=
  (s.signals.next, { s with signals := s.signals.push signal })

def addRun (s : EngineState) (run : Run) : RunId × EngineState :=
  (s.runs.next, { s with runs := s.runs.push run })

/-- The signal is on now. -/
def isCancelled (s : EngineState) (id : SignalId) : Bool := (s.signal id).isOn s.now

/-- The run is there, and its signal is on now. -/
def runCancelled (s : EngineState) (id : RunId) : Bool :=
  (s.runs.get? id).any fun r => s.isCancelled r.signal

/-- The running task passes a checkpoint of a run. -/
def pass (s : EngineState) (run : RunId) : EngineState :=
  if s.runCancelled run then { s with overruns := (s.current, run) :: s.overruns } else s

theorem pass_eq (s : EngineState) (run : RunId) :
    s.pass run = { s with overruns := (s.pass run).overruns } := by
  unfold pass
  split <;> rfl

/-- Puts on record that something was refused. -/
def refuse (s : EngineState) (r : Refusal) : EngineState := { s with refusals := r :: s.refusals }

/-- Puts on record that the structure of a script does not fit. -/
def complain (s : EngineState) (m : Misfit) : EngineState := { s with misfits := m :: s.misfits }

/-! ## Deferred calls -/

/-- Registers a call in a frame. -/
def defer (s : EngineState) (frame : FrameId) (call : DeferredCall) : EngineState :=
  { s with
    frames := s.frames.modify frame (call :: ·)
    deferrals := (frame, call) :: s.deferrals }

/-! ## Notices -/

/-- Tells the scheduler what has happened. -/
@[inline] def notify (s : EngineState) (n : Notice) : EngineState :=
  { s with notices := s.notices.push n }

/-- Cancels a signal. -/
def cancel (s : EngineState) (id : SignalId) : EngineState :=
  { s with signals := s.signals.modify id fun g => { g with cancelled := true } }.notify
    (.signal id)

/-- Starts a task, which holds what its job refers to. -/
def start (s : EngineState) (job : Job) : TaskId × EngineState :=
  let id := s.held.next
  (id, { s with held := s.held.push [.values job.values] }.notify (.started id job))

/-! ## Channels -/

/-- A receiver starts to wait. -/
def register (s : EngineState) (chan : ChanId) : EngineState :=
  (s.modifyHeap (·.modifyChan chan (·.register))).notify (.channel chan)

/-- A receiver no longer waits. -/
def withdraw (s : EngineState) (chan : ChanId) : EngineState :=
  s.modifyHeap (·.modifyChan chan (·.withdraw))

/-! ## Scopes -/

/-- Something besides its block may refer to this scope from now on, and so to those around it. -/
def capture (s : EngineState) (scope : ScopeId) : EngineState :=
  let around := (s.heap.chain scope).takeWhile fun id => !(s.heap.scope id).captured
  around.foldl (fun s id =>
    let counted := (s.heap.scope id).counted
    let s := s.modifyHeap (·.modifyScope id fun c => { c with captured := true })
    { s with lingering := s.lingering + (if counted then 1 else 0) }) s

/-- Takes a scope out of the heap and gives back its slot. -/
def eraseScope (s : EngineState) (id : ScopeId) : EngineState :=
  match s.heap.scopes.get? id with
  | none => s
  | some c =>
    let s := s.modifyHeap fun h => { h with scopes := h.scopes.erase id }
    if c.counted then
      { s with
        governors := s.governors.modify c.governor (·.release)
        lingering := s.lingering - (if c.captured then 1 else 0) }
    else s

/-- A new scope without one around it. -/
def addRoot (s : EngineState) (governor : GovernorId) : ScopeId × EngineState :=
  let root : Scope := { governor }
  (s.heap.scopes.next, s.modifyHeap fun h => { h with scopes := h.scopes.push root })

/-- The host holds a scope. -/
def pin (s : EngineState) (scope : ScopeId) : EngineState := { s with pinned := scope :: s.pinned }

/-- The host lets go of a scope, once. -/
def unpin (s : EngineState) (scope : ScopeId) : EngineState :=
  { s with pinned := s.pinned.erase scope }

/-! ## Holdings -/

/-- The task that runs holds something more. -/
@[inline] def hold (s : EngineState) (x : Holding) : EngineState :=
  { s with held := s.held.modify s.current (x :: ·) }

/-- Gives back what was held: a scope that nothing else can refer to ends here, deferred calls are
forgotten, and a receiver stops waiting. -/
def giveBack (s : EngineState) : Holding → EngineState
  | .block id => if (s.heap.scope id).captured then s else s.eraseScope id
  | .frame id => { s with frames := s.frames.erase id }
  | .receiver chan => s.withdraw chan
  | _ => s

/-- A task lets go of what it has held last. -/
def letGoOf (s : EngineState) (task : TaskId) : EngineState :=
  match s.held.get? task with
  | some (x :: rest) => { s with held := s.held.set task rest }.giveBack x
  | _ => s

/-- The running task lets go of what it has held last. -/
def letGo (s : EngineState) : EngineState := s.letGoOf s.current

/-- How many things a task holds. -/
def holdCount (s : EngineState) (task : TaskId) : Nat := ((s.held.get? task).getD []).length

/-- A task lets go of all but the first `keep` things it holds. -/
def unwind (s : EngineState) (task : TaskId) (keep : Nat) : EngineState :=
  (s.holdCount task - keep).repeat (·.letGoOf task) s

end EngineState

end ScriptEngine
