import ScriptEngine.Evaluator.Level

/-! The scheduler. Tasks take turns: one runs until it waits, and then the next one that can run
does, in the order in which they became able to. Tasks that gave way to others come back together,
the last of them first. The **foreground** task, which does what the host asks for, comes first
whenever it can run, but other tasks get a batch of turns in between. Time stands still while any
task can run; when none can, the clock jumps to the next moment that some task waits for. -/
namespace ScriptEngine

/-- A task that has paused at a wait. -/
structure Suspended (α : Type) where
  task : TaskId
  on : Wait
  resume : EngineState → Step α

namespace Wait

/-- The notice ends the wait. -/
def endedBy (w : Wait) : Notice → Bool
  | .channel c => w.channels.contains c
  | .signal s => w.signal? == some s
  | .started _ _ => false

/-- When the deadline of the wait's signal is. -/
def deadline? (s : EngineState) (w : Wait) : Option Nat :=
  w.signal?.bind fun id => (s.signal id).deadline

/-- The moments that end the wait. -/
def moments (s : EngineState) (w : Wait) : List Nat := w.time?.toList ++ (w.deadline? s).toList

/-- A moment that ends the wait has come. -/
def isDue (s : EngineState) (w : Wait) : Bool := (w.moments s).any (· ≤ s.now)

/-- The task only lets others go first. -/
def isTurn : Wait → Bool
  | .turn => true
  | _ => false

end Wait

/-- The shared state with the tasks in the background. -/
structure Scheduler where
  state : EngineState := .initial
  /-- Tasks that can run, in the order of their turns. -/
  ready : List (Suspended Unit) := []
  /-- Tasks that wait for something to happen, in the order in which they began to wait. -/
  parked : List (Suspended Unit) := []
  /-- Tasks that only let others go first, the latest first. -/
  yielded : List (Suspended Unit) := []

/-- The foreground task while it waits. -/
structure Foreground (α : Type) where
  on : Wait
  resume : EngineState → Step α
  /-- What it waits for has happened. -/
  woken : Bool := false

namespace Foreground

variable {α : Type}

/-- The foreground task after notices. -/
def settle (f : Foreground α) (ns : List Notice) : Foreground α :=
  { f with woken := f.woken || ns.any f.on.endedBy }

/-- The foreground task after a jump of the clock. -/
def wakeDue (f : Foreground α) (s : EngineState) : Foreground α :=
  { f with woken := f.woken || f.on.isDue s }

end Foreground

namespace Job

/-- Reports how a task ended. -/
def report (task : TaskId) (m : Eval (Option (Value × Bool))) : Task Unit := fun s =>
  (m.run s).bind fun outcome s => .done { s with reports := s.reports ++ [{ task, outcome }] } ()

/-- What a task does, as soon as it has let go of what its job refers to. -/
def program (fuel : Nat) (task : TaskId) : Job → Task Unit
  | .call run callee args spread => fun s =>
    (((Evaluator.ofFuel run fuel).call callee args spread).run s.letGo).bind fun _ s => .done s ()
  | .send chan v signal => fun s =>
    report task (do Eval.send fuel chan v signal; return none) s.letGo
  | .recv chan signal => fun s =>
    report task (do return some (← Eval.recv fuel chan signal)) s.letGo

end Job

namespace Scheduler

/-- A task can run. -/
def enqueue (sch : Scheduler) (t : Suspended Unit) : Scheduler :=
  { sch with ready := sch.ready ++ [t] }

/-- Lets a notice take effect on the tasks in the background. -/
def notice (fuel : Nat) (sch : Scheduler) (n : Notice) : Scheduler :=
  match n with
  | .started task job => sch.enqueue ⟨task, .turn, job.program fuel task⟩
  | n =>
    let (woken, parked) := sch.parked.partition (·.on.endedBy n)
    { sch with ready := sch.ready ++ woken, parked }

/-- Takes over the state that a task has left, and lets the notices in it take effect on the tasks
in the background. The foreground task has to see them too. -/
def settle (fuel : Nat) (sch : Scheduler) (s : EngineState) : Scheduler × List Notice :=
  let notices := s.notices.toList
  (notices.foldl (notice fuel) { sch with state := { s with notices := #[] } }, notices)

/-- A task pauses. -/
def suspend (sch : Scheduler) (t : Suspended Unit) : Scheduler :=
  if t.on.isTurn then { sch with yielded := t :: sch.yielded }
  else { sch with parked := sch.parked ++ [t] }

/-- Gives a task in the background its turn. Only running out of fuel stops more than that task. -/
def turn (fuel : Nat) (sch : Scheduler) (t : Suspended Unit) :
    Except Halt (Scheduler × List Notice) :=
  match t.resume { sch.state with current := t.task } with
  | .done s () => .ok (sch.settle fuel s)
  | .wait s on resume =>
    let (sch, notices) := sch.settle fuel s
    .ok (sch.suspend ⟨t.task, on, resume⟩, notices)
  | .stop s (.breakDown _) => .ok (sch.settle fuel (s.unwind t.task 0))
  | .stop _ .outOfFuel => .error .outOfFuel

variable {α : Type}

/-- Those that only let others go first can run again. The last that gave way is the first. -/
def wakeYielded (sch : Scheduler) (main : Foreground α) : Scheduler × Foreground α :=
  ({ sch with ready := sch.ready ++ sch.yielded, yielded := [] },
    { main with woken := main.woken || main.on.isTurn })

/-- The next moment that something waits for, but not after the deadline. -/
def nextMoment (sch : Scheduler) (on : Wait) (deadline : Nat) : Nat :=
  (sch.parked.flatMap (·.on.moments sch.state) ++ on.moments sch.state).foldl min deadline

/-- Lets the clock jump to the next moment. -/
def jump (sch : Scheduler) (main : Foreground α) (deadline : Nat) : Scheduler × Foreground α :=
  let state := { sch.state with now := max sch.state.now (sch.nextMoment main.on deadline) }
  let (woken, parked) := sch.parked.partition (·.on.isDue state)
  ({ sch with state, ready := sch.ready ++ woken, parked }, main.wakeDue state)

/-- No task in the background can run: those that gave way are next, then the foreground task, and
if there is none of them time passes. -/
def idle (sch : Scheduler) (main : Foreground α) (deadline : Nat) : Scheduler × Foreground α :=
  if !sch.yielded.isEmpty || main.on.isTurn then sch.wakeYielded main
  else if main.woken then (sch, main)
  else sch.jump main deadline

/-- Gives tasks in the background at most `turns` turns. -/
def batch (fuel deadline : Nat) : (turns : Nat) → Scheduler → Foreground α →
    Except Halt (Scheduler × Foreground α)
  | 0, sch, main => .ok (sch.wakeYielded main)
  | turns + 1, sch, main =>
    match sch.ready with
    | [] => .ok (sch.idle main deadline)
    | t :: rest => do
      let (sch, notices) ← { sch with ready := rest }.turn fuel t
      batch fuel deadline turns sch (main.settle notices)

/-- The turns of tasks in the background between two of the foreground task. -/
def batchSize : Nat := 61

/-- The foreground task gives up after this many milliseconds. -/
def patience : Nat := 3600000

/-- How the foreground task ended. -/
inductive Finish (α : Type) where
  | done (a : α)
  /-- It was still waiting when its time was up, and has let go of all it held. -/
  | deadlock
  | stopped (why : Halt)

/-- Resumes the foreground task whenever it can run, and gives the others their turns in between. -/
def drive (fuel deadline : Nat) : (turns : Nat) → Scheduler → Foreground α → Scheduler × Finish α
  | 0, sch, _ => (sch, .stopped .outOfFuel)
  | turns + 1, sch, main =>
    if main.woken then
      match main.resume { sch.state with current := 0 } with
      | .done s a => ((sch.settle fuel s).1, .done a)
      | .stop s why => ((sch.settle fuel (s.unwind 0 0)).1, .stopped why)
      | .wait s on resume => drive fuel deadline turns (sch.settle fuel s).1 { on, resume }
    else if deadline ≤ sch.state.now then
      ({ sch with state := sch.state.unwind 0 0 }, .deadlock)
    else
      match sch.batch fuel deadline batchSize main with
      | .ok (sch, main) => drive fuel deadline turns sch main
      | .error why => (sch, .stopped why)

/-- Runs a task in the foreground until it is done, or until it has waited too long. -/
def run (sch : Scheduler) (fuel : Nat) (m : Task α) : Scheduler × Finish α :=
  drive fuel (sch.state.now + patience) fuel sch { on := .turn, resume := m, woken := true }

end Scheduler

end ScriptEngine
