import ScriptEngine.Operator
import ScriptEngine.Task.Basic

/-! What evaluation does on account of its run: it counts cycles, gives other tasks a turn after
every 512th, pauses when the run is over its rate, notices that the run is cancelled, and keeps
results below the run's ceiling. -/
namespace ScriptEngine

/-- A task gives way to the others once in so many cycles. -/
def turnInterval : Nat := 512

namespace Eval

/-- The signal of a run. -/
@[inline] def signalOf (run : RunId) : Eval SignalId := read fun s => (s.run run).signal

/-- Fails if the run is cancelled. -/
def checkRun (run : RunId) : Eval Unit := do checkSignal (← signalOf run)

/-- Counts `n` more cycles of a run, and gives the new count. -/
def countCycles (run : RunId) (n : Nat) : Eval Nat := do
  modify (·.modifyRun run fun r => { r with cycles := r.cycles + n })
  read fun s => (s.run run).cycles

/-- Counts one against a limiter, and gives the time until which to pause. -/
def tickLimiter (run : RunId) : Eval (Option Nat) := update fun s =>
  let (limiter, pause) := (s.run run).limiter.tick s.now
  (pause, s.modifyRun run fun r => { r with limiter })

/-- Counts one against the rate of the run, and pauses if it is exceeded. -/
def tick (run : RunId) : Eval Unit := do
  match ← tickLimiter run with
  | some due => await (.pause due (← signalOf run))
  | none => pure ()

/-- One cycle. -/
def step (run : RunId) : Eval Unit := do
  if (← countCycles run 1) % turnInterval = 0 then await .turn
  tick run

/-- One cycle of a run that is not cancelled when the cycle begins. -/
def checkpoint (run : RunId) : Eval Unit := do
  checkRun run
  step run
  modify (·.pass run)

/-- Fails if a result would have too many elements. -/
def checkLength (run : RunId) (length : Nat) : Eval Unit := do
  let limit ← read fun s => (s.run run).maxElements
  if 0 < limit && limit < length then
    modify (·.refuse (.length run))
    failWith ("result of " ++ toString length ++ " elements exceeds the limit of " ++
      toString limit)

/-- The cycles of a whole stretch of elements. -/
def pulse (run : RunId) : Eval Unit := do
  checkRun run
  let _ ← countCycles run turnInterval
  await .turn
  tick run

/-- Adds the items with numbers from `index` on, `count` many. -/
def fill (item : Nat → EngineState → Outcome Value × EngineState) :
    (count : Nat) → (index : Nat) → Array Value → EngineState → Outcome (Array Value) × EngineState
  | 0, _, items, s => (.ok items, s)
  | count + 1, index, items, s =>
    match item index s with
    | (.ok v, s) => fill item count (index + 1) (items.push v) s
    | (.error f, s) => (.error f, s)

/-- Adds `stretches` many stretches of items to the ones built, `size` items in all and the last
stretch first, up to the number `length`. Between two stretches there is a pulse. -/
def buildStretches (run : RunId) (length : Nat)
    (item : Nat → EngineState → Outcome Value × EngineState) :
    (stretches : Nat) → (size : Nat) → List (Array Value) → Eval (List (Array Value))
  | 0, _, built => pure built
  | stretches + 1, size, built => do
    unless built.isEmpty do holding (.stretches built) (pulse run)
    let count := min turnInterval (length - size)
    let stretch ← ofOutcome (← update (fill item count size #[]))
    buildStretches run length item stretches (size + count) (stretch :: built)

/-- As many items as wanted, under the ceiling of the run. -/
def build (run : RunId) (length : Nat) (item : Nat → EngineState → Outcome Value × EngineState) :
    Eval (Array Value) := do
  checkLength run length
  let stretches := (length + turnInterval - 1) / turnInterval
  let built ← buildStretches run length item stretches 0 []
  return built.foldr (fun stretch items => items ++ stretch) #[]

/-- Writes `text` as often as `count` says, in stretches with a pulse between two. -/
def repeatStretches (run : RunId) (text : String) :
    (stretches : Nat) → (count : Nat) → (written : String) → Eval String
  | 0, _, written => pure written
  | stretches + 1, count, written => do
    unless written.isEmpty do pulse run
    let stretch := min turnInterval count
    repeatStretches run text stretches (count - stretch) (stretch.repeat (· ++ text) written)

/-- A text written several times, under the ceiling of the run. -/
def repeatText (run : RunId) (text : String) (count : Int64) : Eval String := do
  let length ← ofOutcome (Heap.repeatLength text count)
  checkLength run length
  if length = 0 then return ""
  let count := count.toInt.toNat
  repeatStretches run text ((count + turnInterval - 1) / turnInterval) count ""

end Eval

end ScriptEngine
