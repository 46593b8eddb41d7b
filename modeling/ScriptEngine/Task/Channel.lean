import ScriptEngine.Task.Basic

/-! Channel operations that may wait. Every change of a channel is made known, and a task that waits
looks again whenever the channel has changed; `rounds` bounds how often.

Looking at a channel and beginning to wait for it are one step: a task asks to be told of changes
before it looks, so it is told as well of what changes before it waits. -/
namespace ScriptEngine.Eval

/-- Accepts a value if there is room for it, and gives its ticket. -/
def offer (chan : ChanId) (v : Value) : Eval (Option Nat) := do
  let ticket ← onHeap (·.offer chan v)
  if ticket.isSome then modify (·.notify (.channel chan))
  return ticket

/-- Accepts a value if that needs no waiting, and tells whether it did. -/
def trySend (chan : ChanId) (v : Value) : Eval Bool := do
  let sent ← onHeap (·.trySend chan v)
  if sent then modify (·.notify (.channel chan))
  return sent

/-- Receives if that needs no waiting. -/
def tryRecv (chan : ChanId) : Eval (Option (Value × Bool)) := do
  let received ← onHeap (·.tryRecv chan)
  if let some (_, true) := received then modify (·.notify (.channel chan))
  return received

/-- Closes a channel. -/
def close (chan : ChanId) : Eval Unit := do
  changeHeap (·.closeChan chan)
  modify (·.notify (.channel chan))

/-- Waits for room and leaves the value, which is held until then. -/
def leave (chan : ChanId) (v : Value) (signal : SignalId) : (rounds : Nat) → Eval Nat
  | 0 => outOfFuel
  | rounds + 1 => do
    match ← offer chan v with
    | some ticket => return ticket
    | none =>
      holdingValue v (await (.room chan signal))
      leave chan v signal rounds

/-- Waits until the value with this ticket has been received. -/
def awaitPickup (chan : ChanId) (ticket : Nat) (signal : SignalId) : (rounds : Nat) → Eval Unit
  | 0 => outOfFuel
  | rounds + 1 => do
    unless ← readHeap fun h => (h.chan chan).isSettled ticket do
      await (.pickup chan ticket signal)
      awaitPickup chan ticket signal rounds

/-- Sends a value. On an unbuffered channel this ends only when the value has been received. -/
def send (rounds : Nat) (chan : ChanId) (v : Value) (signal : SignalId) : Eval Unit :=
  holdingValue (.chan chan) do
    let v ← onHeap (·.chanValue chan v)
    let ticket ← leave chan v signal rounds
    if ← readHeap fun h => (h.chan chan).capacity == 0 then awaitPickup chan ticket signal rounds

/-- Waits for a value. -/
def awaitValue (chan : ChanId) (signal : SignalId) : (rounds : Nat) → Eval (Value × Bool)
  | 0 => outOfFuel
  | rounds + 1 => do
    match ← tryRecv chan with
    | some received => return received
    | none =>
      await (.recv chan signal)
      awaitValue chan signal rounds

/-- Counts as a waiting receiver while `m` runs. -/
def receiving {α : Type} (chan : ChanId) (m : Eval α) : Eval α := do
  modify (·.register chan)
  holding (.receiver chan) m

/-- Receives a value, with `true`; or a zero value with `false` once the channel is closed and
drained. -/
def recv (rounds : Nat) (chan : ChanId) (signal : SignalId) : Eval (Value × Bool) :=
  holdingValue (.chan chan) do
    match ← tryRecv chan with
    | some received => return received
    | none => receiving chan (awaitValue chan signal rounds)

/-- Counts as a waiting receiver of all these channels while `m` runs. -/
def receivingAll {α : Type} : List ChanId → Eval α → Eval α
  | [], m => m
  | chan :: rest, m => receiving chan (receivingAll rest m)

/-- Tries operations in order, and gives the number of the first that needs no waiting, with what it
received if it is a receive. -/
def tryCases : (ops : List (ChanId × Option Value)) → (index : Nat) →
    Eval (Option (Nat × Option (Value × Bool)))
  | [], _ => return none
  | (chan, some v) :: rest, index => do
    if ← trySend chan v then return some (index, none) else tryCases rest (index + 1)
  | (chan, none) :: rest, index => do
    match ← tryRecv chan with
    | some received => return some (index, some received)
    | none => tryCases rest (index + 1)

/-- What an operation of a `select` refers to. -/
def caseValues (op : ChanId × Option Value) : List Value := .chan op.1 :: op.2.toList

/-- Waits until one of the operations has been made, the first that can; they are held until then.
With `canSkip` there is no waiting, and possibly no operation. -/
def awaitCase (ops : List (ChanId × Option Value)) (canSkip : Bool) (signal : SignalId) :
    (rounds : Nat) → Eval (Option (Nat × Option (Value × Bool)))
  | 0 => outOfFuel
  | rounds + 1 => do
    checkSignal signal
    match ← tryCases ops 0 with
    | some chosen => return some chosen
    | none =>
      if canSkip then return none
      holding (.values (ops.flatMap caseValues)) (await (.cases ops signal))
      awaitCase ops canSkip signal rounds

end ScriptEngine.Eval
