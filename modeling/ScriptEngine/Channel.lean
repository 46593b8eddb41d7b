import ScriptEngine.Heap.Container

/-! Channels. Every operation is one step on the channel's state; what blocks is built from these
steps elsewhere. A value is **accepted** when it enters the buffer and **handed out** when it leaves
it. On an unbuffered channel a sender leaves its value in the buffer and waits until that very
value, known by its **ticket**, has been handed out. -/
namespace ScriptEngine

namespace Channel

/-- A blocking sender may leave its value: always on an unbuffered channel, else if there is
room. -/
def hasRoom (c : Channel) : Bool := c.capacity = 0 || c.buffer.length < c.capacity

/-- A sender that does not wait may leave its value: on an unbuffered channel only if there are more
receivers waiting than values. -/
def isReady (c : Channel) : Bool :=
  if c.capacity = 0 then c.buffer.length < c.waiting else c.buffer.length < c.capacity

/-- Takes a value into the buffer. Its ticket is the new count of values sent. -/
def accept (c : Channel) (v : Value) : Channel :=
  { c with buffer := c.buffer ++ [v], sent := c.sent + 1 }

/-- Hands out the oldest value. -/
def handOut? (c : Channel) : Option (Value × Channel) :=
  match c.buffer with
  | [] => none
  | v :: rest => some (v, { c with buffer := rest, received := c.received + 1 })

/-- The value with this ticket has been handed out, or never will be waited for. -/
def isSettled (c : Channel) (ticket : Nat) : Bool := ticket ≤ c.received || c.closed

/-- One more receiver waits. -/
def register (c : Channel) : Channel := { c with waiting := c.waiting + 1 }

/-- One receiver no longer waits. -/
def withdraw (c : Channel) : Channel := { c with waiting := c.waiting - 1 }

end Channel

namespace Heap

/-- Fails because a channel is closed. -/
def closedSend {α : Type} : Outcome α := invalid "send on closed channel"

/-- `v` as an element of a channel. -/
def chanValue (h : Heap) (id : ChanId) (v : Value) : Outcome (Value × Heap) :=
  h.convertTo v (h.chan id).elemType

/-- Accepts a converted value if there is room for a blocking sender, and gives its ticket. What
refers to nothing is not accepted. -/
def offer (h : Heap) (id : ChanId) (v : Value) : Outcome (Option Nat × Heap) :=
  let c := h.chan id
  if c.closed then closedSend
  else if !h.has v then mismatch h (c.elemType.getD .any) v
  else if c.hasRoom then .ok (some (c.sent + 1), h.modifyChan id (·.accept v))
  else .ok (none, h)

/-- Accepts a value if that needs no waiting, and tells whether it did. -/
def trySend (h : Heap) (id : ChanId) (v : Value) : Outcome (Bool × Heap) := do
  let (v, h) ← h.chanValue id v
  let c := h.chan id
  if c.closed then closedSend
  else if c.isReady then return (true, h.modifyChan id (·.accept v))
  else return (false, h)

/-- Hands out the oldest value with `true`, or a zero value with `false` once the channel is closed
and drained. There is nothing to hand out from an open empty channel. -/
def tryRecv (h : Heap) (id : ChanId) : Outcome (Option (Value × Bool) × Heap) :=
  let c := h.chan id
  match c.handOut? with
  | some (v, _) =>
    .ok (some (v, true), h.modifyChan id fun c =>
      { c with buffer := c.buffer.tail, received := c.received + 1 })
  | none =>
    if c.closed then do
      let (v, h) ← h.convertTo .nil c.elemType
      return (some (v, false), h)
    else .ok (none, h)

/-- Closes a channel that is open. -/
def closeChan (h : Heap) (id : ChanId) : Outcome Heap :=
  if (h.chan id).closed then invalid "close of closed channel"
  else .ok (h.modifyChan id fun c => { c with closed := true })

end Heap

end ScriptEngine
