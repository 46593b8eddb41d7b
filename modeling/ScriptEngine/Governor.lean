/-! Limits on what a run may use. A governor counts live scopes against a ceiling; a limiter counts
cycles in a window of time and tells how long to pause once there are too many; a signal tells tasks
to stop, when it is cancelled or when its deadline has passed. Times are milliseconds. -/
namespace ScriptEngine

/-- Counts live scopes; the limit 0 means no ceiling. -/
structure Governor where
  limit : Nat
  /-- Scopes taken less scopes given back. -/
  balance : Int := 0
  peak : Nat := 0
deriving Repr, DecidableEq, Inhabited

namespace Governor

/-- A balance as the 64-bit word that counts it: giving back what was never taken turns the word
around. -/
def word (balance : Int) : Nat :=
  if 0 ≤ balance then balance.toNat else (UInt64.size + balance).toNat

/-- The number of live scopes. -/
def live (g : Governor) : Nat := word g.balance

/-- One more scope would exceed the ceiling. -/
def isFull (g : Governor) : Bool := 0 < g.limit && g.limit < word (g.balance + 1)

/-- One more live scope. -/
def acquire (g : Governor) : Governor :=
  { g with balance := g.balance + 1, peak := max g.peak (word (g.balance + 1)) }

/-- One live scope less. -/
def release (g : Governor) : Governor := { g with balance := g.balance - 1 }

end Governor

/-- Counts cycles in a window that started at some time; the limit 0 and the window 0 mean no
limit. -/
structure Limiter where
  limit : Nat
  window : Nat
  started : Nat
  count : Nat := 0
deriving Repr, DecidableEq, Inhabited

namespace Limiter

/-- The limiter limits anything. -/
def isLimited (l : Limiter) : Bool := 0 < l.limit && 0 < l.window

/-- Counts one cycle at this time. A window that is over makes way for a new one. If the count
exceeds the limit, the cycle has to wait until the window is over. -/
def tick (l : Limiter) (now : Nat) : Limiter × Option Nat :=
  if l.isLimited then
    let l := if l.window ≤ now - l.started then { l with started := now, count := 0 } else l
    let l := { l with count := l.count + 1 }
    (l, if l.limit < l.count then some (l.started + l.window) else none)
  else (l, none)

end Limiter

/-- A request to stop, made at once or by a deadline. -/
structure Signal where
  cancelled : Bool := false
  deadline : Option Nat := none
deriving Repr, DecidableEq, Inhabited

/-- The signal is on at this time. -/
def Signal.isOn (s : Signal) (now : Nat) : Bool :=
  s.cancelled || match s.deadline with | some d => d ≤ now | none => false

end ScriptEngine
