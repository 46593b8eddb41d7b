import ScriptEngine.Task.Channel
import ScriptEngine.Task.Run

/-! # What the steps of a task are

Evaluation is a state monad that can fail and can wait.  These equations say what each of its
building blocks does on a given state, so that proofs about tasks never look at how the monad is put
together.
-/
namespace ScriptEngine

namespace Step
variable {α β : Type}

@[simp] theorem bind_of_done (s : EngineState) (a : α) (f : α → EngineState → Step β) :
    (Step.done s a).bind f = f a s := rfl

@[simp] theorem bind_of_wait (s : EngineState) (on : Wait) (resume : EngineState → Step α)
    (f : α → EngineState → Step β) :
    (Step.wait s on resume).bind f = .wait s on fun s => (resume s).bind f := rfl

@[simp] theorem bind_of_stop (s : EngineState) (why : Halt) (f : α → EngineState → Step β) :
    (Step.stop s why : Step α).bind f = .stop s why := rfl

end Step

instance : LawfulMonad Task := LawfulMonad.mk' Task
  (fun m => funext fun s => Step.bind_done (m s))
  (fun _ _ => rfl)
  (fun m f g => funext fun s => Step.bind_assoc (m s) f fun b => g b)

namespace Eval
variable {α β : Type}

/-- How evaluation goes on after an outcome: with the value, or not at all. -/
def andThen (k : α → Eval β) (r : Except EvalError α) (s : EngineState) :
    Step (Except EvalError β) :=
  match r with
  | .ok a => k a s
  | .error e => .done s (.error e)

@[simp] theorem andThen_ok (k : α → Eval β) (a : α) (s : EngineState) :
    andThen k (.ok a) s = k a s := rfl

@[simp] theorem andThen_error (k : α → Eval β) (e : EvalError) (s : EngineState) :
    andThen k (.error e) s = .done s (.error e) := rfl

theorem bind_apply (m : Eval α) (k : α → Eval β) (s : EngineState) :
    (m >>= k) s = (m s).bind (andThen k) := by
  show (m s).bind _ = (m s).bind _
  congr 1
  funext r s
  cases r <;> rfl

theorem read_apply (f : EngineState → α) (s : EngineState) : read f s = .done s (.ok (f s)) := rfl

theorem readHeap_apply (f : Heap → α) (s : EngineState) :
    readHeap f s = .done s (.ok (f s.heap)) := rfl

theorem tryHeap_apply (f : Heap → Outcome α) (s : EngineState) :
    tryHeap f s = ofOutcome (f s.heap) s := rfl

theorem modify_apply (f : EngineState → EngineState) (s : EngineState) :
    modify f s = .done (f s) (.ok ()) := rfl

theorem update_apply (f : EngineState → α × EngineState) (s : EngineState) :
    update f s = .done (f s).2 (.ok (f s).1) := rfl

theorem alloc_apply (f : Heap → α × Heap) (s : EngineState) :
    alloc f s = .done { s with heap := (f s.heap).2 } (.ok (f s.heap).1) := rfl

theorem onHeap_ok {f : Heap → Outcome (α × Heap)} {s : EngineState} {a : α} {h : Heap}
    (hf : f s.heap = .ok (a, h)) : onHeap f s = .done { s with heap := h } (.ok a) := by
  simp only [onHeap, hf]

theorem onHeap_error {f : Heap → Outcome (α × Heap)} {s : EngineState} {e : Failure}
    (hf : f s.heap = .error e) : onHeap f s = ofFailure e s := by
  simp only [onHeap, hf]

theorem changeHeap_ok {f : Heap → Outcome Heap} {s : EngineState} {h : Heap}
    (hf : f s.heap = .ok h) : changeHeap f s = .done { s with heap := h } (.ok ()) := by
  simp only [changeHeap, hf]

theorem changeHeap_error {f : Heap → Outcome Heap} {s : EngineState} {e : Failure}
    (hf : f s.heap = .error e) : changeHeap f s = ofFailure e s := by
  simp only [changeHeap, hf]

theorem store_ok {f : Heap → Outcome (Write × Heap)} {s : EngineState} {w : Write} {h : Heap}
    (hf : f s.heap = .ok (w, h)) :
    store f s = .done { s with heap := h.perform w } (.ok ()) := by
  rw [store, bind_apply, onHeap_ok hf]
  rfl

theorem store_error {f : Heap → Outcome (Write × Heap)} {s : EngineState} {e : Failure}
    (hf : f s.heap = .error e) : store f s = ofFailure e s := by
  rw [store, bind_apply, onHeap_error hf]
  cases e <;> rfl

theorem bindName_ok {name : String} {f : Heap → Outcome Heap} {s : EngineState} {h : Heap}
    (hf : f s.heap = .ok h) : bindName name f s = .done { s with heap := h } (.ok ()) := by
  simp only [bindName, hf]

theorem bindName_error {name : String} {f : Heap → Outcome Heap} {s : EngineState} {e : Failure}
    (hf : f s.heap = .error e) : bindName name f s = ofFailure e (s.complain (.name name)) := by
  simp only [bindName, hf]

theorem misfit_apply (m : Misfit) (s : EngineState) :
    (misfit m : Eval α) s =
      .done (s.complain m) (.error { fault := .invalidOperation m.message }) := rfl

theorem holding_apply (x : Holding) (m : Eval α) (s : EngineState) :
    holding x m s = (m (s.hold x)).bind fun r s => .done s.letGo r := rfl

theorem located_apply (p : Position) (m : Eval α) (s : EngineState) :
    located p m s = (m s).bind fun r s => .done s (r.mapError (·.locate p)) := rfl

theorem attempt_apply (m : Eval α) (s : EngineState) :
    attempt m s = (m s).bind fun r s => .done s (.ok r) := rfl

theorem checkSignal_apply (signal : SignalId) (s : EngineState) :
    checkSignal signal s =
      if s.isCancelled signal then .done s (.error { fault := .interrupt }) else .done s (.ok ()) := by
  simp only [checkSignal, bind_apply, read_apply, Step.bind_of_done, andThen_ok]
  split <;> rfl

/-- Waiting: unless the signal is on, the task pauses, and then fails if the signal is on. -/
theorem checkWait_apply (on : Wait) (s : EngineState) :
    checkWait on s =
      if on.signal?.any s.isCancelled then .done s (.error { fault := .interrupt })
      else .done s (.ok ()) := by
  unfold checkWait
  cases on.signal? with
  | none => rfl
  | some signal => exact checkSignal_apply signal s

theorem await_apply (on : Wait) (s : EngineState) :
    await on s =
      if on.signal?.any s.isCancelled then .done s (.error { fault := .interrupt })
      else .wait s on (checkWait on) := by
  simp only [await, bind_apply, checkWait_apply]
  split
  · rfl
  · rfl

theorem sleep_apply (ms : Nat) (s : EngineState) :
    (ExceptT.lift (Task.sleep ms) : Eval Unit) s =
      if ms = 0 then .done s (.ok ()) else .wait s (.time (s.now + ms)) fun s => .done s (.ok ()) := by
  show (Task.sleepUntil (s.now + ms) s).bind _ = _
  unfold Task.sleepUntil
  by_cases hms : ms = 0
  · rw [if_pos (by omega), if_pos hms]
    rfl
  · rw [if_neg (by omega), if_neg hms]
    rfl

/-! ## The limits of a run -/

/-- A tick is counted, and then returns or pauses. -/
theorem tick_apply (run : RunId) (s : EngineState) :
    tick run s =
      let counted := s.modifyRun run fun r =>
        { r with limiter := ((s.run run).limiter.tick s.now).1 }
      match ((s.run run).limiter.tick s.now).2 with
      | none => .done counted (.ok ())
      | some due => await (.pause due (counted.run run).signal) counted := by
  rw [tick, bind_apply, tickLimiter, update_apply]
  simp only [Step.bind_of_done, andThen_ok]
  cases ((s.run run).limiter.tick s.now).2 <;> rfl

theorem checkLength_apply (run : RunId) (length : Nat) (s : EngineState) :
    checkLength run length s =
      if 0 < (s.run run).maxElements ∧ (s.run run).maxElements < length then
        .done (s.refuse (.length run)) (.error { fault := .invalidOperation ("result of " ++
          toString length ++ " elements exceeds the limit of " ++
          toString (s.run run).maxElements) })
      else .done s (.ok ()) := by
  simp only [checkLength, bind_apply, read_apply, Step.bind_of_done, andThen_ok, Bool.and_eq_true,
    decide_eq_true_eq]
  split <;> rfl

/-! ## Operations on channels -/

theorem offer_apply (chan : ChanId) (v : Value) (s : EngineState) :
    offer chan v s = match s.heap.offer chan v with
      | .ok (some ticket, h) =>
        .done ({ s with heap := h }.notify (.channel chan)) (.ok (some ticket))
      | .ok (none, h) => .done { s with heap := h } (.ok none)
      | .error e => ofFailure e s := by
  rw [offer, bind_apply]
  cases hr : s.heap.offer chan v with
  | error e =>
    rw [onHeap_error hr]
    cases e <;> rfl
  | ok r =>
    obtain ⟨ticket, h⟩ := r
    rw [onHeap_ok hr]
    cases ticket <;> rfl

theorem trySend_apply (chan : ChanId) (v : Value) (s : EngineState) :
    trySend chan v s = match s.heap.trySend chan v with
      | .ok (true, h) => .done ({ s with heap := h }.notify (.channel chan)) (.ok true)
      | .ok (false, h) => .done { s with heap := h } (.ok false)
      | .error e => ofFailure e s := by
  rw [trySend, bind_apply]
  cases hr : s.heap.trySend chan v with
  | error e =>
    rw [onHeap_error hr]
    cases e <;> rfl
  | ok r =>
    obtain ⟨sent, h⟩ := r
    rw [onHeap_ok hr]
    cases sent <;> rfl

theorem tryRecv_apply (chan : ChanId) (s : EngineState) :
    tryRecv chan s = match s.heap.tryRecv chan with
      | .ok (some (v, true), h) =>
        .done ({ s with heap := h }.notify (.channel chan)) (.ok (some (v, true)))
      | .ok (r, h) => .done { s with heap := h } (.ok r)
      | .error e => ofFailure e s := by
  rw [tryRecv, bind_apply]
  cases hr : s.heap.tryRecv chan with
  | error e =>
    rw [onHeap_error hr]
    cases e <;> rfl
  | ok r =>
    obtain ⟨answer, h⟩ := r
    rw [onHeap_ok hr]
    match answer with
    | none => rfl
    | some (v, true) => rfl
    | some (v, false) => rfl

theorem close_apply (chan : ChanId) (s : EngineState) :
    close chan s = match s.heap.closeChan chan with
      | .ok h => .done ({ s with heap := h }.notify (.channel chan)) (.ok ())
      | .error e => ofFailure e s := by
  rw [close, bind_apply]
  cases hr : s.heap.closeChan chan with
  | error e =>
    rw [changeHeap_error hr]
    cases e <;> rfl
  | ok h =>
    rw [changeHeap_ok hr]
    rfl

end Eval

end ScriptEngine
