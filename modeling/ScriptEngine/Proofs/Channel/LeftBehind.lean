import ScriptEngine.Proofs.Channel.Rendezvous

/-! # What is left behind on an unbuffered channel

A value on an unbuffered channel passes from a sender to a receiver who are both there.  Two kinds of
senders may be gone before their value is received.

* A send fails because the channel is closed, because its value is of another type, or because it is
  interrupted while it waits.  Nothing is left of it (`failed_send_leaves_nothing`), with one
  exception: a send on an unbuffered channel leaves its value before it waits for the receipt, and an
  interrupt does not take the value back (`interrupted_send_is_received`).
* A send that does not wait is made if and only if more receivers are registered than values have been
  left (`sends_now_iff`).  It does not know whose the registrations are, and whether whoever is registered
  goes on to receive; `Proofs.Channel.Commitment` says what follows if they do, and if they do not.
-/
namespace ScriptEngine
namespace ChannelRun

variable {id : ChanId} {capacity : Nat} {elemType : Option HostType} {h : Heap} {es : List Event}

/-! ## Sends that fail -/

/-- A value that was accepted is in the buffer, or was handed out. -/
theorem Run.buffered_or_taken {s : Config} (hnew : h.chans.get? id = some { capacity, elemType })
    (hr : Run id ⟨h, []⟩ es s) {i : Nat} {w : Value} (hi : es[i]? = some (.accepted w)) :
    ∃ c, s.heap.chans.get? id = some c ∧ (Buffered es c.buffer i w ∨ Taken es i w) := by
  obtain ⟨c, hc, -, hl⟩ := Run.lined hnew hr
  refine ⟨c, hc, ?_⟩
  obtain ⟨hmem, -⟩ | ⟨-, htaken⟩ := Run.fate hnew hr hi
  · obtain ⟨k, hk, hplace⟩ := List.getElem_of_mem hmem
    have hkb : k < c.buffer.length := hl.values.length_eq ▸ hk
    have hvalue := List.Forall₂.get hl.values hk hkb
    simp only [List.get_eq_getElem] at hvalue
    rw [hplace, hi] at hvalue
    cases hvalue
    exact .inl ⟨k, (List.getElem?_eq_getElem hk).trans (congrArg some hplace),
      List.getElem?_eq_getElem hkb⟩
  · exact .inr htaken

/-- A computation that has left one value has left none besides. -/
theorem accepted_once {before after : Record} {w : Value} (hbefore : visible before = [])
    (hafter : visible after = []) {i : Nat} {w' : Value}
    (hi : (before ++ mine [.accepted w] ++ after)[i]? = some (true, .accepted w')) :
    i = before.length := by
  by_contra hne
  by_cases hlt : i < before.length
  · rw [List.append_assoc, List.getElem?_append_left hlt] at hi
    exact not_accepted_of_visible hbefore i w' hi
  · have hge : (before ++ mine [.accepted w]).length ≤ i := by
      rw [List.length_append]
      show before.length + 1 ≤ i
      omega
    rw [List.getElem?_append_right hge] at hi
    exact not_accepted_of_visible hafter _ w' hi

/-- Of the values that were ever accepted, none is of the computation's own. -/
def LeftNothing (past : Record) : Prop :=
  ∀ (i : Nat) (w : Value), past[i]? ≠ some (true, .accepted w)

/-- The one value that the computation has left is in the buffer, or was handed out. -/
def LeftOne (past : Record) (c : Channel) : Prop :=
  ∃ i w, past[i]? = some (true, .accepted w) ∧
    (∀ i' w', past[i']? = some (true, .accepted w') → i' = i) ∧
    (Buffered past.events c.buffer i w ∨ Taken past.events i w)

/-- **A send that fails has left nothing, unless it was interrupted on an unbuffered channel.**  The
channel was made empty, and any number of operations `others` are under way on it; more may begin, and
all may move whenever the send waits.  If the send fails, none of the values that were ever accepted is
its own, so that no receive gives one; or else the channel is unbuffered, the send was interrupted, and
the one value that it has left is in the buffer or was handed out. -/
theorem failed_send_leaves_nothing (rounds : Nat) (v : Value) (signal : SignalId)
    {others : List Stage} {s : EngineState} (hnew : h.chans.get? id = some { capacity, elemType })
    (hr : Run id ⟨h, []⟩ es ⟨s.heap, others⟩) :
    Plays id (fun (r : Except EvalError Unit) s' _ _ past => ∀ e, r = .error e →
        LeftNothing past ∨ capacity = 0 ∧ e.fault = .interrupt ∧
          ∃ c, s'.heap.chans.get? id = some c ∧ LeftOne past c)
      (Eval.send rounds id v signal s) s [] others (theirs es) := by
  have hstart : Run id ⟨h, []⟩ (theirs es).events ⟨s.heap, others⟩ := by
    rw [events_theirs]
    exact hr
  have hsend := plays_send rounds v signal rfl (visible_theirs es) hstart
  refine (hsend.together (by simpa using hstart)).mono ?_
  rintro r s' own others past ⟨⟨-, -, hpost⟩, hrun⟩ e rfl
  obtain hnone | ⟨hinterrupt, w, before, after, rfl, hleft⟩ := hpost
  · exact .inl (not_accepted_of_visible hnone)
  · -- The capacity never changes, so the channel was unbuffered from the first.
    obtain ⟨m, hm, hcap⟩ := hleft.unbuffered
    obtain ⟨d, hd, hb⟩ := Run.books hnew hm
    rw [Heap.chan_eq hd] at hcap
    have hplace : (before ++ mine [.accepted w] ++ after)[before.length]? =
        some (true, .accepted w) := by
      rw [List.append_assoc, List.getElem?_append_right (Nat.le_refl _), Nat.sub_self]
      rfl
    have hevent : (before ++ mine [.accepted w] ++ after).events[before.length]? =
        some (.accepted w) := by
      rw [Record.events, List.getElem?_map, hplace]
      rfl
    obtain ⟨c, hc, hfate⟩ := Run.buffered_or_taken hnew hrun hevent
    exact .inr ⟨hb.capacity_eq.symm.trans hcap, hinterrupt, c, hc, before.length, w, hplace,
      fun _ _ hi => accepted_once hleft.before_silent hleft.after_silent hi, hfate⟩

/-- A task that is going to send on the unbuffered channel of bytes, which is closed. -/
def lateSender : EngineState :=
  { sender with heap := byteChannel.modifyChan 0 fun c => { c with closed := true } }

/-- A send on a closed channel fails, and it has left nothing. -/
theorem failed_send_leaves_nothing_closed : ∃ done e es own,
    Eval.send 2 0 (.int 300) 0 lateSender = .done done (.error e) ∧
      Run 0 ⟨lateSender.heap, []⟩ es ⟨done.heap, own⟩ ∧
      LeftNothing (theirs [.closed] ++ mine es) := by
  have hclose : Run 0 ⟨byteChannel, []⟩ [.closed] ⟨lateSender.heap, []⟩ := (Move.close rfl).run
  obtain ⟨es, own, hrun, hfailed⟩ :=
    failed_send_leaves_nothing 2 (.int 300) 0 (s := lateSender) rfl hclose
  obtain hnothing | ⟨-, hinterrupt, -⟩ := hfailed _ rfl
  · exact ⟨_, _, es, own, rfl, hrun, hnothing⟩
  · cases hinterrupt

/-- A task that is going to send on the unbuffered channel of bytes and may be interrupted. -/
def interruptible : EngineState := { sender with signals := Store.push {} {} }

/-- **A send that was interrupted may be received all the same.** -/
theorem interrupted_send_is_received : ∃ waiting resume done h',
    Eval.send 2 0 (.int 300) 0 interruptible = .wait waiting (.pickup 0 1 0) resume ∧
      resume (waiting.cancel 0) = .done done (.error { fault := .interrupt }) ∧
      done.heap.tryRecv 0 = .ok (some (.int 44, true), h') :=
  ⟨_, _, _, _, rfl, rfl, rfl⟩

/-! ## Sends that do not wait -/

/-- **A send that does not wait is made if and only if more receivers are registered than values have
been left**, for any number of operations on an unbuffered channel that is open. -/
theorem sends_now_iff {s : Config} {c : Channel} {v w : Value} {h₁ : Heap}
    (hnew : h.chans.get? id = some { capacity := 0, elemType }) (hr : Run id ⟨h, []⟩ es s)
    (hc : s.heap.chans.get? id = some c) (hopen : c.closed = false)
    (hv : s.heap.chanValue id v = .ok (w, h₁)) :
    (∃ h', s.heap.trySend id v = .ok (true, h')) ↔ c.buffer.length < guards s.ops := by
  obtain ⟨d, hd, hb⟩ := Run.books hnew hr
  cases hc.symm.trans hd
  have hready : c.isReady = true ↔ c.buffer.length < guards s.ops := by
    rw [Channel.isReady, if_pos hb.capacity_eq, hb.waiting_eq, decide_eq_true_iff]
  rw [← hready]
  have hc₁ : h₁.chan id = c := Heap.chan_eq (by rw [Heap.chanValue_chans hv]; exact hc)
  constructor
  · exact fun ⟨h', hs⟩ => (Heap.trySend_eq_true hc hv hs).2.1
  · intro hready
    refine ⟨h₁.modifyChan id (·.accept w), ?_⟩
    rw [Heap.trySend, hv]
    simp only [bind, Except.bind, hc₁, hopen, hready, Bool.false_eq_true, if_false, if_true]
    rfl

end ChannelRun
end ScriptEngine
