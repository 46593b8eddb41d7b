import ScriptEngine.Proofs.Channel.Conservation
import ScriptEngine.Proofs.Heap.Zone
import ScriptEngine.Proofs.Task.Equations

/-! # Trying cases in order

A `select` tries the operations of its cases in order.  Whether one can be made without waiting can be
read off its channel (`Heap.Ready`); one that is made moves a single value or none (`Heap.Makes`), and one
that is not may still fail, if it is a send (`Heap.Rejects`).  A pass over the cases takes no time: it goes past
the operations that are neither ready nor fail (`Heap.Declines`), and makes the next one, or fails with it, or
finds that there is none (`pass_tryCases`).  Besides the operation that is made it leaves all channels as they
are, although values are converted for every send that is tried.
-/
namespace ScriptEngine
namespace Heap
variable {h h' : Heap} {chan : ChanId} {v : Value}

/-- The operation of a case can be made without waiting. -/
def Ready (h : Heap) : ChanId × Option Value → Prop
  | (chan, some _) => (h.chan chan).closed = false ∧ (h.chan chan).isReady = true
  | (chan, none) => (h.chan chan).buffer ≠ [] ∨ (h.chan chan).closed = true

/-- What becomes of channels if one of them changes. -/
def onlyAt (chan : ChanId) (f : Channel → Channel) : ChanId → Channel → Channel :=
  fun other c => if other = chan then f c else c

/-- Every channel becomes what `f` makes of it. -/
def ChansBecome (h : Heap) (f : ChanId → Channel → Channel) (h' : Heap) : Prop :=
  ∀ chan, h'.chans.get? chan = (h.chans.get? chan).map (f chan)

/-- Objects other than channels may have been added. -/
def GrowsBesides (h h' : Heap) : Prop := Grows { h with chans := h'.chans } h'

/-- **The operation of a case is made**: with this it receives, and this becomes of channels. -/
inductive Makes (h : Heap) : ChanId × Option Value → Option (Value × Bool) →
    (ChanId → Channel → Channel) → Prop where
  /-- The value is converted to what the channel is for, and accepted. -/
  | send {chan : ChanId} {v w : Value} {h₁ h₂ : Heap} (hready : h.Ready (chan, some v))
      (hgrows : h.GrowsBesides h₁) (hw : h₁.convertTo v (h.chan chan).elemType = .ok (w, h₂)) :
      Makes h (chan, some v) none (onlyAt chan (·.accept w))
  /-- The oldest value is handed out. -/
  | take {chan : ChanId} {v : Value} {rest : List Value} (hbuffer : (h.chan chan).buffer = v :: rest) :
      Makes h (chan, none) (some (v, true))
        (onlyAt chan fun c => { c with buffer := rest, received := c.received + 1 })
  /-- The channel is closed and drained, so a zero value is given and no channel changes. -/
  | drained {chan : ChanId} {z : Value} {h₁ h₂ : Heap} (hbuffer : (h.chan chan).buffer = [])
      (hclosed : (h.chan chan).closed = true) (hgrows : h.GrowsBesides h₁)
      (hz : h₁.zeroElement (h.chan chan).elemType = .ok (z, h₂)) :
      Makes h (chan, none) (some (z, false)) fun _ c => c

/-- **The operation of a case fails**: it is a send of what does not fit the channel, or on a closed one. -/
inductive Rejects (h : Heap) : ChanId × Option Value → Fault → Prop where
  | unfit {chan : ChanId} {v : Value} {f : Fault} {h₁ : Heap} (hgrows : h.GrowsBesides h₁)
      (hv : h₁.convertTo v (h.chan chan).elemType = .error (.fault f)) : Rejects h (chan, some v) f
  | closed {chan : ChanId} {v w : Value} {h₁ h₂ : Heap} (hgrows : h.GrowsBesides h₁)
      (hw : h₁.convertTo v (h.chan chan).elemType = .ok (w, h₂)) (hclosed : (h.chan chan).closed = true) :
      Rejects h (chan, some v) (.invalidOperation "send on closed channel")

/-- **The operation of a case has to wait**: it is not ready, and it does not fail either, since a send is
one on an open channel, of a value that fits. -/
structure Declines (h : Heap) (op : ChanId × Option Value) : Prop where
  not_ready : ¬h.Ready op
  fits : ∀ v, op.2 = some v → (h.chan op.1).closed = false ∧
    ∃ h₁ w h₂, h.GrowsBesides h₁ ∧ h₁.convertTo v (h.chan op.1).elemType = .ok (w, h₂)

theorem ChansBecome.of_eq (hchans : h'.chans = h.chans) : h.ChansBecome (fun _ c => c) h' := by
  intro chan
  rw [hchans]
  exact Option.map_id'.symm

theorem ChansBecome.modify (hchans : h'.chans = h.chans) (chan : ChanId) (f : Channel → Channel) :
    h.ChansBecome (onlyAt chan f) (h'.modifyChan chan f) := by
  intro other
  show (h'.chans.modify chan f).get? other = _
  rw [Store.get?_modify_eq, hchans]
  split
  · subst other
    congr 1
    funext c
    exact (if_pos rfl).symm
  · rw [show onlyAt chan f other = id from funext fun c => if_neg ‹_›, Option.map_id]
    rfl

theorem Grows.besides (hg : h.Grows h') : h.GrowsBesides h' :=
  ⟨hg.lists, hg.maps, hg.handles, hg.funcs, rfl, hg.scopes⟩

theorem GrowsBesides.after {h₁ : Heap} (hg : h.Grows h') (hg' : h'.GrowsBesides h₁) :
    h.GrowsBesides h₁ :=
  ⟨hg.lists.trans hg'.lists, hg.maps.trans hg'.maps, hg.handles.trans hg'.handles,
    hg'.funcs.trans hg.funcs, rfl, hg'.scopes.trans hg.scopes⟩

/-! ## One operation -/

/-- A value was accepted. -/
theorem makes_of_trySend (hs : h.trySend chan v = .ok (true, h')) :
    ∃ f, h.Makes (chan, some v) none f ∧ h.ChansBecome f h' := by
  obtain ⟨⟨w, h₂⟩, hw, hs⟩ := Outcome.bind_eq_ok.mp hs
  have hchan : h₂.chan chan = h.chan chan := by rw [Heap.chan, chanValue_chans hw, Heap.chan]
  simp only [hchan] at hs
  split at hs
  · cases hs
  · split at hs
    · rename_i hopen hready
      cases hs
      exact ⟨_, .send ⟨Bool.not_eq_true _ ▸ hopen, hready⟩ (Grows.refl h).besides hw,
        .modify (chanValue_chans hw) chan _⟩
    · cases hs

/-- No value was accepted, since the channel was not ready. -/
theorem declines_of_trySend (hs : h.trySend chan v = .ok (false, h')) :
    h.Grows h' ∧ h.Declines (chan, some v) := by
  obtain ⟨⟨w, h₂⟩, hw, hs⟩ := Outcome.bind_eq_ok.mp hs
  have hchan : h₂.chan chan = h.chan chan := by rw [Heap.chan, chanValue_chans hw, Heap.chan]
  simp only [hchan] at hs
  split at hs
  · cases hs
  · rename_i hopen
    split at hs
    · cases hs
    · rename_i hready
      cases hs
      refine ⟨grows_convertTo hw, fun h => hready h.2, ?_⟩
      rintro _ ⟨⟩
      exact ⟨Bool.not_eq_true _ ▸ hopen, h, w, h', (Grows.refl h).besides, hw⟩

/-- No value was accepted, but the send failed. -/
theorem rejects_of_trySend {f : Fault} (hs : h.trySend chan v = .error (.fault f)) :
    h.Rejects (chan, some v) f := by
  obtain hv | ⟨⟨w, h₂⟩, hw, hs⟩ := Outcome.bind_eq_error.mp hs
  · exact .unfit (Grows.refl h).besides hv
  · have hchan : h₂.chan chan = h.chan chan := by rw [Heap.chan, chanValue_chans hw, Heap.chan]
    simp only [hchan] at hs
    split at hs
    · rename_i hclosed
      cases hs
      exact .closed (Grows.refl h).besides hw hclosed
    · split at hs <;> cases hs

/-- Something was received. -/
theorem makes_of_tryRecv {received : Value × Bool} (hr : h.tryRecv chan = .ok (some received, h')) :
    ∃ f, h.Makes (chan, none) (some received) f ∧ h.ChansBecome f h' := by
  simp only [tryRecv, Channel.handOut?] at hr
  cases hb : (h.chan chan).buffer with
  | cons w rest =>
    rw [hb] at hr
    cases hr
    refine ⟨_, .take hb, fun other => ?_⟩
    rw [ChansBecome.modify rfl chan _ other]
    -- The buffer that is left is the one of the channel in question.
    cases hc : h.chans.get? other with
    | none => rfl
    | some c =>
      by_cases hother : other = chan
      · subst other
        rw [chan_eq hc] at hb
        simp [onlyAt, hb]
      · simp [onlyAt, hother]
  | nil =>
    rw [hb] at hr
    simp only at hr
    split at hr
    · obtain ⟨⟨z, h₂⟩, hz, he⟩ := Outcome.bind_eq_ok.mp hr
      cases he
      rw [convertTo_nil] at hz
      exact ⟨_, .drained hb ‹_› (Grows.refl h).besides hz, .of_eq (grows_zeroElement hz).chans⟩
    · cases hr

/-- Nothing was received, and there was nothing to receive. -/
theorem declines_of_tryRecv (hr : h.tryRecv chan = .ok (none, h')) :
    h' = h ∧ h.Declines (chan, none) := by
  refine ⟨tryRecv_eq_none hr, fun hready => ?_, fun v hv => by cases hv⟩
  simp only [tryRecv, Channel.handOut?] at hr
  cases hb : (h.chan chan).buffer with
  | cons w rest =>
    rw [hb] at hr
    cases hr
  | nil =>
    obtain hvalue | hclosed := hready
    · exact hvalue hb
    · rw [hb, hclosed] at hr
      obtain ⟨⟨z, h₂⟩, -, he⟩ := Outcome.bind_eq_ok.mp hr
      cases he

/-- Values that were converted before make no difference. -/
theorem ready_iff_of_chans (hchans : h'.chans = h.chans) (op : ChanId × Option Value) :
    h'.Ready op ↔ h.Ready op := by
  have hchan (chan : ChanId) : h'.chan chan = h.chan chan := by rw [Heap.chan, hchans, Heap.chan]
  obtain ⟨chan, outgoing⟩ := op
  cases outgoing <;> simp only [Ready, hchan]

theorem Grows.chan_eq (hg : h.Grows h') (chan : ChanId) : h'.chan chan = h.chan chan := by
  rw [Heap.chan, hg.chans, Heap.chan]

theorem Makes.of_grows (hg : h.Grows h') {op : ChanId × Option Value}
    {received : Option (Value × Bool)} {f : ChanId → Channel → Channel}
    (hm : h'.Makes op received f) : h.Makes op received f := by
  cases hm with
  | send hready hgrows hw =>
    rw [hg.chan_eq] at hw
    exact .send ((ready_iff_of_chans hg.chans _).mp hready) (hgrows.after hg) hw
  | take hbuffer => exact .take (hg.chan_eq _ ▸ hbuffer)
  | drained hbuffer hclosed hgrows hz =>
    rw [hg.chan_eq] at hbuffer hclosed hz
    exact .drained hbuffer hclosed (hgrows.after hg) hz

theorem Rejects.of_grows (hg : h.Grows h') {op : ChanId × Option Value} {f : Fault}
    (hr : h'.Rejects op f) : h.Rejects op f := by
  cases hr with
  | unfit hgrows hv => exact .unfit (hgrows.after hg) (hg.chan_eq _ ▸ hv)
  | closed hgrows hw hclosed => exact .closed (hgrows.after hg) (hg.chan_eq _ ▸ hw) (hg.chan_eq _ ▸ hclosed)

theorem Declines.of_grows (hg : h.Grows h') {op : ChanId × Option Value} (hd : h'.Declines op) :
    h.Declines op := by
  refine ⟨fun hready => hd.not_ready ((ready_iff_of_chans hg.chans op).mpr hready), fun v hv => ?_⟩
  obtain ⟨hopen, h₁, w, h₂, hgrows, hw⟩ := hd.fits v hv
  exact ⟨hg.chan_eq _ ▸ hopen, h₁, w, h₂, hgrows.after hg, hg.chan_eq _ ▸ hw⟩

end Heap

/-! ## A pass over the cases -/

/-- What a pass over the operations comes to, which are numbered from `index` on. -/
inductive Pass (ops : List (ChanId × Option Value)) (index : Nat) (s : EngineState) :
    Step (Except EvalError (Option (Nat × Option (Value × Bool)))) → Prop where
  /-- The first operation that need not wait has been made. -/
  | made {i : Nat} {op : ChanId × Option Value} {received : Option (Value × Bool)}
      {f : ChanId → Channel → Channel} {t : EngineState}
      (hfirst : ∀ j < i, ∀ o, ops[j]? = some o → s.heap.Declines o) (hop : ops[i]? = some op)
      (hmakes : s.heap.Makes op received f) (hchans : s.heap.ChansBecome f t.heap)
      (hheld : t.held = s.held) (hcurrent : t.current = s.current)
      (hsignals : ∀ signal, t.isCancelled signal = s.isCancelled signal) :
      Pass ops index s (.done t (.ok (some (index + i, received))))
  /-- All of them have to wait. -/
  | nothing {h : Heap} (hnone : ∀ op ∈ ops, s.heap.Declines op) (hgrows : s.heap.Grows h) :
      Pass ops index s (.done { s with heap := h } (.ok none))
  /-- The first operation that need not wait is a send that fails. -/
  | failed {i : Nat} {op : ChanId × Option Value} {f : Fault} {h : Heap}
      (hfirst : ∀ j < i, ∀ o, ops[j]? = some o → s.heap.Declines o) (hop : ops[i]? = some op)
      (hrejects : s.heap.Rejects op f) (hgrows : s.heap.Grows h) :
      Pass ops index s (.done { s with heap := h } (.error { fault := f }))
  /-- A value is too large to be held. -/
  | stopped {h : Heap} (hgrows : s.heap.Grows h) :
      Pass ops index s (.stop { s with heap := h } (.breakDown (some Failure.overflowMessage)))

namespace Pass
variable {op : ChanId × Option Value} {rest : List (ChanId × Option Value)} {index : Nat}
  {s : EngineState}

/-- One more operation before those that have to wait. -/
theorem declines_cons {h : Heap} (hg : s.heap.Grows h) (hop : s.heap.Declines op) {i : Nat}
    (hfirst : ∀ j < i, ∀ o, rest[j]? = some o → h.Declines o) :
    ∀ j < i + 1, ∀ o, (op :: rest)[j]? = some o → s.heap.Declines o := by
  intro j hj o ho
  cases j with
  | zero =>
    cases ho
    exact hop
  | succ j => exact (hfirst j (Nat.lt_of_succ_lt_succ hj) o ho).of_grows hg

/-- The first operation had to wait. -/
theorem later {x : Step (Except EvalError (Option (Nat × Option (Value × Bool))))} {h : Heap}
    (hx : Pass rest (index + 1) { s with heap := h } x) (hdeclines : s.heap.Declines op)
    (hg : s.heap.Grows h) : Pass (op :: rest) index s x := by
  cases hx with
  | @made i _ _ _ _ hfirst hop hmakes hchans hheld hcurrent hsignals =>
    rw [show index + 1 + i = index + (i + 1) by omega]
    refine .made (declines_cons hg hdeclines hfirst) hop (hmakes.of_grows hg) ?_ hheld hcurrent hsignals
    intro chan
    rw [hchans chan, hg.chans]
  | nothing hnone hgrows =>
    refine .nothing (List.forall_mem_cons.mpr ⟨hdeclines, fun o ho => ?_⟩) (hg.trans hgrows)
    exact (hnone o ho).of_grows hg
  | failed hfirst hop hrejects hgrows =>
    exact .failed (declines_cons hg hdeclines hfirst) hop (hrejects.of_grows hg) (hg.trans hgrows)
  | stopped hgrows => exact .stopped (hg.trans hgrows)

/-- The first operation was made. -/
theorem first {received : Option (Value × Bool)} {t : EngineState}
    (hmade : ∃ f, s.heap.Makes op received f ∧ s.heap.ChansBecome f t.heap) (hheld : t.held = s.held)
    (hcurrent : t.current = s.current)
    (hsignals : ∀ signal, t.isCancelled signal = s.isCancelled signal) :
    Pass (op :: rest) index s (.done t (.ok (some (index, received)))) := by
  obtain ⟨f, hmakes, hchans⟩ := hmade
  exact .made (fun j hj => absurd hj (Nat.not_lt_zero j)) rfl hmakes hchans hheld hcurrent hsignals

/-- The first operation failed, or broke down. -/
theorem refused {e : Failure} (he : ∀ f, e = .fault f → s.heap.Rejects op f) :
    Pass (op :: rest) index s
      (Eval.ofFailure e s : Step (Except EvalError (Option (Nat × Option (Value × Bool))))) := by
  cases e with
  | fault f =>
    exact .failed (i := 0) (fun j hj => absurd hj (Nat.not_lt_zero j)) rfl (he f rfl) (.refl _)
  | overflow => exact .stopped (.refl _)

end Pass

namespace Eval

theorem tryCases_send (chan : ChanId) (v : Value) (rest : List (ChanId × Option Value)) (index : Nat)
    (s : EngineState) :
    tryCases ((chan, some v) :: rest) index s = match s.heap.trySend chan v with
      | .ok (true, h) =>
        .done ({ s with heap := h }.notify (.channel chan)) (.ok (some (index, none)))
      | .ok (false, h) => tryCases rest (index + 1) { s with heap := h }
      | .error e => ofFailure e s := by
  rw [tryCases, bind_apply, trySend_apply]
  cases s.heap.trySend chan v with
  | ok r =>
    obtain ⟨_ | _, h⟩ := r
    all_goals
      dsimp only
      rw [Step.bind_of_done, andThen_ok]
      rfl
  | error e => cases e <;> rfl

theorem tryCases_recv (chan : ChanId) (rest : List (ChanId × Option Value)) (index : Nat)
    (s : EngineState) :
    tryCases ((chan, none) :: rest) index s = match s.heap.tryRecv chan with
      | .ok (some (v, true), h) =>
        .done ({ s with heap := h }.notify (.channel chan)) (.ok (some (index, some (v, true))))
      | .ok (some (v, false), h) =>
        .done { s with heap := h } (.ok (some (index, some (v, false))))
      | .ok (none, h) => tryCases rest (index + 1) { s with heap := h }
      | .error e => ofFailure e s := by
  rw [tryCases, bind_apply, tryRecv_apply]
  cases s.heap.tryRecv chan with
  | ok r =>
    obtain ⟨_ | ⟨v, _ | _⟩, h⟩ := r
    all_goals
      dsimp only
      rw [Step.bind_of_done, andThen_ok]
      try rfl
  | error e => cases e <;> rfl

end Eval

/-- **A pass makes the first operation that need not wait**, or fails with it, and changes no channel
besides. -/
theorem pass_tryCases (ops : List (ChanId × Option Value)) (index : Nat) (s : EngineState) :
    Pass ops index s (Eval.tryCases ops index s) := by
  induction ops generalizing index s with
  | nil => exact .nothing (List.forall_mem_nil _) (.refl _)
  | cons op rest ih =>
    obtain ⟨chan, outgoing⟩ := op
    cases outgoing with
    | some v =>
      rw [Eval.tryCases_send]
      split
      · exact .first (Heap.makes_of_trySend ‹_›) rfl rfl fun _ => rfl
      · obtain ⟨hgrows, hdeclines⟩ := Heap.declines_of_trySend ‹_›
        exact (ih (index + 1) _).later hdeclines hgrows
      · rename_i he
        refine .refused fun f hf => Heap.rejects_of_trySend ?_
        rw [he, hf]
    | none =>
      rw [Eval.tryCases_recv]
      split
      · exact .first (Heap.makes_of_tryRecv ‹_›) rfl rfl fun _ => rfl
      · exact .first (Heap.makes_of_tryRecv ‹_›) rfl rfl fun _ => rfl
      · obtain ⟨rfl, hdeclines⟩ := Heap.declines_of_tryRecv ‹_›
        exact (ih (index + 1) s).later hdeclines (.refl _)
      · rename_i he
        refine .refused fun f hf => absurd he ?_
        rw [hf]
        exact Heap.tryRecv_ne_fault f

end ScriptEngine
