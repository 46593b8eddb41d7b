import ScriptEngine.Proofs.Channel.Choices

/-! # Receivers that stay until they have received

A send that does not wait is made on an unbuffered channel if more receivers are registered than values have
been left.  Nothing strands there as long as every receiver who is registered goes on to receive: a receive
does, and so does a `select` that is registered once and tries that receive first (`Commits`).  A `select` that
is registered on two channels does not (`registered_twice_strands`).

So every value in the buffer is **claimed** (`Channel.Claimed`): by the sender who waits for its receipt, or
else there are more registered receivers than values before it.  This is an agreement between the channel and
the `Party`s that wait, and every operation keeps it from pause to pause if all others keep it in between
(`Meets`).  Hence it is true at all times when tasks take turns at such operations (`Interleaves`), and when
nobody is inside a send and nobody is registered, nothing is left (`nothing_stranded`).
-/
namespace ScriptEngine

open EngineState (Undisturbed)

/-! ## Claims -/

/-- Who waits on an unbuffered channel: a sender for the receipt of the value with this ticket, or a registered
receiver. -/
inductive Party where
  | sender (ticket : Nat)
  | receiver
deriving DecidableEq

/-- Whom a wait makes a party to a channel. -/
def Wait.parties (id : ChanId) : Wait → List Party
  | .pickup chan ticket _ => if chan = id then [.sender ticket] else []
  | .recv chan _ => List.replicate ([chan].count id) .receiver
  | .cases ops _ => List.replicate ((receiverChannels ops).count id) .receiver
  | _ => []

/-- **The values on an unbuffered channel that is open are claimed** by these parties, apart from whom there are
so many registrations that are about to be withdrawn. -/
structure Channel.Claimed (c : Channel) (leaving : Nat) (parties : List Party) : Prop where
  unbuffered : c.capacity = 0
  opened : c.closed = false
  sent_eq : c.sent = c.received + c.buffer.length
  waiting_eq : c.waiting = parties.count .receiver + leaving
  claimed : ∀ k < c.buffer.length, k < parties.count .receiver ∨ .sender (c.received + k + 1) ∈ parties

namespace Channel.Claimed
variable {c : Channel} {leaving : Nat} {parties others : List Party}

theorem perm (h : c.Claimed leaving parties) (hperm : parties.Perm others) : c.Claimed leaving others where
  unbuffered := h.unbuffered
  opened := h.opened
  sent_eq := h.sent_eq
  waiting_eq := by rw [h.waiting_eq, hperm.count_eq]
  claimed k hk := by
    rw [← hperm.count_eq, ← hperm.mem_iff]
    exact h.claimed k hk

/-- A sender leaves a value and claims it. -/
theorem offer (h : c.Claimed leaving parties) (v : Value) :
    (c.accept v).Claimed leaving (.sender (c.sent + 1) :: parties) where
  unbuffered := h.unbuffered
  opened := h.opened
  sent_eq := by simp [accept, h.sent_eq, Nat.add_assoc]
  waiting_eq := by simp [accept, h.waiting_eq]
  claimed k hk := by
    by_cases hlast : k = c.buffer.length
    · subst hlast
      exact .inr (by simp [accept, h.sent_eq])
    · have hbefore : k < c.buffer.length := by
        simp only [accept, List.length_append, List.length_singleton] at hk
        omega
      obtain hreceiver | hsender := h.claimed k hbefore
      · exact .inl (by simpa using hreceiver)
      · exact .inr (List.mem_cons_of_mem _ hsender)

/-- A value is left without waiting, since one more receiver is registered. -/
theorem accept (h : c.Claimed 0 parties) (hready : c.isReady = true) (v : Value) :
    (c.accept v).Claimed 0 parties where
  unbuffered := h.unbuffered
  opened := h.opened
  sent_eq := by simp [Channel.accept, h.sent_eq, Nat.add_assoc]
  waiting_eq := h.waiting_eq
  claimed k hk := by
    have hroom : c.buffer.length < parties.count .receiver := by
      rw [isReady, if_pos h.unbuffered, h.waiting_eq, decide_eq_true_iff] at hready
      exact hready
    simp only [Channel.accept, List.length_append, List.length_singleton] at hk
    exact .inl (by omega)

section
variable {v : Value} {rest : List Value} (hbuffer : c.buffer = v :: rest)
include hbuffer

/-- Somebody who is not registered receives a value. -/
theorem handOut (h : c.Claimed leaving parties) :
    { c with buffer := rest, received := c.received + 1 }.Claimed leaving parties where
  unbuffered := h.unbuffered
  opened := h.opened
  sent_eq := by
    have hsent := h.sent_eq
    rw [hbuffer, List.length_cons] at hsent
    show c.sent = c.received + 1 + rest.length
    omega
  waiting_eq := h.waiting_eq
  claimed k hk := by
    obtain hreceiver | hsender := h.claimed (k + 1) (by rw [hbuffer]; exact Nat.succ_lt_succ hk)
    · exact .inl (by omega)
    · exact .inr (by rw [show c.received + 1 + k + 1 = c.received + (k + 1) + 1 by omega]; exact hsender)

/-- A registered receiver receives a value, and is going to withdraw. -/
theorem take (h : c.Claimed leaving (.receiver :: parties)) :
    { c with buffer := rest, received := c.received + 1 }.Claimed (leaving + 1) parties where
  unbuffered := h.unbuffered
  opened := h.opened
  sent_eq := (h.handOut hbuffer).sent_eq
  waiting_eq := by
    show c.waiting = _
    rw [h.waiting_eq, List.count_cons_self]
    omega
  claimed k hk := by
    obtain hreceiver | hsender := h.claimed (k + 1) (by rw [hbuffer]; exact Nat.succ_lt_succ hk)
    · rw [List.count_cons_self] at hreceiver
      exact .inl (by omega)
    · rw [show c.received + (k + 1) + 1 = c.received + 1 + k + 1 by omega] at hsender
      exact .inr (List.mem_of_ne_of_mem Party.noConfusion hsender)

end

/-- A registered receiver may withdraw while there is no value. -/
theorem leave (h : c.Claimed leaving (.receiver :: parties)) (hbuffer : c.buffer = []) :
    c.Claimed (leaving + 1) parties where
  unbuffered := h.unbuffered
  opened := h.opened
  sent_eq := h.sent_eq
  waiting_eq := by
    rw [h.waiting_eq, List.count_cons_self]
    omega
  claimed k hk := by
    rw [hbuffer] at hk
    cases hk

/-- A sender whose value has been received has nothing to claim. -/
theorem settle {ticket : Nat} (h : c.Claimed leaving (.sender ticket :: parties))
    (hticket : ticket ≤ c.received) : c.Claimed leaving parties where
  unbuffered := h.unbuffered
  opened := h.opened
  sent_eq := h.sent_eq
  waiting_eq := by simpa using h.waiting_eq
  claimed k hk := by
    obtain hreceiver | hsender := h.claimed k hk
    · exact .inl (by simpa using hreceiver)
    · refine .inr (List.mem_of_ne_of_mem ?_ hsender)
      rintro ⟨⟩
      omega

theorem register (h : c.Claimed leaving parties) : c.register.Claimed leaving (.receiver :: parties) where
  unbuffered := h.unbuffered
  opened := h.opened
  sent_eq := h.sent_eq
  waiting_eq := by
    show c.waiting + 1 = _
    rw [h.waiting_eq, List.count_cons_self]
    omega
  claimed k hk := by
    obtain hreceiver | hsender := h.claimed k hk
    · exact .inl (by rw [List.count_cons_self]; omega)
    · exact .inr (List.mem_cons_of_mem _ hsender)

theorem withdraw (h : c.Claimed (leaving + 1) parties) : c.withdraw.Claimed leaving parties where
  unbuffered := h.unbuffered
  opened := h.opened
  sent_eq := h.sent_eq
  waiting_eq := by
    show c.waiting - 1 = _
    rw [h.waiting_eq]
    omega
  claimed := h.claimed

end Channel.Claimed

namespace Heap
variable {h h' : Heap} {id chan : ChanId} {leaving : Nat} {parties : List Party}

/-- The channel is in the heap, and its values are claimed. -/
def Claimed (h : Heap) (id : ChanId) (leaving : Nat) (parties : List Party) : Prop :=
  ∃ c, h.chans.get? id = some c ∧ c.Claimed leaving parties

namespace Claimed

theorem perm {others : List Party} (hc : h.Claimed id leaving parties) (hperm : parties.Perm others) :
    h.Claimed id leaving others :=
  have ⟨c, hget, hclaimed⟩ := hc
  ⟨c, hget, hclaimed.perm hperm⟩

theorem of_eq (hc : h.Claimed id leaving parties) (hchan : h'.chans.get? id = h.chans.get? id) :
    h'.Claimed id leaving parties :=
  have ⟨c, hget, hclaimed⟩ := hc
  ⟨c, hchan.trans hget, hclaimed⟩

/-- Another channel was changed. -/
theorem of_ne (hc : h.Claimed id leaving parties) (hne : chan ≠ id) (f : Channel → Channel) :
    (h.modifyChan chan f).Claimed id leaving parties :=
  hc.of_eq (Store.get?_modify_of_ne hne.symm)

/-- This channel was changed. -/
theorem modify {leaving' : Nat} {parties' : List Party} {f : Channel → Channel}
    (hc : h.Claimed id leaving parties)
    (hf : ∀ c, h.chans.get? id = some c → c.Claimed leaving parties → (f c).Claimed leaving' parties') :
    (h.modifyChan id f).Claimed id leaving' parties' :=
  have ⟨c, hget, hclaimed⟩ := hc
  ⟨f c, get?_modifyChan hget f, hf c hget hclaimed⟩

/-- A value is left on a channel, and its sender claims it if it is this one. -/
theorem offer {v : Value} {ticket : Nat} (signal : SignalId) (hc : h.Claimed id 0 parties)
    (ho : h.offer chan v = .ok (some ticket, h')) :
    h'.Claimed id 0 ((Wait.pickup chan ticket signal).parties id ++ parties) := by
  obtain ⟨-, -, -, hticket, rfl⟩ | ⟨-, hr, -⟩ := offer_cases ho
  · cases hticket
    by_cases hchan : chan = id
    · subst hchan
      refine hc.modify fun c hget hclaimed => ?_
      rw [Wait.parties, if_pos rfl, chan_eq hget]
      exact hclaimed.offer v
    · rw [Wait.parties, if_neg hchan]
      exact hc.of_ne hchan _
  · cases hr

/-- The value with this ticket has been received, if it is one on this channel. -/
theorem settle {ticket : Nat} {signal : SignalId}
    (hc : h.Claimed id 0 ((Wait.pickup chan ticket signal).parties id ++ parties))
    (hsettled : (h.chan chan).isSettled ticket = true) : h.Claimed id 0 parties := by
  obtain ⟨c, hget, hclaimed⟩ := hc
  refine ⟨c, hget, ?_⟩
  by_cases hchan : chan = id
  · subst hchan
    rw [Wait.parties, if_pos rfl] at hclaimed
    rw [chan_eq hget, Channel.isSettled, hclaimed.opened, Bool.or_false, decide_eq_true_iff] at hsettled
    exact hclaimed.settle hsettled
  · rw [Wait.parties, if_neg hchan] at hclaimed
    exact hclaimed

theorem register (chan : ChanId) (hc : h.Claimed id leaving parties) :
    (h.modifyChan chan (·.register)).Claimed id leaving
      (List.replicate ([chan].count id) .receiver ++ parties) := by
  by_cases hchan : chan = id
  · subst hchan
    rw [List.count_singleton_self]
    exact hc.modify fun c _ hclaimed => hclaimed.register
  · rw [List.count_singleton, if_neg (by simpa using hchan)]
    exact hc.of_ne hchan _

theorem withdraw (chan : ChanId) (hc : h.Claimed id ([chan].count id + leaving) parties) :
    (h.modifyChan chan (·.withdraw)).Claimed id leaving parties := by
  by_cases hchan : chan = id
  · subst hchan
    rw [List.count_singleton_self, Nat.add_comm] at hc
    exact hc.modify fun c _ hclaimed => hclaimed.withdraw
  · rw [List.count_singleton, if_neg (by simpa using hchan), Nat.zero_add] at hc
    exact hc.of_ne hchan _

/-- An operation is made by somebody who is registered so often, once at most and not if it is to send on the
channel, and who is going to withdraw.  If the operation is made on another channel, then this one is to be
withdrawn from as it is. -/
theorem makes {op : ChanId × Option Value} {received : Option (Value × Bool)}
    {f : ChanId → Channel → Channel} {n : Nat} (hn : n ≤ 1) (hsend : ∀ v, op = (id, some v) → n = 0)
    (hc : h.Claimed id 0 (List.replicate n .receiver ++ parties))
    (hother : op.1 ≠ id → h.Claimed id n parties) (hmakes : h.Makes op received f)
    (hbecome : h.ChansBecome f h') : h'.Claimed id n parties := by
  have helsewhere (hne : op.1 ≠ id) (hsame : ∀ c, f id c = c) : h'.Claimed id n parties := by
    refine (hother hne).of_eq ?_
    rw [hbecome id, show f id = fun c => c from funext hsame, Option.map_id']
  obtain ⟨c, hget, hclaimed⟩ := hc
  have hget' : h'.chans.get? id = some (f id c) := by rw [hbecome id, hget, Option.map_some]
  cases hmakes with
  | @send chan v w _ _ hready _ _ =>
    by_cases hchan : chan = id
    · subst hchan
      obtain rfl := hsend v rfl
      refine ⟨_, hget', ?_⟩
      rw [onlyAt, if_pos rfl]
      exact hclaimed.accept (chan_eq hget ▸ hready.2) w
    · exact helsewhere hchan fun c => if_neg (Ne.symm hchan)
  | @take chan v rest hbuffer =>
    by_cases hchan : chan = id
    · subst hchan
      rw [chan_eq hget] at hbuffer
      refine ⟨_, hget', ?_⟩
      rw [onlyAt, if_pos rfl]
      obtain rfl | rfl : n = 0 ∨ n = 1 := by omega
      · exact hclaimed.handOut hbuffer
      · exact hclaimed.take hbuffer
    · exact helsewhere hchan fun c => if_neg (Ne.symm hchan)
  | @drained chan z _ _ _ hclosed _ _ =>
    by_cases hchan : chan = id
    · subst hchan
      rw [chan_eq hget, hclaimed.opened] at hclosed
      cases hclosed
    · exact helsewhere hchan fun c => rfl

/-- Somebody receives who is registered for that, or not at all. -/
theorem receive {received : Value × Bool} {n : Nat} (hn : n = 0 ∨ n = [chan].count id)
    (hc : h.Claimed id 0 (List.replicate n .receiver ++ parties))
    (hr : h.tryRecv chan = .ok (some received, h')) : h'.Claimed id n parties := by
  obtain ⟨f, hmakes, hbecome⟩ := makes_of_tryRecv hr
  rw [List.count_singleton] at hn
  refine hc.makes ?_ ?_ (fun hne => ?_) hmakes hbecome
  · split at hn <;> omega
  · rintro v ⟨⟩
  · rw [if_neg (by simpa using hne)] at hn
    obtain rfl : n = 0 := by omega
    exact hc

end Claimed
end Heap

/-! ## Operations from pause to pause -/

variable {α β : Type} {id : ChanId} {signal : SignalId}

/-- **The computation keeps the values of the channel claimed**: where it waits it is a party to the channel
as the wait says, and when it is resumed, with its own part kept by the others, it goes on like that.  When it
is done, `Q` holds of its result and the state, whatever the parties are then. -/
def Meets (id : ChanId) (signal : SignalId) (Q : α → EngineState → List Party → Prop) :
    Step α → List Party → Prop
  | .done s a, others => Q a s others
  | .wait w on resume, others => w.heap.Claimed id 0 (on.parties id ++ others) ∧
    ∀ u others', w.Undisturbed u → u.isCancelled signal = false →
      u.heap.Claimed id 0 (on.parties id ++ others') → Meets id signal Q (resume u) others'
  | .stop _ _, _ => True

/-- Where an operation stands: what its task holds, that it goes on, and who is party to the channel. -/
structure Stands (id : ChanId) (signal : SignalId) (xs : List Holding) (leaving : Nat)
    (parties : List Party) (s : EngineState) : Prop where
  holds : s.Holds (some xs)
  going : s.isCancelled signal = false
  claimed : s.heap.Claimed id leaving parties

namespace Meets
variable {P : α → EngineState → List Party → Prop} {Q : β → EngineState → List Party → Prop}
  {others : List Party}

theorem mono {x : Step α} {P' : α → EngineState → List Party → Prop} (hx : Meets id signal P x others)
    (hp : ∀ a s others, P a s others → P' a s others) : Meets id signal P' x others := by
  induction x generalizing others with
  | done s a => exact hp a s others hx
  | wait w on resume ih =>
    exact ⟨hx.1, fun u others' hu hgoing hclaimed => ih u (hx.2 u others' hu hgoing hclaimed)⟩
  | stop s why => trivial

theorem bind {x : Step α} {f : α → EngineState → Step β} (hx : Meets id signal P x others)
    (hf : ∀ a s others, P a s others → Meets id signal Q (f a s) others) :
    Meets id signal Q (x.bind f) others := by
  induction x generalizing others with
  | done s a => exact hf a s others hx
  | wait w on resume ih =>
    exact ⟨hx.1, fun u others' hu hgoing hclaimed => ih u (hx.2 u others' hu hgoing hclaimed)⟩
  | stop s why => trivial

end Meets

namespace Stands
variable {xs : List Holding} {s : EngineState} {leaving : Nat} {parties others : List Party} {x : Holding}

/-- Values are held, and let go of. -/
theorem hold (hs : Stands id signal xs leaving parties s) (x : Holding) :
    Stands id signal (x :: xs) leaving parties (s.hold x) :=
  ⟨hs.holds.hold x, hs.going, hs.claimed⟩

theorem letGo (hs : Stands id signal (x :: xs) leaving parties s)
    (hx : ∀ s : EngineState, s.giveBack x = s) : Stands id signal xs leaving parties s.letGo := by
  rw [EngineState.letGo_eq hs.holds, hx]
  exact ⟨EngineState.holds_set hs.holds, hs.going, hs.claimed⟩

/-- A registration is withdrawn. -/
theorem withdraw {chan : ChanId}
    (hs : Stands id signal (.receiver chan :: xs) ([chan].count id + leaving) parties s) :
    Stands id signal xs leaving parties s.letGo := by
  rw [EngineState.letGo_eq hs.holds]
  exact ⟨EngineState.holds_set hs.holds, hs.going, hs.claimed.withdraw chan⟩

end Stands

namespace Eval
variable {xs : List Holding} {s : EngineState} {leaving : Nat} {parties others : List Party} {chan : ChanId}

/-- While values are held. -/
theorem meets_holding {x : Holding} (hx : ∀ s : EngineState, s.giveBack x = s)
    {P : Except EvalError α → Prop} {m : Eval α}
    (hm : Meets id signal (fun r s others => P r ∧ Stands id signal (x :: xs) leaving (parties ++ others) s)
      (m (s.hold x)) others) :
    Meets id signal (fun r s others => P r ∧ Stands id signal xs leaving (parties ++ others) s)
      (holding x m s) others := by
  rw [holding_apply]
  exact hm.bind fun r s others ⟨hr, hs⟩ => ⟨hr, hs.letGo hx⟩

/-- A wait for something on the channel. -/
theorem meets_await {on : Wait} (hon : on.signal? = some signal)
    (hs : Stands id signal xs 0 (on.parties id ++ others) s) :
    Meets id signal (fun r s others => r = .ok () ∧ Stands id signal xs 0 (on.parties id ++ others) s)
      (await on s) others := by
  rw [await_apply, hon, Option.any_some, hs.going, if_neg Bool.false_ne_true]
  refine ⟨hs.claimed, fun u others' hu hgoing hclaimed => ?_⟩
  rw [checkWait_apply, hon, Option.any_some, hgoing, if_neg Bool.false_ne_true]
  exact ⟨rfl, hu.holds hs.holds, hgoing, hclaimed⟩

/-- Whom it makes a party to the channel to have left a value. -/
def left (id chan : ChanId) (signal : SignalId) : Option Nat → List Party
  | some ticket => (Wait.pickup chan ticket signal).parties id
  | none => []

theorem meets_ofFailure {Q : Except EvalError α → EngineState → List Party → Prop} (e : Failure)
    (hq : ∀ f, Q (.error { fault := f }) s others) : Meets id signal Q (ofFailure e s) others := by
  cases e with
  | fault f => exact hq f
  | overflow => trivial

theorem meets_offer (v : Value) (hs : Stands id signal xs 0 others s) :
    Meets id signal (fun r s others =>
        Stands id signal xs 0 (left id chan signal r.toOption.join ++ others) s)
      (offer chan v s) others := by
  rw [offer_apply]
  split
  · exact ⟨hs.holds, hs.going, hs.claimed.offer signal ‹_›⟩
  · rename_i ho
    refine ⟨hs.holds, hs.going, ?_⟩
    rw [Heap.offer_eq_none ho]
    exact hs.claimed
  · exact meets_ofFailure _ fun f => hs

/-- Leaving a value on whatever channel. -/
theorem meets_leave (v : Value) (rounds : Nat) (hs : Stands id signal xs 0 others s) :
    Meets id signal (fun r s others =>
        Stands id signal xs 0 (left id chan signal r.toOption ++ others) s)
      (leave chan v signal rounds s) others := by
  induction rounds generalizing s others with
  | zero => trivial
  | succ rounds ih =>
    rw [leave, bind_apply]
    refine (meets_offer v hs).bind fun r s others hs => ?_
    cases r with
    | error e => exact hs
    | ok left =>
      cases left with
      | some ticket => exact hs
      | none =>
        have hwait : Meets id signal (fun r s others => r = .ok () ∧
              Stands id signal xs 0 ((Wait.room chan signal).parties id ++ others) s)
            (holdingValue v (await (.room chan signal)) s) others :=
          meets_holding (fun _ => rfl) (meets_await rfl (hs.hold (.value v)))
        show Meets id signal _ ((holdingValue v (await _) >>= fun _ => _) s) others
        rw [bind_apply]
        refine hwait.bind fun r s others hr => ?_
        obtain ⟨rfl, hs⟩ := hr
        exact ih hs

/-- A sender waits until its value is received. -/
theorem meets_awaitPickup (ticket rounds : Nat)
    (hs : Stands id signal xs 0 ((Wait.pickup chan ticket signal).parties id ++ others) s) :
    Meets id signal (fun _ s others => Stands id signal xs 0 others s)
      (awaitPickup chan ticket signal rounds s) others := by
  induction rounds generalizing s others with
  | zero => trivial
  | succ rounds ih =>
    rw [awaitPickup, bind_apply, readHeap_apply, Step.bind_of_done, andThen_ok]
    cases hsettled : (s.heap.chan chan).isSettled ticket with
    | true => exact ⟨hs.holds, hs.going, hs.claimed.settle hsettled⟩
    | false =>
      show Meets id signal _ ((await _ >>= fun _ => _) s) others
      rw [bind_apply]
      refine (meets_await rfl hs).bind fun r s others hr => ?_
      obtain ⟨rfl, hs⟩ := hr
      exact ih hs

/-- On an unbuffered channel a sender waits for the receipt. -/
theorem meets_seeOff (ticket rounds : Nat)
    (hs : Stands id signal xs 0 ((Wait.pickup chan ticket signal).parties id ++ others) s) :
    Meets id signal (fun _ s others => Stands id signal xs 0 others s)
      ((do if ← readHeap fun h => (h.chan chan).capacity == 0 then
        awaitPickup chan ticket signal rounds) s) others := by
  rw [bind_apply, readHeap_apply, Step.bind_of_done, andThen_ok]
  split
  · exact meets_awaitPickup ticket rounds hs
  · rename_i hbuffered
    -- This channel is unbuffered, so it is another one.
    have hne : chan ≠ id := by
      rintro rfl
      obtain ⟨c, hget, hclaimed⟩ := hs.claimed
      rw [Heap.chan_eq hget, hclaimed.unbuffered] at hbuffered
      exact hbuffered rfl
    have hclaimed := hs.claimed
    rw [Wait.parties, if_neg hne] at hclaimed
    exact ⟨hs.holds, hs.going, hclaimed⟩

/-- **A send keeps the values claimed**, on whatever channel it is. -/
theorem meets_send (v : Value) (rounds : Nat) (hs : Stands id signal xs 0 others s) :
    Meets id signal (fun _ s others => Stands id signal xs 0 others s) (send rounds chan v signal s)
      others := by
  have hhold := hs.hold (.value (.chan chan))
  rw [send, holdingValue, holding_apply, bind_apply]
  refine Meets.bind (P := fun _ s others => Stands id signal (.value (.chan chan) :: xs) 0 others s) ?_
    fun r s others hs => hs.letGo fun _ => rfl
  cases hv : (s.hold (.value (.chan chan))).heap.chanValue chan v with
  | error e =>
    rw [onHeap_error hv]
    cases e with
    | fault f => exact hhold
    | overflow => trivial
  | ok r =>
    obtain ⟨w, h'⟩ := r
    rw [onHeap_ok hv, Step.bind_of_done, andThen_ok, bind_apply]
    have hstart : Stands id signal (.value (.chan chan) :: xs) 0 others
        { s.hold (.value (.chan chan)) with heap := h' } :=
      ⟨hhold.holds, hhold.going, hhold.claimed.of_eq (by rw [Heap.chanValue_chans hv])⟩
    refine (meets_leave w rounds hstart).bind fun r s others hs => ?_
    cases r with
    | error e => exact hs
    | ok ticket => exact meets_seeOff ticket rounds hs

/-! ## Receiving -/

theorem meets_tryRecv (hs : Stands id signal xs 0 others s) :
    Meets id signal (fun _ s others => Stands id signal xs 0 others s) (tryRecv chan s) others := by
  rw [tryRecv_apply]
  split
  · exact ⟨hs.holds, hs.going, hs.claimed.receive (.inl rfl) ‹_›⟩
  · rename_i r h _ hr
    cases r with
    | some received => exact ⟨hs.holds, hs.going, hs.claimed.receive (.inl rfl) hr⟩
    | none => exact ⟨hs.holds, hs.going, hs.claimed.of_eq (by rw [Heap.tryRecv_eq_none hr])⟩
  · exact meets_ofFailure _ fun f => hs

/-- A registered receive waits for a value, and is going to withdraw when it has got one. -/
theorem meets_awaitValue (rounds : Nat)
    (hs : Stands id signal xs 0 ((Wait.recv chan signal).parties id ++ others) s) :
    Meets id signal (fun _ s others => Stands id signal xs ([chan].count id) others s)
      (awaitValue chan signal rounds s) others := by
  induction rounds generalizing s others with
  | zero => trivial
  | succ rounds ih =>
    rw [awaitValue, bind_apply, tryRecv_apply]
    split
    · exact ⟨hs.holds, hs.going, hs.claimed.receive (.inr rfl) ‹_›⟩
    · rename_i r h _ hr
      cases r with
      | some received => exact ⟨hs.holds, hs.going, hs.claimed.receive (.inr rfl) hr⟩
      | none =>
        rw [Heap.tryRecv_eq_none hr]
        show Meets id signal _ ((await _ >>= fun _ => _) s) others
        rw [bind_apply]
        refine (meets_await rfl hs).bind fun r s others hr => ?_
        obtain ⟨rfl, hs⟩ := hr
        exact ih hs
    · rename_i e he
      cases e with
      | fault f => exact absurd he (Heap.tryRecv_ne_fault f)
      | overflow => trivial

/-- What goes on while a task is registered once more. -/
theorem meets_receiving {n : Nat} {m : Eval α}
    (hs : Stands id signal xs 0 (List.replicate n .receiver ++ others) s)
    (hm : ∀ s, Stands id signal (.receiver chan :: xs) 0
        (List.replicate ([chan].count id + n) .receiver ++ others) s →
      Meets id signal (fun _ s others =>
        Stands id signal (.receiver chan :: xs) ([chan].count id + leaving) others s) (m s) others) :
    Meets id signal (fun _ s others => Stands id signal xs leaving others s) (receiving chan m s) others := by
  rw [receiving, bind_apply, modify_apply, Step.bind_of_done, andThen_ok, holding_apply]
  have hregistered : Stands id signal (.receiver chan :: xs) 0
      (List.replicate ([chan].count id + n) .receiver ++ others) ((s.register chan).hold (.receiver chan)) := by
    refine ⟨EngineState.Holds.hold (s := s.register chan) hs.holds _, hs.going, ?_⟩
    rw [List.replicate_add, List.append_assoc]
    exact hs.claimed.register chan
  refine (hm _ hregistered).bind fun r s others hs => ?_
  exact hs.withdraw

/-- **A receive keeps the values claimed**, on whatever channel it is. -/
theorem meets_recv (rounds : Nat) (hs : Stands id signal xs 0 others s) :
    Meets id signal (fun _ s others => Stands id signal xs 0 others s) (recv rounds chan signal s)
      others := by
  have hhold := hs.hold (.value (.chan chan))
  rw [recv, holdingValue, holding_apply, bind_apply]
  refine Meets.bind (P := fun _ s others => Stands id signal (.value (.chan chan) :: xs) 0 others s) ?_
    fun r s others hs => hs.letGo fun _ => rfl
  refine (meets_tryRecv hhold).bind fun r s others hs => ?_
  cases r with
  | error e => exact hs
  | ok answer =>
    cases answer with
    | some received => exact hs
    | none => exact meets_receiving (n := 0) hs fun s hs => meets_awaitValue rounds hs

end Eval

/-! ## Choosing -/

/-- **A `select` over these operations is bound to receive** if it is registered on the channel at all: it is
registered once, and it tries to receive from the channel first. -/
def Commits (id : ChanId) (ops : List (ChanId × Option Value)) : Prop :=
  id ∈ receiverChannels ops → ∃ rest, ops = (id, none) :: rest ∧ (id, none) ∉ rest

/-- What it comes to to be registered so often. -/
structure Registers (id : ChanId) (ops : List (ChanId × Option Value)) (n : Nat) : Prop where
  once : n ≤ 1
  not_sending : ∀ v, (id, some v) ∈ ops → n = 0
  first : n ≠ 0 → ∃ rest, ops = (id, none) :: rest

section
variable {ops : List (ChanId × Option Value)} {n : Nat} {others : List Party}

theorem Registers.zero : Registers id ops 0 :=
  ⟨Nat.zero_le _, fun _ _ => rfl, fun h => absurd rfl h⟩

theorem count_receiverChannels_le (id : ChanId) (ops : List (ChanId × Option Value)) :
    (receiverChannels ops).count id ≤ ops.count (id, none) := by
  unfold receiverChannels List.count
  rw [List.countP_map, List.countP_filter]
  refine List.countP_mono_left fun op _ hop => ?_
  obtain ⟨chan, outgoing⟩ := op
  simp only [Function.comp_apply, Bool.and_eq_true, beq_iff_eq, Option.isNone_iff_eq_none] at hop
  rw [hop.1, hop.2.1]
  exact beq_self_eq_true _

theorem Commits.registers (hc : Commits id ops) : Registers id ops ((receiverChannels ops).count id) := by
  by_cases hmem : id ∈ receiverChannels ops
  · obtain ⟨rest, rfl, hrest⟩ := hc hmem
    refine ⟨?_, fun v hv => absurd hv (not_sending hmem v), fun _ => ⟨rest, rfl⟩⟩
    have hcount := count_receiverChannels_le id ((id, none) :: rest)
    rw [List.count_cons_self, List.count_eq_zero.mpr hrest] at hcount
    exact hcount
  · rw [List.count_eq_zero.mpr hmem]
    exact .zero

/-- Who does anything else before it receives has found the channel empty. -/
theorem Registers.leave {h : Heap} {i : Nat} {op : ChanId × Option Value} (hreg : Registers id ops n)
    (hfirst : ∀ j < i, ∀ o, ops[j]? = some o → h.Declines o) (hop : ops[i]? = some op)
    (hne : op ≠ (id, none)) (hc : h.Claimed id 0 (List.replicate n .receiver ++ others)) :
    h.Claimed id n others := by
  by_cases hn : n = 0
  · subst hn
    exact hc
  · obtain ⟨rest, rfl⟩ := hreg.first hn
    obtain rfl : n = 1 := by
      have := hreg.once
      omega
    have hi : 0 < i := by
      refine Nat.pos_of_ne_zero ?_
      rintro rfl
      exact hne (Option.some.inj hop).symm
    obtain ⟨c, hget, hclaimed⟩ := hc
    refine ⟨c, hget, hclaimed.leave ?_⟩
    by_contra hbuffer
    exact (hfirst 0 hi _ rfl).not_ready (.inl (by rwa [Heap.chan_eq hget]))

end

namespace Eval
variable {xs : List Holding} {s : EngineState} {leaving n : Nat} {others : List Party}
  {ops : List (ChanId × Option Value)} {canSkip : Bool}

theorem meets_receivingAll {chans : List ChanId} {m : Eval α}
    (hs : Stands id signal xs 0 (List.replicate n .receiver ++ others) s)
    (hm : ∀ s xs, Stands id signal xs 0 (List.replicate (chans.count id + n) .receiver ++ others) s →
      Meets id signal (fun _ s others => Stands id signal xs (chans.count id + leaving) others s) (m s)
        others) :
    Meets id signal (fun _ s others => Stands id signal xs leaving others s) (receivingAll chans m s)
      others := by
  induction chans generalizing s xs n leaving with
  | nil =>
    simp only [List.count_nil, Nat.zero_add] at hm
    exact hm s xs hs
  | cons chan rest ih =>
    have hcount : (chan :: rest).count id = rest.count id + [chan].count id := by
      rw [List.count_cons, List.count_singleton]
    simp only [hcount, Nat.add_assoc] at hm
    exact meets_receiving hs fun s hs => ih hs hm

/-- A pass over the operations, and a wait if there is need. -/
theorem meets_awaitCase (hreg : Registers id ops n)
    (hwait : canSkip = false → n = (receiverChannels ops).count id) (hskip : canSkip = true → n = 0)
    (rounds : Nat) (hs : Stands id signal xs 0 (List.replicate n .receiver ++ others) s) :
    Meets id signal (fun _ s others => Stands id signal xs n others s)
      (awaitCase ops canSkip signal rounds s) others := by
  induction rounds generalizing s others with
  | zero => trivial
  | succ rounds ih =>
    rw [awaitCase_succ, hs.going, if_neg Bool.false_ne_true]
    have hpass := pass_tryCases ops 0 s
    generalize tryCases ops 0 s = x at hpass
    cases hpass with
    | made hfirst hop hmakes hchans hheld hcurrent hsignals =>
      refine ⟨?_, (hsignals signal).trans hs.going, ?_⟩
      · rw [EngineState.Holds, hheld, hcurrent]
        exact hs.holds
      · refine hs.claimed.makes hreg.once (fun v hv => ?_) (fun hne => ?_) hmakes hchans
        · exact hreg.not_sending v (hv ▸ List.mem_of_getElem? hop)
        · exact hreg.leave hfirst hop (fun he => hne (congrArg Prod.fst he)) hs.claimed
    | @nothing h hnone hgrows =>
      have hstands : Stands id signal xs 0 (List.replicate n .receiver ++ others) { s with heap := h } :=
        ⟨hs.holds, hs.going, hs.claimed.of_eq (by rw [hgrows.chans])⟩
      show Meets id signal _ (afterPass ops canSkip signal rounds none { s with heap := h }) others
      cases canSkip with
      | true =>
        obtain rfl := hskip rfl
        exact hstands
      | false =>
        rw [afterPass_none rounds hstands.going]
        have hparties : (Wait.cases ops signal).parties id = List.replicate n .receiver := by
          rw [Wait.parties, hwait rfl]
        refine ⟨?_, fun u others' hu hgoing hclaimed => ?_⟩
        · rw [hparties]
          exact hstands.claimed
        · rw [hparties] at hclaimed
          beta_reduce
          rw [hgoing, if_neg Bool.false_ne_true]
          have hheld := hstands.hold (.values (ops.flatMap caseValues))
          have hresumed : Stands id signal (.values (ops.flatMap caseValues) :: xs) 0
              (List.replicate n .receiver ++ others') u := ⟨hu.holds hheld.holds, hgoing, hclaimed⟩
          exact ih (hresumed.letGo fun _ => rfl)
    | @failed i op f h hfirst hop hrejects hgrows =>
      refine ⟨hs.holds, hs.going, ?_⟩
      have hne : op ≠ (id, none) := by
        rintro rfl
        cases hrejects
      exact (hreg.leave hfirst hop hne hs.claimed).of_eq (by rw [hgrows.chans])
    | stopped hgrows => trivial

/-- **A choice keeps the values claimed**, if it does not wait, or is bound to receive. -/
theorem meets_choice (hc : canSkip = false → Commits id ops) (rounds : Nat)
    (hs : Stands id signal xs 0 others s) :
    Meets id signal (fun _ s others => Stands id signal xs 0 others s)
      (receivingAll (if canSkip then [] else receiverChannels ops) (awaitCase ops canSkip signal rounds) s)
      others := by
  cases canSkip with
  | true =>
    show Meets id signal _ (awaitCase ops true signal rounds s) others
    exact meets_awaitCase .zero (fun h => by cases h) (fun _ => rfl) rounds hs
  | false =>
    show Meets id signal _ (receivingAll (receiverChannels ops) (awaitCase ops false signal rounds) s) others
    exact meets_receivingAll (n := 0) hs fun s xs hs =>
      meets_awaitCase (hc rfl).registers (fun _ => rfl) (fun h => by cases h) rounds hs

end Eval

/-! ## Tasks that take turns -/

/-- An operation of a task on channels: a send statement, a receive expression or a round of a loop over a
channel, or a choice among cases, with a default or without. -/
inductive Operation where
  | send (chan : ChanId) (v : Value)
  | recv (chan : ChanId)
  | select (ops : List (ChanId × Option Value)) (canSkip : Bool)

namespace Operation

/-- Performs the operation. -/
def perform (signal : SignalId) (rounds : Nat) : Operation → Eval Unit
  | send chan v => Eval.send rounds chan v signal
  | recv chan => do let _ ← Eval.recv rounds chan signal
  | select ops canSkip => do
    let _ ← Eval.receivingAll (if canSkip then [] else receiverChannels ops)
      (Eval.awaitCase ops canSkip signal rounds)

/-- If the operation waits as a receiver of the channel, it is bound to receive from it. -/
def Commits (id : ChanId) : Operation → Prop
  | select ops false => ScriptEngine.Commits id ops
  | _ => True

variable {op : Operation} {xs : List Holding} {s : EngineState} {others : List Party}

/-- **Every operation that is bound to receive keeps the values claimed.** -/
theorem meets_perform (hop : op.Commits id) (rounds : Nat) (hs : Stands id signal xs 0 others s) :
    Meets id signal (fun _ s others => s.heap.Claimed id 0 others) (op.perform signal rounds s) others := by
  cases op with
  | send chan v => exact (Eval.meets_send v rounds hs).mono fun _ _ _ hs => hs.claimed
  | recv chan =>
    rw [perform, Eval.bind_apply]
    refine (Eval.meets_recv rounds hs).bind fun r s others hs => ?_
    cases r <;> exact hs.claimed
  | select ops canSkip =>
    rw [perform, Eval.bind_apply]
    have hc (hwait : canSkip = false) : ScriptEngine.Commits id ops := by
      subst hwait
      exact hop
    refine (Eval.meets_choice hc rounds hs).bind fun r s others hs => ?_
    cases r <;> exact hs.claimed

end Operation

namespace Step

/-- Whom a task that waits makes a party to the channel. -/
def parties (id : ChanId) : Step α → List Party
  | .wait _ on _ => on.parties id
  | .done _ _ | .stop _ _ => []

/-- What is left of an operation: nothing if it is done, and the rest of it if it waits.  Nothing goes on after
a task has broken down. -/
def left : Step α → Option (List (Step α))
  | .done _ _ => some []
  | .wait w on resume => some [.wait w on resume]
  | .stop _ _ => none

end Step

/-- In the meantime nothing was done to the channel, and the signal is off. -/
structure Passes (id : ChanId) (signal : SignalId) (s u : EngineState) : Prop where
  chan_eq : u.heap.chans.get? id = s.heap.chans.get? id
  going : u.isCancelled signal = false

/-- **Tasks take turns at operations on channels**, from the making of the unbuffered channel on, under a signal
that is never on.  A turn is the beginning of any operation, or any operation that waits goes on; it ends where
the operation is done or waits.  Every operation that waits as a receiver of the channel is bound to receive
from it.  These are the operations that wait. -/
inductive Interleaves (id : ChanId) (signal : SignalId) :
    EngineState → List (Step (Except EvalError Unit)) → Prop where
  | start {s : EngineState} {elemType : Option HostType}
    (hnew : s.heap.chans.get? id = some { capacity := 0, elemType }) : Interleaves id signal s []
  | begin {s u : EngineState} {tasks left : List (Step (Except EvalError Unit))} {xs : List Holding}
    (h : Interleaves id signal s tasks) (hu : Passes id signal s u) (hheld : u.Holds (some xs))
    (op : Operation) (hop : op.Commits id) (rounds : Nat)
    (hleft : (op.perform signal rounds u).left = some left) :
    Interleaves id signal (op.perform signal rounds u).state (left ++ tasks)
  | resume {s u w : EngineState} {on : Wait} {resume : EngineState → Step (Except EvalError Unit)}
    {before after left : List (Step (Except EvalError Unit))}
    (h : Interleaves id signal s (before ++ .wait w on resume :: after)) (hu : Passes id signal s u)
    (hw : w.Undisturbed u) (hleft : (resume u).left = some left) :
    Interleaves id signal (resume u).state (before ++ (left ++ after))

/-- A task that waits will keep the values claimed. -/
def Continues (id : ChanId) (signal : SignalId) : Step (Except EvalError Unit) → Prop
  | .wait w on resume => ∀ u others, w.Undisturbed u → u.isCancelled signal = false →
    u.heap.Claimed id 0 (on.parties id ++ others) →
    Meets id signal (fun _ s others => s.heap.Claimed id 0 others) (resume u) others
  | .done _ _ | .stop _ _ => False

variable {s : EngineState} {tasks : List (Step (Except EvalError Unit))}

/-- After a turn. -/
theorem Meets.left {x : Step (Except EvalError Unit)} {left : List (Step (Except EvalError Unit))}
    {others : List Party} (hx : Meets id signal (fun _ s others => s.heap.Claimed id 0 others) x others)
    (hleft : x.left = some left) :
    x.state.heap.Claimed id 0 (left.flatMap (·.parties id) ++ others) ∧ ∀ y ∈ left, Continues id signal y := by
  cases x with
  | done s a =>
    cases hleft
    exact ⟨hx, List.forall_mem_nil _⟩
  | wait w on resume =>
    cases hleft
    refine ⟨?_, List.forall_mem_singleton.mpr hx.2⟩
    rw [List.flatMap_singleton]
    exact hx.1
  | stop s why => cases hleft

/-- **The values are claimed by the tasks that wait**, at all times. -/
theorem Interleaves.claimed (h : Interleaves id signal s tasks) :
    s.heap.Claimed id 0 (tasks.flatMap (·.parties id)) ∧ ∀ x ∈ tasks, Continues id signal x := by
  induction h with
  | start hnew =>
    exact ⟨⟨_, hnew, rfl, rfl, rfl, rfl, fun k hk => absurd hk (Nat.not_lt_zero k)⟩, List.forall_mem_nil _⟩
  | begin _ hu hheld op hop rounds hleft ih =>
    obtain ⟨hclaimed, hcontinues⟩ := ih
    obtain ⟨hnow, hnew⟩ :=
      (Operation.meets_perform hop rounds ⟨hheld, hu.going, hclaimed.of_eq hu.chan_eq⟩).left hleft
    refine ⟨?_, fun x hx => (List.mem_append.mp hx).elim (hnew x) (hcontinues x)⟩
    rw [List.flatMap_append]
    exact hnow
  | @resume _ u w on resume before after left _ hu hw hleft ih =>
    obtain ⟨hclaimed, hcontinues⟩ := ih
    obtain ⟨hbefore, hthis, hafter⟩ := List.forall_mem_append.mp hcontinues |>.imp_right List.forall_mem_cons.mp
    have hothers : u.heap.Claimed id 0 (on.parties id ++ (before ++ after).flatMap (·.parties id)) := by
      refine (hclaimed.of_eq hu.chan_eq).perm ?_
      simp only [List.flatMap_append, List.flatMap_cons]
      exact List.perm_append_comm_assoc _ _ _
    obtain ⟨hnow, hnew⟩ := (hthis u _ hw hu.going hothers).left hleft
    refine ⟨hnow.perm ?_, ?_⟩
    · simp only [List.flatMap_append]
      exact List.perm_append_comm_assoc _ _ _
    · exact List.forall_mem_append.mpr ⟨hbefore, List.forall_mem_append.mpr ⟨hnew, hafter⟩⟩

/-- **Receivers that stay leave nothing behind.**  However tasks take turns at operations on channels, as long
as everyone who is registered on this unbuffered channel is bound to receive from it: its registrations are the
tasks that wait to receive from it, and of the values in its buffer each is awaited by its sender, or else more
receivers wait than values were left before it.  A send that does not wait is made only if more receivers wait
than values have been left.  When nobody is inside a send on the channel and nobody waits to receive from it,
its buffer is empty, and all that was ever accepted has been received. -/
theorem nothing_stranded (h : Interleaves id signal s tasks) :
    ∃ c, s.heap.chans.get? id = some c ∧ c.closed = false ∧ c.sent = c.received + c.buffer.length ∧
      c.waiting = (tasks.flatMap (·.parties id)).count .receiver ∧
      (∀ k < c.buffer.length, k < c.waiting ∨ ∃ x ∈ tasks, .sender (c.received + k + 1) ∈ x.parties id) ∧
      (∀ v h', s.heap.trySend id v = .ok (true, h') → c.buffer.length < c.waiting) ∧
      ((∀ x ∈ tasks, x.parties id = []) → c.buffer = [] ∧ c.received = c.sent) := by
  obtain ⟨⟨c, hget, hclaimed⟩, -⟩ := h.claimed
  have hwaiting : c.waiting = (tasks.flatMap (·.parties id)).count .receiver := hclaimed.waiting_eq
  have hclaims (k : Nat) (hk : k < c.buffer.length) :
      k < c.waiting ∨ ∃ x ∈ tasks, .sender (c.received + k + 1) ∈ x.parties id := by
    rw [hwaiting]
    exact (hclaimed.claimed k hk).imp_right List.mem_flatMap.mp
  refine ⟨c, hget, hclaimed.opened, hclaimed.sent_eq, hwaiting, hclaims, fun v h' hs => ?_, fun hnobody => ?_⟩
  · obtain ⟨⟨w, h₁⟩, hw, -⟩ := Outcome.bind_eq_ok.mp hs
    have hready := (Heap.trySend_eq_true hget hw hs).2.1
    rwa [Channel.isReady, if_pos hclaimed.unbuffered, decide_eq_true_iff] at hready
  · have hnone : tasks.flatMap (·.parties id) = [] := List.flatMap_eq_nil_iff.mpr hnobody
    rw [hnone] at hwaiting
    have hbuffer : c.buffer = [] := by
      refine List.eq_nil_of_length_eq_zero (Nat.eq_zero_of_not_pos fun hpos => ?_)
      obtain hreceiver | ⟨x, hx, hsender⟩ := hclaims 0 hpos
      · rw [hwaiting] at hreceiver
        cases hreceiver
      · rw [hnobody x hx] at hsender
        cases hsender
    refine ⟨hbuffer, ?_⟩
    rw [hclaimed.sent_eq, hbuffer, List.length_nil, Nat.add_zero]

/-- Two tasks and an unbuffered channel; the first one runs. -/
def twoTasks : EngineState :=
  { EngineState.initial with
    heap := { chans := Store.push {} { capacity := 0, elemType := none } }
    held := (Store.push {} []).push [] }

/-- The other task runs, while the first one waits to receive. -/
def whileWaiting : EngineState := { ((Operation.recv 0).perform 0 2 twoTasks).state with current := 1 }

/-- The first task goes on, when the other one has sent without waiting. -/
def afterSend : EngineState :=
  { ((Operation.select [(0, some (.int 5))] true).perform 0 1 whileWaiting).state with current := 0 }

/-- A task waits to receive; another one sends without waiting, in a `select` with a default; the first one goes
on and receives the value.  Nothing is left, and one value has been received. -/
theorem nothing_stranded_met : ∃ s c, Interleaves 0 0 s [] ∧ s.heap.chans.get? 0 = some c ∧ c.buffer = [] ∧
    c.received = c.sent ∧ c.sent = 1 := by
  have hwaits := (Interleaves.start rfl : Interleaves 0 0 twoTasks []).begin (u := twoTasks) ⟨rfl, rfl⟩ rfl
    (.recv 0) trivial 2 rfl
  have hsends := hwaits.begin (u := whileWaiting) ⟨rfl, rfl⟩ rfl
    (.select [(0, some (.int 5))] true) trivial 1 rfl
  have hmet := Interleaves.resume hsends (u := afterSend) ⟨rfl, rfl⟩ ⟨rfl, rfl⟩ rfl
  obtain ⟨c, hget, -, -, -, -, -, hnobody⟩ := nothing_stranded hmet
  obtain ⟨hbuffer, hreceived⟩ := hnobody (List.forall_mem_nil _)
  have hsent : c.sent = 1 := by
    cases hget
    rfl
  exact ⟨_, c, hmet, hget, hbuffer, hreceived, hsent⟩

/-- Two unbuffered channels. -/
def twoChannels : EngineState :=
  let unbuffered : Channel := { capacity := 0, elemType := none }
  { EngineState.initial with heap := { chans := (Store.push {} unbuffered).push unbuffered } }

/-- **Who is registered as a receiver of two channels leaves a value behind.**  Both sends are made,
since each channel has a receiver; the receiver takes one of the values, and the other one stays where
nobody sends and nobody is registered. -/
theorem registered_twice_strands : ∃ waiting s₁ s₂ done resume,
    Eval.receivingAll [0, 1] (Eval.awaitCase [(0, none), (1, none)] false 0 2) twoChannels =
        .wait waiting (.cases [(0, none), (1, none)] 0) resume ∧
      Eval.trySend 0 (.int 1) waiting = .done s₁ (.ok true) ∧
      Eval.trySend 1 (.int 2) s₁ = .done s₂ (.ok true) ∧
      resume s₂ = .done done (.ok (some (0, some (.int 1, true)))) ∧
      (done.heap.chan 1).buffer = [.int 2] ∧ (done.heap.chan 1).waiting = 0 :=
  ⟨_, _, _, _, _, rfl, rfl, rfl, rfl, rfl, rfl⟩

end ScriptEngine
