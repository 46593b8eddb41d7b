import Mathlib.Data.List.Forall2
import Mathlib.Data.List.Nodup
import ScriptEngine.Proofs.Channel.Operations

/-! # Senders and receivers on an unbuffered channel meet

A send on an unbuffered channel waits for the receipt of its own value, and it has nothing to know its
value by but the number of values that were sent when it was left, its ticket.  So it has to be shown
that tickets are counted out in the order in which values are received.

Values may be equal, so a value is known here by the **place** of the history at which it was
accepted.  The places of the values in the buffer form a `line`: an acceptance joins it at the end,
and a value is handed out from the front (`TakenAt`).  The line agrees with the buffer, and it tells
how many values go before (`Lined`).

Main statement: `send_rendezvous`, for a send among any number of other operations.
-/
namespace ScriptEngine
namespace ChannelRun
variable {id : ChanId}

/-! ## Places -/

/-- What an event at this place does to the line. -/
def Event.moveLine (place : Nat) (line : List Nat) : Event → List Nat
  | .accepted _ => line ++ [place]
  | .answered _ true => line.tail
  | _ => line

/-- The places at which the values were accepted that are in the buffer, the oldest first. -/
def line (es : List Event) : List Nat :=
  es.zipIdx.foldl (fun line (e, place) => e.moveLine place line) []

/-- The value that was accepted at place `i` was handed out at place `j`. -/
def TakenAt (es : List Event) (i j : Nat) : Prop :=
  (∃ v, es[j]? = some (.answered v true)) ∧ (line (es.take j)).head? = some i

/-- The value `w` that was accepted at place `i` was handed out, by exactly one receive, which was
answered with it. -/
def Taken (es : List Event) (i : Nat) (w : Value) : Prop :=
  ∃ j, es[j]? = some (.answered w true) ∧ TakenAt es i j ∧ ∀ j', TakenAt es i j' → j' = j

/-- The value `w` that was accepted at place `i` is in the buffer. -/
def Buffered (es : List Event) (buffer : List Value) (i : Nat) (w : Value) : Prop :=
  ∃ k : Nat, (line es)[k]? = some i ∧ buffer[k]? = some w

theorem line_append (es : List Event) (e : Event) :
    line (es ++ [e]) = e.moveLine es.length (line es) := by
  simp [line, List.zipIdx_append, List.foldl_append]

theorem getElem?_append_of_some {es : List Event} {e : Event} {i : Nat} (es' : List Event)
    (h : es[i]? = some e) : (es ++ es')[i]? = some e ∧ (es ++ es').take i = es.take i := by
  obtain ⟨hi, -⟩ := List.getElem?_eq_some_iff.mp h
  refine ⟨?_, ?_⟩
  · rw [List.getElem?_append_left hi]
    exact h
  · exact List.take_append_of_le_length (Nat.le_of_lt hi)

/-- **The line agrees with the buffer**, and in front of each place there are as many acceptances as
values have been handed out or stand before it in the line. -/
structure Lined (es : List Event) (buffer : List Value) : Prop where
  values : List.Forall₂ (fun i v => es[i]? = some (.accepted v)) (line es) buffer
  ranks : ∀ k i, (line es)[k]? = some i →
    (accepted (es.take i)).length = (handedOut es).length + k

namespace Lined
variable {es : List Event} {buffer : List Value}

theorem accepted_of_mem (h : Lined es buffer) {i : Nat} (hi : i ∈ line es) :
    ∃ v, es[i]? = some (.accepted v) := by
  obtain ⟨k, hk, rfl⟩ := List.getElem_of_mem hi
  have hlength := h.values.length_eq
  exact ⟨_, List.Forall₂.get h.values hk (hlength ▸ hk)⟩

theorem lt_of_mem (h : Lined es buffer) {i : Nat} (hi : i ∈ line es) : i < es.length := by
  obtain ⟨v, hv⟩ := h.accepted_of_mem hi
  exact (List.getElem?_eq_some_iff.mp hv).1

/-- Later events change nothing about what was accepted, nor about what came before. -/
theorem values_append (h : Lined es buffer) (es' : List Event) :
    List.Forall₂ (fun i v => (es ++ es')[i]? = some (.accepted v)) (line es) buffer :=
  h.values.imp fun _ _ hv => (getElem?_append_of_some es' hv).1

theorem ranks_append (h : Lined es buffer) (es' : List Event) {k i : Nat}
    (hk : (line es)[k]? = some i) :
    (accepted ((es ++ es').take i)).length = (handedOut es).length + k := by
  obtain ⟨v, hv⟩ := h.accepted_of_mem (List.mem_of_getElem? hk)
  rw [(getElem?_append_of_some es' hv).2]
  exact h.ranks k i hk

theorem nodup (h : Lined es buffer) : (line es).Nodup := by
  rw [List.nodup_iff_getElem?_ne_getElem?]
  intro k l hkl hl heq
  obtain ⟨i, hi⟩ : ∃ i, (line es)[l]? = some i := ⟨_, List.getElem?_eq_getElem hl⟩
  have hk := h.ranks k i (heq.trans hi)
  have hl := h.ranks l i hi
  omega

/-- Events that neither bring a value nor take one. -/
theorem quiet (h : Lined es buffer) {e : Event} (hline : line (es ++ [e]) = line es)
    (hout : handedOut [e] = []) : Lined (es ++ [e]) buffer where
  values := by
    rw [hline]
    exact h.values_append [e]
  ranks := by
    intro k i hk
    rw [hline] at hk
    rw [h.ranks_append [e] hk, handedOut_append, hout, List.append_nil]

/-- **Every effect keeps the line in agreement with the buffer.** -/
theorem effect {capacity : Nat} {elemType : Option HostType} {e : Event} {c c' : Channel}
    {n n' : Nat} (hb : Books capacity elemType es c n) (h : Lined es c.buffer)
    (he : Effect c n e c' n') : Lined (es ++ [e]) c'.buffer := by
  cases he with
  | @accept _ v _ _ =>
    have hline : line (es ++ [.accepted v]) = line es ++ [es.length] := line_append ..
    refine ⟨?_, ?_⟩
    · rw [hline]
      exact List.rel_append (h.values_append _) (.cons List.getElem?_concat_length .nil)
    · intro k i hk
      rw [hline] at hk
      have hout : handedOut (es ++ [.accepted v]) = handedOut es := by simp [handedOut]
      rw [hout]
      by_cases hlt : k < (line es).length
      · rw [List.getElem?_append_left hlt] at hk
        exact h.ranks_append _ hk
      · -- The new place: all that was accepted before has been handed out or stands in line.
        rw [List.getElem?_append_right (Nat.le_of_not_lt hlt)] at hk
        have hk0 : k - (line es).length = 0 := by
          by_contra hne
          rw [List.getElem?_eq_none (by simp; omega)] at hk
          cases hk
        rw [hk0] at hk
        cases hk
        have hlength := h.values.length_eq
        have horder := congrArg List.length hb.order
        rw [List.length_append] at horder
        rw [List.take_left]
        omega
  | @handOut _ v hv =>
    have hline : line (es ++ [.answered v true]) = (line es).tail := line_append ..
    have hout : handedOut (es ++ [.answered v true]) = handedOut es ++ [v] := by simp [handedOut]
    refine ⟨?_, ?_⟩
    · rw [hline]
      have hvalues := h.values_append [.answered v true]
      rw [hv] at hvalues
      generalize line es = places at hvalues
      cases hvalues with
      | cons _ htail => exact htail
    · intro k i hk
      rw [hline, List.getElem?_tail] at hk
      rw [h.ranks_append _ hk, hout, List.length_append, List.length_singleton]
      omega
  | exhaust _ _ _ => exact h.quiet (line_append ..) rfl
  | close _ => exact h.quiet (line_append ..) rfl
  | register => exact h.quiet (line_append ..) rfl
  | withdraw => exact h.quiet (line_append ..) rfl
  | stay => exact h.quiet (line_append ..) rfl

end Lined

/-! ## What becomes of a value -/

/-- A value that was accepted is in the buffer and has not been handed out, or it is not and has been
handed out exactly once. -/
def Fate (es : List Event) (i : Nat) (w : Value) : Prop :=
  (i ∈ line es ∧ ∀ j, ¬ TakenAt es i j) ∨ (i ∉ line es ∧ Taken es i w)

theorem takenAt_append {es : List Event} {e : Event} {i j : Nat} (hj : j < es.length) :
    TakenAt (es ++ [e]) i j ↔ TakenAt es i j := by
  unfold TakenAt
  rw [List.getElem?_append_left hj, List.take_append_of_le_length (Nat.le_of_lt hj)]

/-- The last event of a history takes the first in line, if it hands out a value. -/
theorem takenAt_last {es : List Event} {e : Event} {i j : Nat} (hj : ¬ j < es.length) :
    TakenAt (es ++ [e]) i j ↔
      j = es.length ∧ (∃ v, e = .answered v true) ∧ (line es).head? = some i := by
  unfold TakenAt
  constructor
  · rintro ⟨⟨v, hv⟩, hhead⟩
    obtain ⟨hlt, -⟩ := List.getElem?_eq_some_iff.mp hv
    have hjlen : j = es.length := by
      rw [List.length_append, List.length_singleton] at hlt
      omega
    subst hjlen
    rw [List.getElem?_concat_length] at hv
    rw [List.take_left] at hhead
    exact ⟨rfl, ⟨v, Option.some.inj hv⟩, hhead⟩
  · rintro ⟨rfl, ⟨v, rfl⟩, hhead⟩
    refine ⟨⟨v, List.getElem?_concat_length⟩, ?_⟩
    rw [List.take_left]
    exact hhead

/-- Events that do not hand out this value leave its fate as it is. -/
theorem Fate.quiet {es : List Event} {e : Event} {i : Nat} {w : Value} (h : Fate es i w)
    (hline : i ∈ line (es ++ [e]) ↔ i ∈ line es)
    (hlast : ¬ ((∃ v, e = .answered v true) ∧ (line es).head? = some i)) :
    Fate (es ++ [e]) i w := by
  have hsame (j : Nat) : TakenAt (es ++ [e]) i j ↔ TakenAt es i j := by
    by_cases hj : j < es.length
    · exact takenAt_append hj
    · rw [takenAt_last hj]
      constructor
      · rintro ⟨-, hhead⟩
        exact absurd hhead hlast
      · rintro ⟨⟨v, hv⟩, -⟩
        rw [List.getElem?_eq_none (Nat.le_of_not_lt hj)] at hv
        cases hv
  rcases h with ⟨hmem, hnone⟩ | ⟨hmem, j, hj, htaken, honly⟩
  · exact .inl ⟨hline.mpr hmem, fun j hj => hnone j ((hsame j).mp hj)⟩
  · refine .inr ⟨fun h => hmem (hline.mp h), j, (getElem?_append_of_some [e] hj).1, ?_, ?_⟩
    · exact (hsame j).mpr htaken
    · exact fun j' hj' => honly j' ((hsame j').mp hj')

/-- A value is in the buffer when it has just been accepted. -/
theorem fate_accept {es : List Event} {w : Value} (hlt : ∀ j, ∀ i ∈ line (es.take j), i < es.length) :
    Fate (es ++ [.accepted w]) es.length w := by
  refine .inl ⟨?_, fun j hj => ?_⟩
  · rw [line_append]
    exact List.mem_append_right _ (List.mem_singleton_self _)
  · by_cases hjlt : j < es.length
    · have hmem := List.mem_of_mem_head? ((takenAt_append hjlt).mp hj).2
      exact Nat.lt_irrefl _ (hlt j es.length hmem)
    · obtain ⟨-, ⟨v, hv⟩, -⟩ := (takenAt_last hjlt).mp hj
      cases hv

/-- When a value is handed out, it is the first in line; to the others nothing happens. -/
theorem Fate.handOut {es : List Event} {buffer : List Value} {i : Nat} {v w : Value}
    (h : Fate es i w) (hl : Lined es (v :: buffer)) (hi : es[i]? = some (.accepted w)) :
    Fate (es ++ [.answered v true]) i w := by
  have hvalues := hl.values
  have hnodup := hl.nodup
  -- The buffer is not empty, so neither is the line, and the first of the line goes.
  generalize hplaces : line es = places at hvalues hnodup
  cases hvalues with
  | @cons first _ rest _ hfirst _ =>
    have hline : line (es ++ [.answered v true]) = rest := by
      rw [line_append, hplaces]
      rfl
    by_cases hthis : first = i
    · subst hthis
      cases hfirst.symm.trans hi
      rcases h with ⟨-, hnone⟩ | ⟨hmem, -⟩
      · refine .inr ⟨?_, es.length, List.getElem?_concat_length, ?_, ?_⟩
        · rw [hline]
          exact (List.nodup_cons.mp hnodup).1
        · exact (takenAt_last (Nat.lt_irrefl _)).mpr ⟨rfl, ⟨_, rfl⟩, by rw [hplaces]; rfl⟩
        · intro j hj
          by_cases hjlt : j < es.length
          · exact absurd ((takenAt_append hjlt).mp hj) (hnone j)
          · exact ((takenAt_last hjlt).mp hj).1
      · rw [hplaces] at hmem
        exact absurd List.mem_cons_self hmem
    · refine h.quiet ?_ ?_
      · rw [hline, hplaces, List.mem_cons]
        constructor
        · exact .inr
        · rintro (rfl | hmem)
          · exact absurd rfl hthis
          · exact hmem
      · rintro ⟨-, hhead⟩
        rw [hplaces] at hhead
        exact hthis (Option.some.inj hhead)

/-- **No effect changes what became of a value**, except that the first in line may be handed out. -/
theorem Fate.effect {es : List Event} {e : Event} {c c' : Channel} {n n' i : Nat} {w : Value}
    (h : Fate es i w) (hl : Lined es c.buffer) (he : Effect c n e c' n')
    (hi : es[i]? = some (.accepted w)) : Fate (es ++ [e]) i w := by
  have hkeep (hline : line (es ++ [e]) = line es) (hout : ∀ v, e ≠ .answered v true) :
      Fate (es ++ [e]) i w := by
    refine h.quiet (by rw [hline]) ?_
    rintro ⟨⟨v, hv⟩, -⟩
    exact hout v hv
  cases he with
  | accept _ _ =>
    have hlt : i < es.length := (List.getElem?_eq_some_iff.mp hi).1
    refine h.quiet ?_ (by rintro ⟨⟨v, hv⟩, -⟩; cases hv)
    rw [line_append]
    simp only [Event.moveLine, List.mem_append, List.mem_singleton]
    constructor
    · rintro (hmem | rfl)
      · exact hmem
      · exact absurd hlt (Nat.lt_irrefl _)
    · exact .inl
  | handOut hv =>
    rw [hv] at hl
    exact h.handOut hl hi
  | exhaust _ _ _ => exact hkeep (line_append ..) nofun
  | close _ => exact hkeep (line_append ..) nofun
  | register => exact hkeep (line_append ..) nofun
  | withdraw => exact hkeep (line_append ..) nofun
  | stay => exact hkeep (line_append ..) nofun

variable {capacity : Nat} {elemType : Option HostType} {h : Heap} {es : List Event} {s : Config}

/-- **Runs keep the line in agreement with the buffer.** -/
theorem Run.lined (hnew : h.chans.get? id = some { capacity, elemType })
    (hr : Run id ⟨h, []⟩ es s) :
    ∃ c, s.heap.chans.get? id = some c ∧ Books capacity elemType es c (guards s.ops) ∧
      Lined es c.buffer := by
  induction hr with
  | nil => exact ⟨_, hnew, .new, .nil, nofun⟩
  | step _ hm ih =>
    obtain ⟨c, hc, hb, hl⟩ := ih
    obtain ⟨c', hc', he⟩ := hm.effect hc
    exact ⟨c', hc', hb.effect he, hl.effect hb he⟩

theorem Run.line_lt (hnew : h.chans.get? id = some { capacity, elemType })
    (hr : Run id ⟨h, []⟩ es s) (j : Nat) : ∀ i ∈ line (es.take j), i < es.length := by
  intro i hi
  -- The line after `j` events is the line of a shorter run.
  rw [← List.take_append_drop j es] at hr
  obtain ⟨m, hm, -⟩ := hr.cut
  obtain ⟨_, _, _, hl⟩ := Run.lined hnew hm
  exact Nat.lt_of_lt_of_le (hl.lt_of_mem hi) (List.length_take_le' ..)

/-- **A value that was accepted is handed out once, and until then it is in the buffer.** -/
theorem Run.fate (hnew : h.chans.get? id = some { capacity, elemType })
    (hr : Run id ⟨h, []⟩ es s) {i : Nat} {w : Value} (hi : es[i]? = some (.accepted w)) :
    Fate es i w := by
  induction hr with
  | nil => cases hi
  | @step es e m m' hr hm ih =>
    by_cases hbefore : i < es.length
    · rw [List.getElem?_append_left hbefore] at hi
      obtain ⟨c, hc, -, hl⟩ := Run.lined hnew hr
      obtain ⟨c', -, he⟩ := hm.effect hc
      exact (ih hi).effect hl he hi
    · -- This very event is the acceptance.
      obtain ⟨hlt, -⟩ := List.getElem?_eq_some_iff.mp hi
      have hlast : i = es.length := by
        rw [List.length_append, List.length_singleton] at hlt
        omega
      subst hlast
      rw [List.getElem?_concat_length] at hi
      cases hi
      exact fate_accept (Run.line_lt hnew hr)

/-! ## The rendezvous -/

/-- On an unbuffered channel that is open, the value whose ticket is settled is no longer in line; on
a closed one it may be, and then it is in the buffer. -/
theorem Run.settled {before after : List Event} {w : Value} {m : Config} {ticket : Nat}
    (hnew : h.chans.get? id = some { capacity, elemType })
    (hm : Run id ⟨h, []⟩ (before ++ [.accepted w]) m) (hticket : IsTicket id m.heap ticket)
    (hr : Run id ⟨h, []⟩ (before ++ [.accepted w] ++ after) s)
    (hsettled : (s.heap.chan id).isSettled ticket = true) :
    ∃ c, s.heap.chans.get? id = some c ∧
      (Taken (before ++ [.accepted w] ++ after) before.length w ∨ c.closed = true ∧
        Buffered (before ++ [.accepted w] ++ after) c.buffer before.length w) := by
  obtain ⟨d, hd, hbooks, -⟩ := Run.lined hnew hm
  obtain ⟨c, hc, hb, hl⟩ := Run.lined hnew hr
  have hrank : ticket = (accepted before).length + 1 := by
    rw [hticket d hd, hbooks.sent_eq]
    simp [accepted]
  have hplace : (before ++ [.accepted w] ++ after)[before.length]? = some (.accepted w) :=
    (getElem?_append_of_some after List.getElem?_concat_length).1
  refine ⟨c, hc, ?_⟩
  rcases Run.fate hnew hr hplace with ⟨hmem, -⟩ | ⟨-, htaken⟩
  · obtain ⟨k, hk, hplace_k⟩ := List.getElem_of_mem hmem
    have hk? := (List.getElem?_eq_getElem hk).trans (congrArg some hplace_k)
    -- In line there are at least as many values ahead of it as have been received, so it can only
    -- be settled because the channel is closed.
    have hahead := hl.ranks k before.length hk?
    rw [← hb.received_eq, List.append_assoc, List.take_left] at hahead
    rw [Heap.chan_eq hc, Channel.isSettled, Bool.or_eq_true, decide_eq_true_eq] at hsettled
    have hclosed : c.closed = true := by
      rcases hsettled with hle | hclosed
      · omega
      · exact hclosed
    have hkb : k < c.buffer.length := hl.values.length_eq ▸ hk
    have hvalue := List.Forall₂.get hl.values hk hkb
    simp only [List.get_eq_getElem] at hvalue
    rw [hplace_k, hplace] at hvalue
    cases hvalue
    exact .inr ⟨hclosed, k, hk?, List.getElem?_eq_getElem hkb⟩
  · exact .inl htaken

theorem not_accepted_of_visible {past : Record} (h : visible past = []) (i : Nat) (w : Value) :
    past[i]? ≠ some (true, .accepted w) := by
  intro hi
  have hmem : Event.accepted w ∈ visible past :=
    List.mem_filterMap.mpr ⟨_, List.mem_of_getElem? hi, rfl⟩
  rw [h] at hmem
  cases hmem

/-- **A send on an unbuffered channel meets a receive of its own value.**  The channel was made empty,
and any number of operations `others` are under way on it; more may begin, and all may move whenever
the send waits.  If the send succeeds, it has left exactly one value, and this very value has been
handed out, to exactly one receive, which was answered with it and `true`; or else the channel is
closed and the value is still in the buffer. -/
theorem send_rendezvous (rounds : Nat) (v : Value) (signal : SignalId) {others : List Stage}
    {s : EngineState} (hnew : h.chans.get? id = some { capacity := 0, elemType })
    (hr : Run id ⟨h, []⟩ es ⟨s.heap, others⟩) :
    Plays id (fun (r : Except EvalError Unit) s' _ _ past => r = .ok () →
        ∃ c i w, s'.heap.chans.get? id = some c ∧ past[i]? = some (true, .accepted w) ∧
          (∀ i' w', past[i']? = some (true, .accepted w') → i' = i) ∧
          (Taken past.events i w ∨ c.closed = true ∧ Buffered past.events c.buffer i w))
      (Eval.send rounds id v signal s) s [] others (theirs es) := by
  have hstart : Run id ⟨h, []⟩ (theirs es).events ⟨s.heap, others⟩ := by
    rw [events_theirs]
    exact hr
  have hsend := plays_send rounds v signal rfl (visible_theirs es) hstart
  refine (hsend.together (by simpa using hstart)).mono ?_
  rintro r s' own others past ⟨⟨-, -, hpost⟩, hrun⟩ rfl
  obtain ⟨w, before, after, rfl, hbefore, hafter, m, ticket, hm, hticket, hsettled⟩ := hpost
  -- The capacity never changes, so the send has waited for the receipt.
  have hcap : (m.heap.chan id).capacity = 0 := by
    obtain ⟨d, hd, hb⟩ := Run.books hnew hm
    rw [Heap.chan_eq hd]
    exact hb.capacity_eq
  simp only [Record.events_append, events_mine] at hrun ⊢
  obtain ⟨c, hc, hfate⟩ := Run.settled hnew hm hticket hrun (hsettled hcap)
  have hlength : before.events.length = before.length := List.length_map _
  rw [hlength] at hfate
  refine ⟨c, before.length, w, hc, ?_, ?_, hfate⟩
  · rw [List.append_assoc, List.getElem?_append_right (Nat.le_refl _), Nat.sub_self]
    rfl
  · intro i w' hi
    by_contra hne
    by_cases hlt : i < before.length
    · rw [List.append_assoc, List.getElem?_append_left hlt] at hi
      exact not_accepted_of_visible hbefore i w' hi
    · have hge : (before ++ mine [.accepted w]).length ≤ i := by
        rw [List.length_append]
        show before.length + 1 ≤ i
        omega
      rw [List.getElem?_append_right hge] at hi
      exact not_accepted_of_visible hafter _ w' hi

/-- A task that is going to send on the unbuffered channel of bytes. -/
def sender : EngineState := { EngineState.initial with heap := byteChannel }

/-- What the sender finds when another task has received its value. -/
def resumed : EngineState :=
  { sender.hold (.value (.chan 0)) with
    heap := (byteChannel.modifyChan 0 (·.accept (.int 44))).modifyChan 0 fun c =>
      { c with buffer := c.buffer.tail, received := c.received + 1 } }

/-- The sender has to wait; once another task has received the value, the send succeeds, and what was
received is what it sent. -/
theorem send_rendezvous_handover : ∃ waiting resume done past i w,
    Eval.send 2 0 (.int 300) 0 sender = .wait waiting (.pickup 0 1 0) resume ∧
    Run 0 ⟨waiting.heap, []⟩ [.answered (.int 44) true] ⟨resumed.heap, []⟩ ∧
    resume resumed = .done done (.ok ()) ∧
    past[i]? = some (true, .accepted w) ∧ Taken (Record.events past) i w := by
  have hplays := send_rendezvous 2 (.int 300) 0 (s := sender) rfl
    (.nil : Run 0 ⟨byteChannel, []⟩ [] ⟨sender.heap, []⟩)
  have hreceive : Run 0 ⟨byteChannel.modifyChan 0 (·.accept (.int 44)), []⟩
      [.answered (.int 44) true] ⟨resumed.heap, []⟩ := (Move.tryRecv rfl).run
  obtain ⟨es, own, -, hresume⟩ := hplays
  obtain ⟨es', own', -, hdone⟩ := hresume resumed _ [] ⟨rfl, rfl⟩ hreceive
  obtain ⟨c, i, w, hc, hi, -, hfate⟩ := hdone rfl
  cases hc
  rcases hfate with htaken | ⟨hclosed, -⟩
  · exact ⟨_, _, _, _, i, w, rfl, hreceive, rfl, hi, htaken⟩
  · cases hclosed

end ChannelRun
end ScriptEngine
