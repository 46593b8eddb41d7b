import ScriptEngine.Proofs.Channel.Conservation
import ScriptEngine.Proofs.Task.Equations

/-! # The operations of tasks are made of moves

`Proofs.Channel.Moves` says what a move is; here the operations that tasks really perform are shown
to consist of moves.  A computation **plays** on a channel (`Plays`) if everything it does up to
its next pause is a sequence of moves of its own, and it goes on like that from whatever the moves of
others have made of the heap in the meantime.  Besides moving, all the others have to respect is what
a task holds while it waits (`EngineState.Undisturbed`): the registration of a receive that waits is
such a holding.

Every operation of evaluation plays like that (`Operates.plays`), so the laws of channels, which are about
runs made of moves, hold of whatever evaluation does to a channel (`Operates.books`).
-/
namespace ScriptEngine

namespace EngineState

/-- What a task that waited finds again: it is the one that runs, and it holds what it held. -/
structure Undisturbed (s s' : EngineState) : Prop where
  current_eq : s'.current = s.current
  held_eq : s'.held.get? s.current = s.held.get? s.current

/-- The running task holds exactly this, the latest first; nothing is known of a task without
holdings. -/
def Holds (s : EngineState) (xs : Option (List Holding)) : Prop := s.held.get? s.current = xs

theorem Undisturbed.holds {s s' : EngineState} (hu : s.Undisturbed s') {xs : Option (List Holding)}
    (hx : s.Holds xs) : s'.Holds xs := by
  unfold Holds
  rw [hu.current_eq, hu.held_eq]
  exact hx

theorem Holds.hold {s : EngineState} {xs : Option (List Holding)} (hx : s.Holds xs) (x : Holding) :
    (s.hold x).Holds (xs.map (x :: ·)) := by
  show (s.held.modify s.current (x :: ·)).get? s.current = xs.map (x :: ·)
  rw [Store.get?_modify_self, show s.held.get? s.current = xs from hx]

theorem letGo_eq {s : EngineState} {x : Holding} {xs : List Holding} (hx : s.Holds (some (x :: xs))) :
    s.letGo = { s with held := s.held.set s.current xs }.giveBack x := by
  unfold letGo letGoOf
  rw [show s.held.get? s.current = some (x :: xs) from hx]

theorem holds_set {s : EngineState} {x : Holding} {xs : List Holding}
    (hx : s.Holds (some (x :: xs))) : { s with held := s.held.set s.current xs }.Holds (some xs) :=
  Store.get?_set_self hx

/-- Letting go of a value changes nothing but what is held. -/
theorem letGo_value {s : EngineState} {v : Value} {xs : Option (List Holding)}
    (hx : s.Holds (xs.map (.value v :: ·))) : s.letGo.Holds xs ∧ s.letGo.heap = s.heap := by
  cases xs with
  | none =>
    have hsame : s.letGo = s := by
      unfold letGo letGoOf
      rw [show s.held.get? s.current = none from hx]
    rw [hsame]
    exact ⟨hx, rfl⟩
  | some xs =>
    rw [letGo_eq hx]
    exact ⟨holds_set hx, rfl⟩

/-- Letting go of a registration withdraws it. -/
theorem letGo_receiver {s : EngineState} {id : ChanId} {xs : List Holding}
    (hx : s.Holds (some (.receiver id :: xs))) :
    s.letGo.Holds (some xs) ∧ s.letGo.heap = s.heap.modifyChan id (·.withdraw) := by
  rw [letGo_eq hx]
  exact ⟨holds_set hx, rfl⟩

end EngineState

namespace ChannelRun
variable {α β : Type} {id : ChanId}

/-! ## Computations that play on a channel -/

theorem Run.trans {a b c : Config} {es es' : List Event} (hr : Run id a es b)
    (hr' : Run id b es' c) : Run id a (es ++ es') c := by
  induction hr' with
  | nil => rw [List.append_nil]; exact hr
  | step _ hm ih => rw [← List.append_assoc]; exact .step ih hm

theorem Move.run {a b : Config} {e : Event} (hm : Move id a e b) : Run id a [e] b :=
  .step .nil hm

/-- The moves of one operation are moves among any others. -/
theorem Move.frame {h h' : Heap} {ops ops' : List Stage} {e : Event}
    (hm : Move id ⟨h, ops⟩ e ⟨h', ops'⟩) (before after : List Stage) :
    Move id ⟨h, before ++ ops ++ after⟩ e ⟨h', before ++ ops' ++ after⟩ := by
  cases hm with
  | prepare b a hc =>
    simpa using Move.prepare (before ++ b) (a ++ after) hc
  | accept b a ho =>
    simpa using Move.accept (before ++ b) (a ++ after) ho
  | noRoom b a ho =>
    simpa using Move.noRoom (before ++ b) (a ++ after) ho
  | refuse b a ho =>
    simpa using Move.refuse (before ++ b) (a ++ after) ho
  | deliver b a hs =>
    simpa using Move.deliver (before ++ b) (a ++ after) hs
  | abandon b a hop =>
    simpa using Move.abandon (before ++ b) (a ++ after) hop
  | trySend hc hs => exact .trySend hc hs
  | skip hs => exact .skip hs
  | tryRecv hr => exact .tryRecv hr
  | arrive b a hr =>
    simpa using Move.arrive (before ++ b) (a ++ after) hr
  | enlist b a => simpa using Move.enlist (before ++ b) (a ++ after)
  | take b a hr =>
    simpa using Move.take (before ++ b) (a ++ after) hr
  | nothing b a hr =>
    simpa using Move.nothing (before ++ b) (a ++ after) hr
  | giveUp b a => simpa using Move.giveUp (before ++ b) (a ++ after)
  | register b a => simpa using Move.register (before ++ b) (a ++ after)
  | withdraw b a => simpa using Move.withdraw (before ++ b) (a ++ after)
  | close hc => exact .close hc
  | elsewhere he => exact .elsewhere he

/-- **Framing**: a run of one operation can take place between any others. -/
theorem Run.frame {s : Config} {h' : Heap} {ops' : List Stage} {es : List Event}
    (hr : Run id s es ⟨h', ops'⟩) (before after : List Stage) :
    Run id ⟨s.heap, before ++ s.ops ++ after⟩ es ⟨h', before ++ ops' ++ after⟩ := by
  generalize hend : Config.mk h' ops' = s' at hr
  induction hr generalizing h' ops' with
  | nil => subst hend; exact .nil
  | @step es e m m' _ hm ih =>
    subst hend
    exact .step (ih rfl) (hm.frame before after)

/-- What has happened on a channel, as one of the computations sees it: with every event goes whether
it was a move of its own. -/
abbrev Record := List (Bool × Event)

/-- Moves of its own. -/
def mine (es : List Event) : Record := es.map (true, ·)

/-- Moves of others. -/
def theirs (es : List Event) : Record := es.map (false, ·)

/-- The events of a record, no matter whose. -/
def Record.events (past : Record) : List Event := past.map (·.2)

@[simp] theorem Record.events_append (past past' : Record) :
    (past ++ past').events = past.events ++ past'.events :=
  List.map_append

@[simp] theorem events_mine (es : List Event) : (mine es).events = es := by
  simp [mine, Record.events, Function.comp_def]

@[simp] theorem events_theirs (es : List Event) : (theirs es).events = es := by
  simp [theirs, Record.events, Function.comp_def]

@[simp] theorem mine_append (es es' : List Event) : mine (es ++ es') = mine es ++ mine es' :=
  List.map_append

/-- **The computation plays on the channel.**  It started in `s`, with the stage `own` of its
operation, among the operations `others`; `past` is what happened before.  When it is done, `Q` holds
of its result, the state, the stages and all that has happened. -/
def Plays (id : ChanId) (Q : α → EngineState → List Stage → List Stage → Record → Prop) :
    Step α → EngineState → List Stage → List Stage → Record → Prop
  | .done s' a, s, own, others, past =>
    ∃ es own', Run id ⟨s.heap, own⟩ es ⟨s'.heap, own'⟩ ∧ Q a s' own' others (past ++ mine es)
  | .wait s' _ resume, s, own, others, past =>
    ∃ es own', Run id ⟨s.heap, own⟩ es ⟨s'.heap, own'⟩ ∧
      ∀ s'' es' others', s'.Undisturbed s'' → Run id ⟨s'.heap, others⟩ es' ⟨s''.heap, others'⟩ →
        Plays id Q (resume s'') s'' own' others' (past ++ mine es ++ theirs es')
  | .stop s' _, s, own, _, _ => ∃ es own', Run id ⟨s.heap, own⟩ es ⟨s'.heap, own'⟩

variable {P : α → EngineState → List Stage → List Stage → Record → Prop}
  {Q : β → EngineState → List Stage → List Stage → Record → Prop} {own others : List Stage}
  {past : Record}

theorem Plays.done {s : EngineState} {a : α} (hp : P a s own others past) :
    Plays id P (.done s a) s own others past :=
  ⟨[], own, .nil, by rw [mine, List.map_nil, List.append_nil]; exact hp⟩

/-- Moves may come first. -/
theorem Plays.after {s : EngineState} (s₁ : EngineState) {own₁ : List Stage} {es : List Event}
    (hr : Run id ⟨s.heap, own⟩ es ⟨s₁.heap, own₁⟩) {x : Step α}
    (hx : Plays id P x s₁ own₁ others (past ++ mine es)) : Plays id P x s own others past := by
  cases x with
  | done s' a =>
    obtain ⟨es', own', hr', hp⟩ := hx
    refine ⟨_, own', hr.trans hr', ?_⟩
    rw [mine_append, ← List.append_assoc]
    exact hp
  | wait s' on resume =>
    obtain ⟨es', own', hr', hp⟩ := hx
    refine ⟨_, own', hr.trans hr', ?_⟩
    rw [mine_append, ← List.append_assoc]
    exact hp
  | stop s' why =>
    obtain ⟨es', own', hr'⟩ := hx
    exact ⟨_, own', hr.trans hr'⟩

/-- One computation after the other. -/
theorem Plays.bind {x : Step α} {f : α → EngineState → Step β} {s : EngineState}
    (hx : Plays id P x s own others past)
    (hf : ∀ a s own others past, P a s own others past → Plays id Q (f a s) s own others past) :
    Plays id Q (x.bind f) s own others past := by
  induction x generalizing s own others past with
  | done s' a =>
    obtain ⟨es, own', hr, hp⟩ := hx
    exact .after s' hr (hf a s' own' others _ hp)
  | wait s' on resume ih =>
    obtain ⟨es, own', hr, hp⟩ := hx
    exact ⟨es, own', hr, fun s'' es' others' hu he => ih s'' (hp s'' es' others' hu he)⟩
  | stop s' why => exact hx

theorem Plays.mono {P' : α → EngineState → List Stage → List Stage → Record → Prop} {x : Step α}
    {s : EngineState} (hx : Plays id P x s own others past)
    (hp : ∀ a s own others past, P a s own others past → P' a s own others past) :
    Plays id P' x s own others past := by
  induction x generalizing s own others past with
  | done s' a =>
    obtain ⟨es, own', hr, h⟩ := hx
    exact ⟨es, own', hr, hp _ _ _ _ _ h⟩
  | wait s' on resume ih =>
    obtain ⟨es, own', hr, h⟩ := hx
    exact ⟨es, own', hr, fun s'' es' others' hu he => ih s'' (h s'' es' others' hu he)⟩
  | stop s' why => exact hx

/-- **All together**: what a computation and the others did is one run of the channel. -/
theorem Plays.together {start : Config} {x : Step α} {s : EngineState}
    (hx : Plays id P x s own others past)
    (hr : Run id start past.events ⟨s.heap, others ++ own⟩) :
    Plays id (fun a s own others past => P a s own others past ∧
      Run id start past.events ⟨s.heap, others ++ own⟩) x s own others past := by
  have hown {s s' : EngineState} {own own' others : List Stage} {past : Record} {es : List Event}
      (hr : Run id start past.events ⟨s.heap, others ++ own⟩)
      (hes : Run id ⟨s.heap, own⟩ es ⟨s'.heap, own'⟩) :
      Run id start (past ++ mine es).events ⟨s'.heap, others ++ own'⟩ := by
    have hframe := hes.frame others []
    simp only [List.append_nil] at hframe
    rw [Record.events_append, events_mine]
    exact hr.trans hframe
  induction x generalizing s own others past with
  | done s' a =>
    obtain ⟨es, own', hes, hp⟩ := hx
    exact ⟨es, own', hes, hp, hown hr hes⟩
  | wait s' on resume ih =>
    obtain ⟨es, own', hes, hp⟩ := hx
    refine ⟨es, own', hes, fun s'' es' others' hu he => ih s'' (hp s'' es' others' hu he) ?_⟩
    have hframe := he.frame [] own'
    rw [Record.events_append, events_theirs]
    exact (hown hr hes).trans hframe
  | stop s' why => exact hx

/-- A computation that holds a value meanwhile plays as it does without. -/
theorem plays_holdingValue {P : Except EvalError α → Heap → List Stage → List Stage → Record → Prop}
    {m : Eval α} {s : EngineState} {v : Value} {xs : Option (List Holding)} (hx : s.Holds xs)
    (hm : ∀ s' : EngineState, s'.Holds (xs.map (.value v :: ·)) → s'.heap = s.heap →
      Plays id (fun r s own others es => s.Holds (xs.map (.value v :: ·)) ∧ P r s.heap own others es)
        (m s') s' own others past) :
    Plays id (fun r s own others es => s.Holds xs ∧ P r s.heap own others es)
      (Eval.holdingValue v m s) s own others past := by
  rw [Eval.holdingValue, Eval.holding_apply]
  have hstart : Plays id (fun r s own others es =>
      s.Holds (xs.map (.value v :: ·)) ∧ P r s.heap own others es)
      (m (s.hold (.value v))) s own others past :=
    Plays.after (s := s) (s.hold (.value v)) .nil (by
      rw [mine, List.map_nil, List.append_nil]
      exact hm _ (hx.hold _) rfl)
  refine hstart.bind fun r s' own' others' es ⟨hh, hp⟩ => ?_
  obtain ⟨hheld, hheap⟩ := EngineState.letGo_value hh
  refine ⟨[], own', by rw [hheap]; exact .nil, hheld, ?_⟩
  rw [hheap, mine, List.map_nil, List.append_nil]
  exact hp

/-- A failure leaves the channel alone. -/
theorem plays_ofFailure {P : Except EvalError α → EngineState → List Stage → List Stage → Record → Prop}
    {e : Failure} {s : EngineState} (hp : ∀ e, P (.error e) s own others past) :
    Plays id P (Eval.ofFailure e s) s own others past := by
  cases e with
  | fault f => exact .done (hp _)
  | overflow => exact ⟨[], own, .nil⟩

/-- The computation fails only if it is interrupted. -/
def OnlyInterrupt (r : Except EvalError α) : Prop := ∀ e, r = .error e → e.fault = .interrupt

/-- A task that waits does nothing to the channel, whether it is woken or interrupted. -/
theorem plays_await {on : Wait} {s : EngineState} {xs : Option (List Holding)} (hx : s.Holds xs) :
    Plays id (fun (r : Except EvalError Unit) s' own' _ es => s'.Holds xs ∧ OnlyInterrupt r ∧
        own' = own ∧ ∃ es', es = past ++ theirs es')
      (Eval.await on s) s own others past := by
  have hinterrupt : OnlyInterrupt (.error { fault := .interrupt } : Except EvalError Unit) := by
    rintro e he
    cases he
    rfl
  rw [Eval.await_apply]
  split
  · exact .done ⟨hx, hinterrupt, rfl, [], by rw [theirs, List.map_nil, List.append_nil]⟩
  · refine ⟨[], own, .nil, fun s'' es' others' hu _ => ?_⟩
    rw [Eval.checkWait_apply, mine, List.map_nil, List.append_nil]
    split
    · exact .done ⟨hu.holds hx, hinterrupt, rfl, es', rfl⟩
    · exact .done ⟨hu.holds hx, nofun, rfl, es', rfl⟩

/-! ## Sending -/

/-- What is to be seen of the computation's own moves. -/
def visible (past : Record) : List Event :=
  past.filterMap fun
    | (true, .silent) => none
    | (true, e) => some e
    | (false, _) => none

@[simp] theorem visible_nil : visible [] = [] := rfl

@[simp] theorem visible_append (past past' : Record) :
    visible (past ++ past') = visible past ++ visible past' :=
  List.filterMap_append

@[simp] theorem visible_silent : visible (mine [.silent]) = [] := rfl

@[simp] theorem visible_theirs (es : List Event) : visible (theirs es) = [] := by
  induction es with
  | nil => rfl
  | cons e es ih => exact ih

theorem afterAccept_modifyChan (h : Heap) (v : Value) (ticket : Nat) :
    afterAccept ((h.modifyChan id (·.accept v)).chan id) ticket =
      afterAccept (h.chan id) ticket := by
  have hcap : ((h.modifyChan id (·.accept v)).chan id).capacity = (h.chan id).capacity := by
    unfold Heap.chan Heap.modifyChan
    rw [Store.get?_modify_self]
    cases h.chans.get? id <;> rfl
  unfold afterAccept
  rw [hcap]

/-- The ticket of the value that was left last: the number of values left so far. -/
def IsTicket (id : ChanId) (h : Heap) (ticket : Nat) : Prop :=
  ∀ c, h.chans.get? id = some c → ticket = c.sent

theorem isTicket_offer {h h' : Heap} {v : Value} {ticket : Nat}
    (ho : h.offer id v = .ok (some ticket, h')) : IsTicket id h' ticket := by
  obtain ⟨-, -, -, ht, rfl⟩ | ⟨-, hr, -⟩ := Heap.offer_cases ho
  · intro c hc
    have hmodify : (h.modifyChan id (·.accept v)).chans.get? id =
        (h.chans.get? id).map (·.accept v) := Store.get?_modify_self ..
    rw [hmodify, Option.map_eq_some_iff] at hc
    obtain ⟨d, hd, rfl⟩ := hc
    rw [Heap.chan_eq hd] at ht
    exact Option.some.inj ht
  · cases hr

/-- An offer is accepted, finds no room, or is refused. -/
theorem plays_offer {v : Value} {s : EngineState} {xs : Option (List Holding)} (hx : s.Holds xs) :
    Plays id (fun (r : Except EvalError (Option Nat)) s' own _ es => s'.Holds xs ∧ match r with
        | .ok (some ticket) => own = afterAccept (s'.heap.chan id) ticket ∧
          es = past ++ mine [.accepted v] ∧ IsTicket id s'.heap ticket
        | .ok none => own = [.offering v] ∧ es = past ++ mine [.silent]
        | .error _ => own = [] ∧ es = past ++ mine [.silent])
      (Eval.offer id v s) s [.offering v] others past := by
  rw [Eval.offer_apply]
  split
  · rename_i ticket h' ho
    refine ⟨[.accepted v], _, (Move.accept [] [] ho).run, hx, ?_, rfl, isTicket_offer ho⟩
    have hh : h' = s.heap.modifyChan id (·.accept v) := by
      obtain ⟨-, -, -, -, hh⟩ | ⟨-, hr, -⟩ := Heap.offer_cases ho
      · exact hh
      · cases hr
    rw [List.nil_append, List.append_nil, hh]
    exact (afterAccept_modifyChan s.heap v ticket).symm
  · rename_i h' ho
    exact ⟨[.silent], [.offering v], (Move.noRoom [] [] ho).run, hx, rfl, rfl⟩
  · rename_i e ho
    have hrefuse : Run id ⟨s.heap, [.offering v]⟩ [.silent] ⟨s.heap, []⟩ :=
      (Move.refuse [] [] ho).run
    exact .after s hrefuse (plays_ofFailure fun e => ⟨hx, rfl, rfl⟩)

/-- Leaving a value is offering it until it is accepted, and that is the last that happens. -/
theorem plays_leave {v : Value} {signal : SignalId} {xs : Option (List Holding)} (rounds : Nat)
    {s : EngineState} (hx : s.Holds xs) (hpast : visible past = []) :
    Plays id (fun (r : Except EvalError Nat) s' own _ es => s'.Holds xs ∧ match r with
        | .ok ticket => own = afterAccept (s'.heap.chan id) ticket ∧ IsTicket id s'.heap ticket ∧
          ∃ before, es = before ++ mine [.accepted v] ∧ visible before = []
        | .error _ => own = [] ∧ visible es = [])
      (Eval.leave id v signal rounds s) s [.offering v] others past := by
  induction rounds generalizing s others past with
  | zero => exact ⟨[], _, .nil⟩
  | succ rounds ih =>
    rw [Eval.leave, Eval.bind_apply]
    refine (plays_offer hx).bind fun r s own others es ⟨hx, hr⟩ => ?_
    match r, hr with
    | .error e, ⟨ho, hes⟩ => exact .done ⟨hx, ho, by simp [hes, hpast]⟩
    | .ok (some ticket), ⟨ho, hes, hticket⟩ => exact .done ⟨hx, ho, hticket, past, hes, hpast⟩
    | .ok none, ⟨ho, hes⟩ =>
      subst ho
      show Plays id _ ((Eval.holdingValue v (Eval.await _) >>= fun _ => _) s) s _ _ _
      rw [Eval.bind_apply]
      refine (plays_holdingValue (P := fun _ _ own' _ es' =>
        own' = [.offering v] ∧ ∃ es'', es' = es ++ theirs es'') hx
        fun s hx _ => (plays_await hx).mono fun _ _ _ _ _ ⟨hx, _, hp⟩ => ⟨hx, hp⟩).bind
          fun r s own' others es' ⟨hx, ho, es'', he⟩ => ?_
      subst ho
      have hes' : visible es' = [] := by simp [he, hes, hpast]
      cases r with
      | error e => exact .after s (Move.abandon [] [] rfl).run (.done ⟨hx, rfl, by simp [hes']⟩)
      | ok _ => exact ih hx hes'

/-- A sender on an unbuffered channel only looks on, until the value with its ticket is settled. -/
theorem plays_awaitPickup {ticket : Nat} {signal : SignalId} {xs : Option (List Holding)}
    (rounds : Nat) {s : EngineState} (hx : s.Holds xs) :
    Plays id (fun (r : Except EvalError Unit) s' own _ es => s'.Holds xs ∧ own = [] ∧
        (r = .ok () → (s'.heap.chan id).isSettled ticket = true) ∧ OnlyInterrupt r ∧
        ∃ after, es = past ++ after ∧ visible after = [])
      (Eval.awaitPickup id ticket signal rounds s) s [.delivering ticket] others past := by
  induction rounds generalizing s others past with
  | zero => exact ⟨[], _, .nil⟩
  | succ rounds ih =>
    rw [Eval.awaitPickup, Eval.bind_apply, Eval.readHeap_apply, Step.bind_of_done, Eval.andThen_ok]
    cases hs : (s.heap.chan id).isSettled ticket with
    | true =>
      exact .after s (Move.deliver [] [] hs).run
        (.done ⟨hx, rfl, fun _ => hs, nofun, mine [.silent], rfl, rfl⟩)
    | false =>
      show Plays id _ ((Eval.await _ >>= fun _ => _) s) s _ _ _
      rw [Eval.bind_apply]
      refine (plays_await hx).bind fun r s own others es ⟨hx, hinterrupt, ho, es', he⟩ => ?_
      subst ho he
      cases r with
      | error e =>
        refine .after s (Move.abandon [] [] rfl).run (.done ⟨hx, rfl, nofun, ?_, ?_⟩)
        · exact fun e' he' => hinterrupt e' (by cases he'; rfl)
        · exact ⟨theirs es' ++ mine [.silent], List.append_assoc .., by simp⟩
      | ok _ =>
        refine (ih hx).mono fun r s own others es ⟨hx, ho, hs, hinterrupt, after, he, hafter⟩ => ?_
        refine ⟨hx, ho, hs, hinterrupt, theirs es' ++ after, ?_, by simp [hafter]⟩
        rw [he, List.append_assoc]

/-- **What a send that succeeds has done**, as one computation of a run from `start`: it has left one
value, for which it got a ticket; and on an unbuffered channel it has seen that the value with this
ticket is settled. -/
structure HasSent (id : ChanId) (start : Config) (w : Value) (before after : Record) (h : Heap) :
    Prop where
  before_silent : visible before = []
  after_silent : visible after = []
  settled : ∃ m ticket, Run id start (before.events ++ [.accepted w]) m ∧
    IsTicket id m.heap ticket ∧
    ((m.heap.chan id).capacity = 0 → (h.chan id).isSettled ticket = true)

/-- **What a send has done that is interrupted after it has left its value**: the channel is
unbuffered. -/
structure HasLeft (id : ChanId) (start : Config) (w : Value) (before after : Record) : Prop where
  before_silent : visible before = []
  after_silent : visible after = []
  unbuffered : ∃ m, Run id start (before.events ++ [.accepted w]) m ∧
    (m.heap.chan id).capacity = 0

/-- **A send is made of moves**: it leaves no operation behind, and it has left exactly one value if
it succeeds, and none if it fails, unless it was interrupted on an unbuffered channel. -/
theorem plays_send (rounds : Nat) (v : Value) (signal : SignalId) {s : EngineState}
    {xs : Option (List Holding)} {start : Config} (hx : s.Holds xs) (hpast : visible past = [])
    (hr : Run id start past.events ⟨s.heap, others⟩) :
    Plays id (fun (r : Except EvalError Unit) s' own _ es => s'.Holds xs ∧ own = [] ∧
        match r with
        | .ok () => ∃ w before after, es = before ++ mine [.accepted w] ++ after ∧
          HasSent id start w before after s'.heap
        | .error e => visible es = [] ∨ e.fault = .interrupt ∧ ∃ w before after,
          es = before ++ mine [.accepted w] ++ after ∧ HasLeft id start w before after)
      (Eval.send rounds id v signal s) s [] others past := by
  refine plays_holdingValue (P := fun r h own _ es => own = [] ∧ match r with
    | .ok () => ∃ w before after, es = before ++ mine [.accepted w] ++ after ∧
      HasSent id start w before after h
    | .error e => visible es = [] ∨ e.fault = .interrupt ∧ ∃ w before after,
      es = before ++ mine [.accepted w] ++ after ∧ HasLeft id start w before after) hx
    fun s₀ hx hs₀ => ?_
  rw [← hs₀] at hr
  rw [Eval.bind_apply]
  cases hc : s₀.heap.chanValue id v with
  | error e =>
    rw [Eval.onHeap_error hc]
    cases e with
    | fault f => exact .done ⟨hx, rfl, .inl hpast⟩
    | overflow => exact ⟨[], [], .nil⟩
  | ok r =>
    obtain ⟨w, h'⟩ := r
    rw [Eval.onHeap_ok hc, Step.bind_of_done, Eval.andThen_ok, Eval.bind_apply]
    have hprepare : Run id ⟨s₀.heap, []⟩ [.silent] ⟨h', [.offering w]⟩ :=
      (Move.prepare [] [] hc).run
    refine .after { s₀ with heap := h' } hprepare ?_
    have hoffering : Run id start (past ++ mine [.silent]).events
        ⟨h', others ++ [.offering w]⟩ := by
      rw [Record.events_append, events_mine]
      exact hr.trans (by simpa using hprepare.frame others [])
    have hsilent : visible (past ++ mine [.silent]) = [] := by simp [hpast]
    have hheld : { s₀ with heap := h' }.Holds (xs.map (.value (.chan id) :: ·)) := hx
    refine ((plays_leave rounds hheld hsilent).together hoffering).bind
      fun r s own others es ⟨⟨hx, hr⟩, hrun⟩ => ?_
    match r, hr with
    | .error e, ⟨ho, hes⟩ => exact .done ⟨hx, ho, .inl hes⟩
    | .ok ticket, ⟨ho, hticket, before, he, hbefore⟩ =>
      subst he
      rw [Record.events_append, events_mine] at hrun
      rw [Eval.andThen_ok, Eval.bind_apply, Eval.readHeap_apply, Step.bind_of_done, Eval.andThen_ok]
      unfold afterAccept at ho
      by_cases hcap : (s.heap.chan id).capacity = 0
      · rw [if_pos hcap] at ho
        subst ho
        simp only [hcap, beq_self_eq_true, if_true]
        refine (plays_awaitPickup rounds hx).mono
          fun r s' own others es ⟨hx, ho, hsettled, hinterrupt, after, he, hafter⟩ => ⟨hx, ho, ?_⟩
        cases r with
        | ok _ =>
          exact ⟨w, before, after, he, hbefore, hafter, _, ticket, hrun, hticket,
            fun _ => hsettled rfl⟩
        | error e =>
          exact .inr ⟨hinterrupt e rfl, w, before, after, he, hbefore, hafter, _, hrun, hcap⟩
      · rw [if_neg hcap] at ho
        simp only [beq_iff_eq, hcap, if_false]
        exact .done ⟨hx, ho, w, before, [], by rw [List.append_nil], hbefore, rfl, _, ticket, hrun,
          hticket, fun h => absurd h hcap⟩

/-- **A send that does not wait is one move.** -/
theorem plays_trySend {v : Value} {s : EngineState} {xs : Option (List Holding)}
    (hx : s.Holds xs) :
    Plays id (fun (r : Except EvalError Bool) s' own _ es => s'.Holds xs ∧ own = [] ∧ match r with
        | .ok true => ∃ w, visible es = visible past ++ [.accepted w]
        | _ => visible es = visible past)
      (Eval.trySend id v s) s [] others past := by
  rw [Eval.trySend_apply]
  split
  · rename_i h hs
    obtain ⟨⟨w, h₁⟩, hw, -⟩ := Outcome.bind_eq_ok.mp hs
    exact ⟨[.accepted w], [], (Move.trySend hw hs).run, hx, rfl, w, by simp; rfl⟩
  · rename_i h hs
    exact ⟨[.silent], [], (Move.skip hs).run, hx, rfl, by simp⟩
  · exact plays_ofFailure fun e => ⟨hx, rfl, rfl⟩

/-! ## Receiving and closing -/

/-- What is to be seen of a receive: the answer it gives. -/
def answer : Except EvalError (Option (Value × Bool)) → List Event
  | .ok (some (v, ok)) => [.answered v ok]
  | _ => []

theorem visible_answered (v : Value) (ok : Bool) :
    visible (past ++ mine [.answered v ok]) = visible past ++ [.answered v ok] := by
  rw [visible_append]
  rfl

/-- **A receive that does not wait is one move**, unless it fails or finds nothing. -/
theorem plays_tryRecv {s : EngineState} {xs : Option (List Holding)} (hx : s.Holds xs) :
    Plays id (fun (r : Except EvalError (Option (Value × Bool))) s' own _ es =>
        s'.Holds xs ∧ own = [] ∧ visible es = visible past ++ answer r)
      (Eval.tryRecv id s) s [] others past := by
  rw [Eval.tryRecv_apply]
  split
  · rename_i v h hr
    exact ⟨_, [], (Move.tryRecv hr).run, hx, rfl, visible_answered v true⟩
  · rename_i r h _ hr
    match r with
    | none => exact ⟨[.silent], [], (Move.elsewhere (by rw [Heap.tryRecv_eq_none hr])).run,
        hx, rfl, by simp [answer]⟩
    | some (v, ok) => exact ⟨_, [], (Move.tryRecv hr).run, hx, rfl, visible_answered v ok⟩
  · exact plays_ofFailure fun e => ⟨hx, rfl, (List.append_nil _).symm⟩

/-- A registered receive looks until it is answered; only its registration remains. -/
theorem plays_awaitValue {signal : SignalId} {xs : Option (List Holding)} (rounds : Nat)
    {s : EngineState} (hx : s.Holds xs) :
    Plays id (fun (r : Except EvalError (Value × Bool)) s' own _ es =>
        s'.Holds xs ∧ own = [.guard] ∧ visible es = visible past ++ answer (r.map some))
      (Eval.awaitValue id signal rounds s) s [.receiving] others past := by
  induction rounds generalizing s others past with
  | zero => exact ⟨[], _, .nil⟩
  | succ rounds ih =>
    have hgive (s : EngineState) : Run id ⟨s.heap, [.receiving]⟩ [.silent] ⟨s.heap, [.guard]⟩ :=
      (Move.giveUp [] []).run
    rw [Eval.awaitValue, Eval.bind_apply, Eval.tryRecv_apply]
    split
    · rename_i v h hr
      exact .after ({ s with heap := h }.notify _) (Move.take [] [] hr).run
        (.done ⟨hx, rfl, visible_answered v true⟩)
    · rename_i r h _ hr
      match r with
      | some (v, ok) =>
        exact .after { s with heap := h } (Move.take [] [] hr).run
          (.done ⟨hx, rfl, visible_answered v ok⟩)
      | none =>
        show Plays id _ ((Eval.await _ >>= fun _ => _) { s with heap := h }) s _ _ _
        rw [Eval.bind_apply]
        refine .after { s with heap := h } (Move.nothing [] [] hr).run ?_
        refine (plays_await (s := { s with heap := h }) hx).bind
          fun r s own others es ⟨hx, _, ho, es', he⟩ => ?_
        subst ho
        have hes : visible es = visible past := by simp [he]
        cases r with
        | error e => exact .after s (hgive s) (.done ⟨hx, rfl, by simp [hes, answer, Except.map]⟩)
        | ok _ =>
          rw [← hes]
          exact ih hx
    · rename_i e _
      cases e with
      | fault f => exact .after s (hgive s) (.done ⟨hx, rfl, by simp [answer, Except.map]⟩)
      | overflow => exact ⟨[], _, .nil⟩

/-- **A receive is made of moves**: it leaves no operation behind, its registration included, and it
has been answered with exactly what it gives. -/
theorem plays_recv {rounds : Nat} {signal : SignalId} {s : EngineState} {xs : List Holding}
    (hx : s.Holds (some xs)) :
    Plays id (fun (r : Except EvalError (Value × Bool)) s' own _ es =>
        s'.Holds (some xs) ∧ own = [] ∧ visible es = visible past ++ answer (r.map some))
      (Eval.recv rounds id signal s) s [] others past := by
  refine plays_holdingValue (P := fun r _ own _ es =>
    own = [] ∧ visible es = visible past ++ answer (r.map some)) hx fun s hx _ => ?_
  rw [Eval.bind_apply, Eval.tryRecv_apply]
  split
  · rename_i v h hr
    exact .after ({ s with heap := h }.notify _) (Move.tryRecv hr).run
      (.done ⟨hx, rfl, visible_answered v true⟩)
  · rename_i r h _ hr
    match r with
    | some (v, ok) =>
      exact .after { s with heap := h } (Move.tryRecv hr).run
        (.done ⟨hx, rfl, visible_answered v ok⟩)
    | none =>
      show Plays id _ ((Eval.modify _ >>= fun _ => _) { s with heap := h }) s _ _ _
      rw [Eval.bind_apply, Eval.modify_apply, Step.bind_of_done, Eval.andThen_ok,
        Eval.holding_apply]
      -- The registration is held from here on, and letting go of it is the last move.
      refine .after { s with heap := h }
        (Move.arrive [] [] hr).run ?_
      refine .after (({ s with heap := h }.register id).hold (.receiver id))
        (Move.enlist [] []).run ?_
      have hx' : ({ s with heap := h }.register id).Holds (some (.value (.chan id) :: xs)) := hx
      refine (plays_awaitValue rounds (hx'.hold _)).bind fun r s' own others es ⟨hx, ho, hes⟩ => ?_
      subst ho
      obtain ⟨hheld, hheap⟩ := EngineState.letGo_receiver hx
      refine ⟨[.silent], [], ?_, hheld, rfl, by simpa using hes⟩
      rw [hheap]
      exact (Move.withdraw [] []).run
  · rename_i e _
    exact Plays.bind (P := fun r s' own _ es => s'.Holds _ ∧ own = [] ∧ es = past ∧
      ∃ e, r = .error e)
      (plays_ofFailure fun e => ⟨hx, rfl, rfl, e, rfl⟩)
      fun r s own others es ⟨hx, ho, hes, e, hr⟩ => by
        subst hr hes
        exact .done ⟨hx, ho, by simp [answer, Except.map]⟩

/-- **A close is one move.** -/
theorem plays_close {s : EngineState} {xs : Option (List Holding)} (hx : s.Holds xs) :
    Plays id (fun (r : Except EvalError Unit) s' own _ es => s'.Holds xs ∧ own = [] ∧
        visible es = visible past ++ match r with
          | .ok () => [.closed]
          | .error _ => [])
      (Eval.close id s) s [] others past := by
  rw [Eval.close_apply]
  split
  · rename_i h hc
    exact ⟨[.closed], [], (Move.close hc).run, hx, rfl, by rw [visible_append]; rfl⟩
  · exact plays_ofFailure fun e => ⟨hx, rfl, (List.append_nil _).symm⟩

/-! ## All operations together -/

/-- **The operations on a channel**, each with what can be seen of it, given what it ends with. -/
inductive Operates (id : ChanId) :
    {α : Type} → Eval α → (Except EvalError α → List Event → Prop) → Prop where
  /-- A value has been left if the send succeeds, and otherwise only if it was interrupted. -/
  | send (rounds : Nat) (v : Value) (signal : SignalId) :
      Operates id (Eval.send rounds id v signal) fun r es =>
        (∃ w, es = [.accepted w] ∧ ∀ e, r = .error e → e.fault = .interrupt) ∨
          es = [] ∧ r ≠ .ok ()
  | trySend (v : Value) :
      Operates id (Eval.trySend id v) fun r es =>
        (∃ w, es = [.accepted w] ∧ r = .ok true) ∨ es = [] ∧ r ≠ .ok true
  | recv (rounds : Nat) (signal : SignalId) :
      Operates id (Eval.recv rounds id signal) fun r es => es = answer (r.map some)
  | tryRecv : Operates id (Eval.tryRecv id) fun r es => es = answer r
  | close :
      Operates id (Eval.close id) fun r es => es = [.closed] ∧ r = .ok () ∨ es = [] ∧ r ≠ .ok ()

theorem Operates.plays {m : Eval α} {Shows : Except EvalError α → List Event → Prop}
    (hm : Operates id m Shows) {s : EngineState} {xs : List Holding} (hx : s.Holds (some xs))
    (hpast : visible past = []) {start : Config} (hr : Run id start past.events ⟨s.heap, others⟩) :
    Plays id (fun r s' own _ es => s'.Holds (some xs) ∧ own = [] ∧ Shows r (visible es))
      (m s) s [] others past := by
  cases hm with
  | send rounds v signal =>
    refine (plays_send rounds v signal hx hpast hr).mono fun r s own others es ⟨hx, ho, hes⟩ =>
      ⟨hx, ho, ?_⟩
    have hleft {w : Value} {before after : Record} (hbefore : visible before = [])
        (hafter : visible after = []) :
        visible (before ++ mine [.accepted w] ++ after) = [.accepted w] := by
      rw [visible_append, visible_append, hbefore, hafter]
      rfl
    cases r with
    | ok _ =>
      obtain ⟨w, before, after, rfl, hsent⟩ := hes
      exact .inl ⟨w, hleft hsent.before_silent hsent.after_silent, fun e he => by cases he⟩
    | error e =>
      obtain hsilent | ⟨hinterrupt, w, before, after, rfl, hsent⟩ := hes
      · exact .inr ⟨hsilent, fun h => by cases h⟩
      · refine .inl ⟨w, hleft hsent.before_silent hsent.after_silent, fun e' he => ?_⟩
        cases he
        exact hinterrupt
  | trySend v =>
    refine (plays_trySend hx).mono fun r s own others es ⟨hx, ho, hes⟩ => ⟨hx, ho, ?_⟩
    rw [hpast] at hes
    cases r with
    | ok sent =>
      cases sent with
      | true => exact .inl ⟨hes.choose, hes.choose_spec, rfl⟩
      | false => exact .inr ⟨hes, fun h => by cases h⟩
    | error e => exact .inr ⟨hes, fun h => by cases h⟩
  | recv rounds signal =>
    refine (plays_recv hx).mono fun r s own others es ⟨hx, ho, hes⟩ => ⟨hx, ho, ?_⟩
    rwa [hpast] at hes
  | tryRecv =>
    refine (plays_tryRecv hx).mono fun r s own others es ⟨hx, ho, hes⟩ => ⟨hx, ho, ?_⟩
    rwa [hpast] at hes
  | close =>
    refine (plays_close hx).mono fun r s own others es ⟨hx, ho, hes⟩ => ⟨hx, ho, ?_⟩
    rw [hpast] at hes
    cases r with
    | ok _ => exact .inl ⟨hes, rfl⟩
    | error e => exact .inr ⟨hes, fun h => by cases h⟩

/-- **Every operation that evaluation performs keeps the books of the channel.**  Let a channel be made,
let `others` be under way on it, and let them go on, and more begin, whenever the operation waits.  When it
is over there is nothing left of it, and all that has happened is one run from the making of the channel; the
books of the channel agree with this run, and what the operation has added to it is what it tells its
caller. -/
theorem Operates.books {m : Eval α} {Shows : Except EvalError α → List Event → Prop}
    (hm : Operates id m Shows) {capacity : Nat} {elemType : Option HostType} {h : Heap} {es : List Event}
    {s : EngineState} {xs : List Holding} (hx : s.Holds (some xs))
    (hnew : h.chans.get? id = some { capacity, elemType })
    (hr : Run id ⟨h, []⟩ es ⟨s.heap, others⟩) :
    Plays id (fun r s' own others past => s'.Holds (some xs) ∧ own = [] ∧ Shows r (visible past) ∧
        Run id ⟨h, []⟩ past.events ⟨s'.heap, others⟩ ∧
        ∃ c, s'.heap.chans.get? id = some c ∧
          Books capacity elemType past.events c (guards others))
      (m s) s [] others (theirs es) := by
  have hstart : Run id ⟨h, []⟩ (theirs es).events ⟨s.heap, others⟩ := by rwa [events_theirs]
  have hplays := hm.plays hx (visible_theirs es) hstart
  refine (hplays.together (by rwa [List.append_nil])).mono ?_
  rintro r s' own others past ⟨⟨hx, rfl, hshows⟩, hrun⟩
  rw [List.append_nil] at hrun
  exact ⟨hx, rfl, hshows, hrun, hrun.books hnew⟩

end ChannelRun
end ScriptEngine
