import ScriptEngine.Proofs.Scheduler.Watching
import ScriptEngine.Tree.Builder

/-! # No wake-up is lost

A task that waits for a channel is not looked after by anybody: it is resumed only if it is told that
the channel has changed.  Whatever tasks do, in whatever order they take their turns (`Reachable`),
it never happens that all of them wait although one of them could go on (`no_lost_wakeup`).

There is one thing that nobody is told of: a value that a `select` is about to send may change while
the `select` waits, and then it may no longer be of the type of the channel.  The `select` finds out
only when a channel changes (`select_send_overtaken`).
-/
namespace ScriptEngine

open EngineState

variable {α β : Type}

/-! ## What can happen -/

/-- What a host may ask for: that a script is run or a function called, or something of what
evaluation is made of, such as a send, a receive or a pause. -/
inductive Request : {α : Type} → Task α → Prop where
  | script (fuel : Nat) (e : Engine) (run : RunId) (script : Block) :
      Request (e.execute fuel run script)
  | call (fuel : Nat) (run : RunId) (callee : Value) (args : List Value) (spread : Bool) :
      Request ((Evaluator.ofFuel run fuel).call callee args spread)
  | evaluate {α : Type} {m : Eval α} (hm : Ingredient false m) : Request m

theorem Request.watchful {m : Task α} (hm : Request m) : Watchful [] m := by
  cases hm with
  | script fuel e run script => exact watchful_execute fuel e run script
  | call fuel run callee args spread =>
    obtain ⟨rounds, hall⟩ := watchful_ofFuel run fuel
    exact hall.call callee args spread
  | evaluate hm => exact hm.watchful

/-- **The states that tasks can come to**, with the foreground task if there is one.  Any task that
can run may be the next to run; time may pass at any moment; and the host may act at any moment. -/
inductive Reachable : {α : Type} → Scheduler → Option (Foreground α) → Prop where
  | start {α : Type} : Reachable {} (none : Option (Foreground α))
  /-- The host does something that changes no channel that is there. -/
  | host {α : Type} {sch : Scheduler} {main : Option (Foreground α)} {s : EngineState}
      (hr : Reachable sch main) (hcurrent : s.current = sch.state.current)
      (hheld : s.held = sch.state.held) (hnotices : s.notices = sch.state.notices)
      (hchans : sch.state.heap.Spares s.heap) : Reachable { sch with state := s } main
  | collect {α : Type} {sch : Scheduler} {main : Option (Foreground α)} (hr : Reachable sch main) :
      Reachable { sch with state := sch.state.collect } main
  /-- The host starts a task in the background. -/
  | job {α : Type} {sch : Scheduler} {main : Option (Foreground α)} (hr : Reachable sch main)
      (job : Job) : Reachable { sch with state := (sch.state.start job).2 } main
  /-- The host starts a task in the foreground. -/
  | begin {α β : Type} {sch : Scheduler} {m : Task β}
      (hr : Reachable sch (none : Option (Foreground α))) (hm : Request m) :
      Reachable sch (some { on := .turn, resume := m, woken := true })
  /-- A task in the background takes a turn. -/
  | turn {α : Type} {sch : Scheduler} {main : Option (Foreground α)} (hr : Reachable sch main)
      (fuel : Nat) (before after : List (Suspended Unit)) {t : Suspended Unit}
      (hready : sch.ready = before ++ t :: after) {r : Scheduler × List Notice}
      (hturn : { sch with ready := before ++ after }.turn fuel t = .ok r) :
      Reachable r.1 (main.map (·.settle r.2))
  /-- The foreground task takes a turn, and waits again. -/
  | pause {α : Type} {sch : Scheduler} {main : Foreground α} (hr : Reachable sch (some main))
      (hwoken : main.woken = true) (fuel : Nat) {s : EngineState} {on : Wait}
      {resume : EngineState → Step α}
      (hturn : main.resume { sch.state with current := 0 } = .wait s on resume) :
      Reachable (sch.settle fuel s).1 (some { on, resume })
  /-- The foreground task takes its last turn. -/
  | finish {α β : Type} {sch : Scheduler} {main : Foreground α} (hr : Reachable sch (some main))
      (hwoken : main.woken = true) (fuel : Nat) {s : EngineState} {a : α}
      (hturn : main.resume { sch.state with current := 0 } = .done s a) :
      Reachable (sch.settle fuel s).1 (none : Option (Foreground β))
  /-- The foreground task cannot go on. -/
  | stop {α β : Type} {sch : Scheduler} {main : Foreground α} (hr : Reachable sch (some main))
      (hwoken : main.woken = true) (fuel : Nat) {s : EngineState} {why : Halt}
      (hturn : main.resume { sch.state with current := 0 } = .stop s why) :
      Reachable (sch.settle fuel (s.unwind 0 0)).1 (none : Option (Foreground β))
  /-- The foreground task gives up. -/
  | giveUp {α β : Type} {sch : Scheduler} {main : Foreground α} (hr : Reachable sch (some main)) :
      Reachable { sch with state := sch.state.unwind 0 0 } (none : Option (Foreground β))
  /-- Nobody goes on with the foreground task. -/
  | abandon {α β : Type} {sch : Scheduler} {main : Foreground α} (hr : Reachable sch (some main)) :
      Reachable sch (none : Option (Foreground β))
  /-- Those that let others go first can run again. -/
  | giveWay {α : Type} {sch : Scheduler} {main : Option (Foreground α)} (hr : Reachable sch main) :
      Reachable { sch with ready := sch.ready ++ sch.yielded, yielded := [] }
        (main.map fun f => { f with woken := f.woken || f.on.isTurn })
  /-- Time passes. -/
  | pass {α : Type} {sch : Scheduler} {main : Option (Foreground α)} {s : EngineState} (now : Nat)
      (hr : Reachable sch main) (hs : s = { sch.state with now }) :
      Reachable
        { sch with
          state := s
          ready := sch.ready ++ (sch.parked.partition (·.on.isDue s)).1
          parked := (sch.parked.partition (·.on.isDue s)).2 }
        (main.map (·.wakeDue s))

namespace Reachable
variable {sch : Scheduler}

/-- **The invariant holds in every reachable state.** -/
theorem watched {main : Option (Foreground α)} (hr : Reachable sch main) :
    Watched sch.state.notices.toList sch main := by
  have hsettled (sch : Scheduler) (fuel : Nat) (s : EngineState) :
      (sch.settle fuel s).1.state.notices = #[] := by rw [Scheduler.settle_state]
  induction hr with
  | start =>
    exact {
      nodup := List.nodup_cons.mpr ⟨nofun, .nil⟩
      held_zero := ⟨[], rfl⟩
      started := nofun
      rests := nofun
      parked := nofun
      foreground := nofun }
  | host _ hcurrent hheld hnotices hchans ih =>
    exact ih.host (tells_elsewhere hcurrent hheld hnotices hchans)
  | collect _ ih => exact ih.host (tells_collect _)
  | job _ job ih => exact ih.host (tells_start _ job nofun)
  | begin _ hm ih => exact ih.begin hm.watchful
  | turn _ fuel _ _ hready hturn ih =>
    exact (ih.turn fuel hready hturn).of_settled (Scheduler.notices_turn hturn)
  | pause _ _ fuel hturn ih => exact (ih.pause fuel hturn).of_settled (hsettled _ _ _)
  | finish _ _ fuel hturn ih => exact (ih.finish fuel hturn).of_settled (hsettled _ _ _)
  | stop _ _ fuel hturn ih => exact (ih.stop fuel hturn).of_settled (hsettled _ _ _)
  | giveUp _ ih => exact ih.giveUp
  | abandon _ ih => exact ih.drop
  | giveWay _ ih => exact ih.wakeYielded.wakeMain _
  | pass now _ hs ih =>
    subst hs
    exact (ih.wake _ now).wakeMain _

/-- **Whatever the scheduler does, it comes to reachable states.** -/
theorem turnsKeep : TurnsKeep fun _ => Reachable where
  turn hr fuel before after _ _ hready hturn := hr.turn fuel before after hready hturn
  pause hr hwoken fuel _ _ _ hturn := hr.pause hwoken fuel hturn
  finish hr hwoken fuel _ _ hturn := hr.finish hwoken fuel hturn
  stop hr hwoken fuel _ _ hturn := hr.stop hwoken fuel hturn
  giveUp := giveUp
  abandon := abandon
  giveWay := giveWay
  pass now hr _ hs := hr.pass now hs

theorem run (hr : Reachable sch (none : Option (Foreground α))) (fuel : Nat) {m : Task β}
    (hm : Request m) : Reachable (sch.run fuel m).1 (none : Option (Foreground α)) :=
  turnsKeep.drive fuel (hr.begin hm)

/-- **What the scheduler runs is left undisturbed.**  A task that comes to its end has gone along a path on
which it always found again what it held. -/
theorem run_amid (hr : Reachable sch (none : Option (Foreground α))) {m : Task β} (hm : Request m)
    {fuel : Nat} {sch' : Scheduler} {b : β} (hdone : sch.run fuel m = (sch', .done b)) :
    ∃ path t, (m { sch.state with current := 0 }).EndsAlong path b t ∧
      (m { sch.state with current := 0 }).Amid Undisturbed path := by
  obtain ⟨s, path, t, -, hs, hends, hothers⟩ := (hr.begin hm).watched.drive_amid fuel hdone
  cases hs rfl
  exact ⟨path, t, hends, hothers⟩

end Reachable

/-! ## The law -/

/-- No task can run. -/
structure Quiet (sch : Scheduler) (main : Option (Foreground α)) : Prop where
  ready : sch.ready = []
  yielded : sch.yielded = []
  notices : sch.state.notices = #[]
  foreground : ∀ f ∈ main, f.woken = false

/-- What the tasks wait for. -/
def waits (sch : Scheduler) (main : Option (Foreground α)) : List Wait :=
  sch.parked.map (·.on) ++ main.toList.map (·.on)

variable {sch : Scheduler} {main : Option (Foreground α)}

theorem Watched.pends (hw : Watched sch.state.notices.toList sch main) (hq : Quiet sch main)
    {on : Wait} (hon : on ∈ waits sch main) : on.Pends sch.state.heap := by
  have hpends {task : TaskId} (ha : Alert sch.state.notices.toList sch.state task on) :
      on.Pends sch.state.heap := by
    -- A wait that a notice has ended would not be quiet: the notice would still be pending.
    rcases ha with ⟨n, hn, -⟩ | ⟨hpends, -⟩
    · rw [hq.notices] at hn
      cases hn
    · exact hpends
  rcases List.mem_append.mp hon with hon | hon
  · obtain ⟨t, ht, rfl⟩ := List.mem_map.mp hon
    exact hpends (hw.parked t ht)
  · obtain ⟨f, hf, rfl⟩ := List.mem_map.mp hon
    have hmem : f ∈ main := Option.mem_toList.mp hf
    rcases (hw.foreground f hmem).2 with hwoken | ha
    · rw [hq.foreground f hmem] at hwoken
      cases hwoken
    · exact hpends ha

theorem Wait.Pends.unmet {h : Heap} {on : Wait} (hp : on.Pends h) {id : ChanId} {n : Need}
    (hn : (id, n) ∈ on.needs) : n.IsUnmet (h.chan id) := by
  obtain ⟨c, hc, hn⟩ := hp _ hn
  rw [Heap.chan_eq hc]
  exact hn

/-- **No wake-up is lost.**  Take any state that tasks can come to in which none of them can run.  A
task that waits to receive finds its channel empty, and one that waits for room finds it full; one
that waits for a receipt has not been received from; and of a `select` that waits no receive would be
answered and no send accepted.  All these channels are open, so no operation would fail either, except
that the value of a send in a `select` may no longer be of the type of its channel. -/
theorem no_lost_wakeup (hr : Reachable sch main) (hq : Quiet sch main) :
    (∀ id signal, .recv id signal ∈ waits sch main →
      (sch.state.heap.chan id).buffer = [] ∧ (sch.state.heap.chan id).closed = false) ∧
    (∀ id signal, .room id signal ∈ waits sch main →
      (sch.state.heap.chan id).hasRoom = false ∧ (sch.state.heap.chan id).closed = false) ∧
    (∀ id ticket signal, .pickup id ticket signal ∈ waits sch main →
      (sch.state.heap.chan id).received < ticket ∧ (sch.state.heap.chan id).closed = false) ∧
    ∀ ops signal, .cases ops signal ∈ waits sch main →
      (∀ id, (id, none) ∈ ops → sch.state.heap.tryRecv id = .ok (none, sch.state.heap)) ∧
      ∀ id v, (id, some v) ∈ ops →
        (sch.state.heap.chan id).isReady = false ∧ (sch.state.heap.chan id).closed = false ∧
        ∀ w h', sch.state.heap.chanValue id v = .ok (w, h') →
          sch.state.heap.trySend id v = .ok (false, h') := by
  have hpends {on : Wait} (hon : on ∈ waits sch main) := hr.watched.pends hq hon
  refine ⟨fun id signal hon => ?_, fun id signal hon => ?_, fun id ticket signal hon => ?_,
    fun ops signal hon => ⟨fun id hop => ?_, fun id v hop => ?_⟩⟩
  · obtain ⟨hopen, hn⟩ := (hpends hon).unmet (List.mem_singleton_self _)
    exact ⟨hn, hopen⟩
  · obtain ⟨hopen, hn⟩ := (hpends hon).unmet (List.mem_singleton_self _)
    exact ⟨hn, hopen⟩
  · obtain ⟨hopen, hn⟩ := (hpends hon).unmet (List.mem_singleton_self _)
    exact ⟨hn, hopen⟩
  · have hneed : (id, Need.value) ∈ (Wait.cases ops signal).needs := List.mem_map_of_mem hop
    obtain ⟨hopen, hn⟩ := (hpends hon).unmet hneed
    rw [Heap.tryRecv_eq (Heap.get?_of_open hopen), hn]
    simp [hopen]
  · have hneed : (id, Need.taker) ∈ (Wait.cases ops signal).needs := List.mem_map_of_mem hop
    obtain ⟨hopen, hn⟩ := (hpends hon).unmet hneed
    refine ⟨hn, hopen, fun w h' hv => ?_⟩
    -- Conversion adds new objects, but leaves the channels alone.
    have hchan : h'.chan id = sch.state.heap.chan id := by
      rw [Heap.chan, Heap.chan, Heap.chanValue_chans hv]
    rw [Heap.trySend, hv]
    show (if (h'.chan id).closed = true then _ else if (h'.chan id).isReady = true then _ else _) = _
    rw [hchan, hopen, hn]
    rfl

/-! ## Four tasks that wait -/

/-- The unbuffered channel `a`, the channel `b` with room for one value, the unbuffered channel `c` of
lists of integers, and the plain list `l`, which holds 1. -/
def channels : Scheduler where
  state := { EngineState.initial with
    heap := {
      lists := ({} : Store ListCell).push ⟨#[.int 1], none, false⟩
      chans := ((({} : Store Channel).push { capacity := 0, elemType := none }).push
        { capacity := 1, elemType := none }).push
        { capacity := 0, elemType := some (.slice (.int .int64)) }
      scopes := ({} : Store Scope).push
        { vars := (((Bindings.empty.insert "a" (.chan 0)).insert "b" (.chan 1)).insert "c"
            (.chan 2)).insert "l" (.list 0) } }
    runs := ({} : Store Run).push ⟨0, ⟨0, 0, 0, 0⟩, 0, 0⟩ }

/-- One task receives from `a`; one sends twice to `b`; one sends to `c`; and one either sends `l` to
`c` or receives from `a`. -/
def parties : Block :=
  let start (body : Block) : Stmt := .go (.call (.func [] body) [])
  let a := Expr.ident "a"
  let b := Expr.ident "b"
  let c := Expr.ident "c"
  [start [.expr (.recv a)],
    start [.send b (.int 1), .send b (.int 2)],
    start [.send c (.list [.int 3])],
    start [.select [.mk (.send c (.ident "l")) [], .mk (.recv a none none) []] none]]

/-- The scheduler after a script, run in the scope of the channels. -/
def Scheduler.after (sch : Scheduler) (script : Block) : Scheduler :=
  (sch.run 20 (Engine.execute 20 ⟨{}, 0, 0, false, none, none⟩ 0 script)).1

/-- The scheduler after a millisecond, when all four tasks wait. -/
def partiesWaiting : Scheduler :=
  ((channels.after parties).run 20 (ExceptT.lift (Task.sleep 1) : Eval Unit)).1

/-- The scheduler after the text `x` has been written into `l`. -/
def listOvertaken : Scheduler :=
  partiesWaiting.after [.assign (.index (.ident "l") (.int 0)) (.string "x")]

/-- There is no foreground task. -/
abbrev noMain : Option (Foreground Unit) := none

theorem reachable_partiesWaiting : Reachable partiesWaiting noMain := by
  have hchannels : Reachable channels noMain := by
    refine .host .start rfl rfl rfl ⟨Nat.zero_le _, fun id hid => ?_⟩
    exact absurd hid (Nat.not_lt_zero id)
  exact (hchannels.run 20 (.script 20 _ 0 parties)).run 20 (.evaluate (.sleep 1))

theorem quiet_of_empty (h : (sch.ready.isEmpty && sch.yielded.isEmpty &&
    sch.state.notices.isEmpty) = true) : Quiet sch noMain := by
  simp only [Bool.and_eq_true, List.isEmpty_iff, Array.isEmpty_iff] at h
  exact ⟨h.1.1, h.1.2, h.2, nofun⟩

theorem waits_partiesWaiting : waits partiesWaiting noMain =
    [.room 1 0, .pickup 2 1 0, .cases [(2, some (.list 0)), (0, none)] 0, .recv 0 0] := by
  decide +kernel

/-- None of the four tasks could go on. -/
theorem no_lost_wakeup_parties :
    Quiet partiesWaiting noMain ∧
    waits partiesWaiting noMain =
      [.room 1 0, .pickup 2 1 0, .cases [(2, some (.list 0)), (0, none)] 0, .recv 0 0] ∧
    (partiesWaiting.state.heap.chan 0).buffer = [] ∧
    (partiesWaiting.state.heap.chan 1).hasRoom = false ∧
    (partiesWaiting.state.heap.chan 2).received < 1 ∧
    (partiesWaiting.state.heap.chan 2).isReady = false ∧
    partiesWaiting.state.heap.tryRecv 0 = .ok (none, partiesWaiting.state.heap) := by
  have hquiet : Quiet partiesWaiting noMain := quiet_of_empty (by decide +kernel)
  obtain ⟨hrecv, hroom, hpickup, hcases⟩ := no_lost_wakeup reachable_partiesWaiting hquiet
  rw [waits_partiesWaiting] at hrecv hroom hpickup hcases
  obtain ⟨hnothing, hnobody⟩ := hcases [(2, some (.list 0)), (0, none)] 0 (by decide)
  exact ⟨hquiet, waits_partiesWaiting, (hrecv 0 0 (by decide)).1, (hroom 1 0 (by decide)).1,
    (hpickup 2 1 0 (by decide)).1, (hnobody 2 (.list 0) (by decide)).1, hnothing 0 (by decide)⟩

/-- **A change of the value goes unnoticed**: the `select` still waits, although its send would fail
by now. -/
theorem select_send_overtaken :
    Reachable listOvertaken noMain ∧ Quiet listOvertaken noMain ∧
    .cases [(2, some (.list 0)), (0, none)] 0 ∈ waits listOvertaken noMain ∧
    ∃ e, listOvertaken.state.heap.trySend 2 (.list 0) = .error e := by
  refine ⟨reachable_partiesWaiting.run 20 (.script 20 _ 0 _), quiet_of_empty (by decide +kernel),
    by decide +kernel, ?_⟩
  have hfails : (listOvertaken.state.heap.trySend 2 (.list 0)).isOk = false := by decide +kernel
  cases hsend : listOvertaken.state.heap.trySend 2 (.list 0) with
  | error e => exact ⟨e, rfl⟩
  | ok r =>
    rw [hsend] at hfails
    cases hfails

end ScriptEngine
