import ScriptEngine.Proofs.Channel.Conservation
import ScriptEngine.Proofs.EngineState.Sweeping
import ScriptEngine.Proofs.Heap.Channels

/-! # Changes that are made known

A task that waits relies on others to tell it when something has changed.  What happens to the state
is **made known** (`EngineState.Tells`) if nobody's holdings are touched except those of the task that
acts, and if every channel that another task holds either is as it was, or has lost a waiting
receiver, or there is a notice about it.  Losing a receiver is the one change without a notice: it
never makes an operation possible that was not.

A held channel is not garbage, so it does not disappear either.
-/
namespace ScriptEngine

/-- At most, receivers have stopped waiting. -/
structure Channel.Calms (c c' : Channel) : Prop where
  eq : c' = { c with waiting := c'.waiting }
  waiting_le : c'.waiting ≤ c.waiting

theorem Channel.Calms.refl (c : Channel) : c.Calms c := ⟨rfl, Nat.le_refl _⟩

theorem Channel.Calms.trans {c c' c'' : Channel} (h : c.Calms c') (h' : c'.Calms c'') :
    c.Calms c'' where
  eq := by
    rw [h'.eq, h.eq]
  waiting_le := Nat.le_trans h'.waiting_le h.waiting_le

/-- The channel is one of the things held. -/
def HoldsChan (xs : List Holding) (id : ChanId) : Prop := Object.chan id ∈ xs.flatMap Holding.objects

/-- The tasks that were started, according to these notices. -/
def startedIn (ns : List Notice) : List TaskId :=
  ns.filterMap fun
    | .started task _ => some task
    | .channel _ | .signal _ => none

@[simp] theorem startedIn_append (ns ns' : List Notice) :
    startedIn (ns ++ ns') = startedIn ns ++ startedIn ns' :=
  List.filterMap_append

namespace EngineState

/-- **What happened was made known** to every task but `who`, who did it. -/
structure Tells (who : Option TaskId) (s s' : EngineState) : Prop where
  current_eq : s'.current = s.current
  next_le : s.held.next ≤ s'.held.next
  held : ∀ task xs, some task ≠ who → s.held.get? task = some xs → s'.held.get? task = some xs
  /-- Notices are only added, and the tasks they tell of are new. -/
  news : ∃ new, s'.notices.toList = s.notices.toList ++ new ∧ (startedIn new).Nodup ∧
    ∀ task ∈ startedIn new, s.held.next ≤ task ∧ some task ≠ who ∧ ∃ xs, s'.held.get? task = some xs
  chans : ∀ task xs id c, some task ≠ who → s.held.get? task = some xs → HoldsChan xs id →
    s.heap.chans.get? id = some c →
    .channel id ∈ s'.notices.toList ∨ ∃ c', s'.heap.chans.get? id = some c' ∧ c.Calms c'

variable {who : Option TaskId} {s s' s'' : EngineState}

theorem Tells.mem_notices (ht : Tells who s s') {n : Notice} (hn : n ∈ s.notices.toList) :
    n ∈ s'.notices.toList := by
  obtain ⟨new, hnew, -⟩ := ht.news
  rw [hnew]
  exact List.mem_append_left _ hn

theorem Tells.trans (ht : Tells who s s') (ht' : Tells who s' s'') : Tells who s s'' where
  current_eq := ht'.current_eq.trans ht.current_eq
  next_le := Nat.le_trans ht.next_le ht'.next_le
  held task xs hne hx := ht'.held task xs hne (ht.held task xs hne hx)
  news := by
    obtain ⟨new, hnew, hnodup, htasks⟩ := ht.news
    obtain ⟨new', hnew', hnodup', htasks'⟩ := ht'.news
    refine ⟨new ++ new', by rw [hnew', hnew, List.append_assoc], ?_, fun task hmem => ?_⟩
    · -- a task that was started first has holdings by now, so its number is not given out again
      rw [startedIn_append]
      refine List.nodup_append.mpr ⟨hnodup, hnodup', fun task hmem other hother => ?_⟩
      obtain ⟨-, -, xs, hx⟩ := htasks task hmem
      have hlt := Store.lt_next hx
      have hle := (htasks' other hother).1
      exact Nat.ne_of_lt (Nat.lt_of_lt_of_le hlt hle)
    · rw [startedIn_append, List.mem_append] at hmem
      rcases hmem with hmem | hmem
      · obtain ⟨hle, hne, xs, hx⟩ := htasks task hmem
        exact ⟨hle, hne, xs, ht'.held task xs hne hx⟩
      · obtain ⟨hle, hne, hx⟩ := htasks' task hmem
        exact ⟨Nat.le_trans ht.next_le hle, hne, hx⟩
  chans task xs id c hne hx hid hc := by
    rcases ht.chans task xs id c hne hx hid hc with hn | ⟨c', hc', hcalm⟩
    · exact .inl (ht'.mem_notices hn)
    · rcases ht'.chans task xs id c' hne (ht.held task xs hne hx) hid hc' with
        hn | ⟨c'', hc'', hcalm'⟩
      · exact .inl hn
      · exact .inr ⟨c'', hc'', hcalm.trans hcalm'⟩

/-- What leaves every task's holdings alone can be done by any task. -/
theorem Tells.by_task (ht : Tells none s s') {task : TaskId} {xs : List Holding}
    (hx : s.held.get? task = some xs) : Tells (some task) s s' where
  current_eq := ht.current_eq
  next_le := ht.next_le
  held other ys _ hy := ht.held other ys nofun hy
  news := by
    obtain ⟨new, hnew, hnodup, htasks⟩ := ht.news
    refine ⟨new, hnew, hnodup, fun other hmem => ?_⟩
    obtain ⟨hle, -, hy⟩ := htasks other hmem
    have hlt := Store.lt_next hx
    refine ⟨hle, fun heq => ?_, hy⟩
    cases heq
    omega
  chans other ys id c _ hy hid hc := ht.chans other ys id c nofun hy hid hc

theorem Tells.own (ht : Tells none s s') {task : TaskId} {xs : List Holding}
    (hx : s.held.get? task = some xs) : s'.held.get? task = some xs :=
  ht.held task xs nofun hx

/-! ## Changes elsewhere -/

/-- Neither holdings nor notices nor channels change. -/
theorem tells_elsewhere (hcurrent : s'.current = s.current) (hheld : s'.held = s.held)
    (hnotices : s'.notices = s.notices) (hchans : s.heap.Spares s'.heap) : Tells who s s' where
  current_eq := hcurrent
  next_le := Nat.le_of_eq (by rw [hheld])
  held task xs _ hx := hheld ▸ hx
  news := ⟨[], by rw [hnotices, List.append_nil], .nil, nofun⟩
  chans _ _ _ c _ _ _ hc := .inr ⟨c, hchans.get?_some hc, .refl c⟩

theorem Tells.refl (who : Option TaskId) (s : EngineState) : Tells who s s :=
  tells_elsewhere rfl rfl rfl (.refl _)

theorem tells_heap {h : Heap} (hs : s.heap.Spares h) : Tells who s { s with heap := h } :=
  tells_elsewhere rfl rfl rfl hs

theorem tells_pass (s : EngineState) (run : RunId) : Tells who s (s.pass run) := by
  rw [pass_eq]
  exact tells_elsewhere rfl rfl rfl (.refl _)

theorem tells_foldl {β : Type} {f : EngineState → β → EngineState}
    (hf : ∀ s b, Tells who s (f s b)) (bs : List β) (s : EngineState) :
    Tells who s (bs.foldl f s) := by
  induction bs generalizing s with
  | nil => exact .refl who s
  | cons b rest ih => exact (hf s b).trans (ih _)

theorem tells_capture (s : EngineState) (scope : ScopeId) : Tells who s (s.capture scope) := by
  unfold capture
  refine tells_foldl (fun s id => ?_) _ s
  exact tells_elsewhere rfl rfl rfl (.refl _)

theorem tells_eraseScope (s : EngineState) (id : ScopeId) : Tells who s (s.eraseScope id) := by
  unfold eraseScope
  split
  · exact .refl who s
  · split <;> exact tells_elsewhere rfl rfl rfl (.refl _)

/-! ## Notices -/

theorem notices_notify (s : EngineState) (n : Notice) :
    (s.notify n).notices.toList = s.notices.toList ++ [n] :=
  Array.toList_push

theorem tells_cancel (s : EngineState) (signal : SignalId) : Tells who s (s.cancel signal) where
  current_eq := rfl
  next_le := Nat.le_refl _
  held _ _ _ hx := hx
  news := ⟨[.signal signal], notices_notify _ _, .nil, nofun⟩
  chans _ _ _ c _ _ _ hc := .inr ⟨c, hc, .refl c⟩

/-- A channel changes, and the others are told. -/
theorem tells_channel {id : ChanId} {h : Heap}
    (hother : ∀ other, other ≠ id → h.chans.get? other = s.heap.chans.get? other) :
    Tells who s ({ s with heap := h }.notify (.channel id)) where
  current_eq := rfl
  next_le := Nat.le_refl _
  held _ _ _ hx := hx
  news := ⟨[.channel id], notices_notify _ _, .nil, nofun⟩
  chans _ _ other c _ _ _ hc := by
    by_cases hid : other = id
    · left
      rw [notices_notify, hid]
      exact List.mem_append_right _ (List.mem_singleton_self _)
    · right
      exact ⟨c, (hother other hid).trans hc, .refl c⟩

theorem tells_register (s : EngineState) (id : ChanId) : Tells who s (s.register id) :=
  tells_channel fun _ hne => Store.get?_modify_of_ne hne

/-- A receiver that stops waiting is not worth a notice. -/
theorem tells_withdraw (s : EngineState) (id : ChanId) : Tells who s (s.withdraw id) where
  current_eq := rfl
  next_le := Nat.le_refl _
  held _ _ _ hx := hx
  news := ⟨[], (List.append_nil _).symm, .nil, nofun⟩
  chans _ _ other c _ _ _ hc := by
    right
    by_cases hid : other = id
    · subst hid
      exact ⟨c.withdraw, Heap.get?_modifyChan hc _, rfl, Nat.sub_le _ _⟩
    · exact ⟨c, (Store.get?_modify_of_ne hid).trans hc, .refl c⟩

/-- A new task holds what its job refers to. -/
theorem tells_start (s : EngineState) (job : Job)
    (hwho : ∀ task, who = some task → task < s.held.next) : Tells who s (s.start job).2 where
  current_eq := rfl
  next_le := (Store.extends_push _ _).next_le
  held _ _ _ hx := (Store.extends_push _ _).get?_some hx
  news := by
    refine ⟨[.started s.held.next job], notices_notify _ _, (List.nodup_cons.mpr ⟨nofun, .nil⟩), ?_⟩
    intro task hmem
    cases List.mem_singleton.mp hmem
    refine ⟨Nat.le_refl _, fun heq => ?_, _, Store.get?_push_next _ _⟩
    exact absurd (hwho _ heq.symm) (Nat.lt_irrefl _)
  chans _ _ _ c _ _ _ hc := .inr ⟨c, hc, .refl c⟩

/-! ## Holdings -/

theorem tells_hold (s : EngineState) (x : Holding) : Tells (some s.current) s (s.hold x) where
  current_eq := rfl
  next_le := Nat.le_of_eq (Store.next_modify _ _ _).symm
  held task xs hne hx := by
    have htask : task ≠ s.current := fun heq => hne (congrArg some heq)
    exact (Store.get?_modify_of_ne htask).trans hx
  news := ⟨[], (List.append_nil _).symm, .nil, nofun⟩
  chans _ _ _ c _ _ _ hc := .inr ⟨c, hc, .refl c⟩

theorem held_hold {xs : List Holding} (hx : s.held.get? s.current = some xs) (x : Holding) :
    (s.hold x).held.get? s.current = some (x :: xs) := by
  show (s.held.modify s.current (x :: ·)).get? s.current = _
  rw [Store.get?_modify_self, hx]
  rfl

theorem tells_giveBack (s : EngineState) (x : Holding) : Tells who s (s.giveBack x) := by
  cases x with
  | block id =>
    simp only [giveBack]
    split
    · exact .refl who s
    · exact tells_eraseScope s id
  | frame id => exact tells_elsewhere rfl rfl rfl (.refl _)
  | receiver id => exact tells_withdraw s id
  | _ => exact .refl who s

theorem tells_setHeld (s : EngineState) (task : TaskId) (xs : List Holding) :
    Tells (some task) s { s with held := s.held.set task xs } where
  current_eq := rfl
  next_le := by simp [Store.next, Store.set]
  held other ys hne hy := by
    have hother : other ≠ task := fun heq => hne (congrArg some heq)
    exact (Store.get?_set_of_ne hother).trans hy
  news := ⟨[], (List.append_nil _).symm, .nil, nofun⟩
  chans _ _ _ c _ _ _ hc := .inr ⟨c, hc, .refl c⟩

theorem letGoOf_eq {task : TaskId} {x : Holding} {xs : List Holding}
    (hx : s.held.get? task = some (x :: xs)) :
    s.letGoOf task = { s with held := s.held.set task xs }.giveBack x := by
  unfold letGoOf
  rw [hx]

theorem tells_letGoOf (s : EngineState) (task : TaskId) : Tells (some task) s (s.letGoOf task) := by
  unfold letGoOf
  split
  · exact (tells_setHeld s task _).trans (tells_giveBack _ _)
  · exact .refl _ s

theorem held_letGoOf {task : TaskId} {xs : List Holding} (hx : s.held.get? task = some xs) :
    (s.letGoOf task).held.get? task = some xs.tail := by
  cases xs with
  | nil =>
    have hsame : s.letGoOf task = s := by
      unfold letGoOf
      rw [hx]
    rw [hsame]
    exact hx
  | cons x xs =>
    have hset : { s with held := s.held.set task xs }.held.get? task = some xs :=
      Store.get?_set_self hx
    have hgive : Tells none { s with held := s.held.set task xs } _ := tells_giveBack _ x
    rw [letGoOf_eq hx]
    exact hgive.own hset

theorem tells_unwind (s : EngineState) (task : TaskId) (keep : Nat) :
    Tells (some task) s (s.unwind task keep) := by
  unfold unwind
  induction s.holdCount task - keep with
  | zero => exact .refl _ s
  | succ n ih => exact ih.trans (tells_letGoOf _ task)

/-- Only the first things that were held are left. -/
theorem held_unwind {task : TaskId} {xs keep : List Holding}
    (hx : s.held.get? task = some (xs ++ keep)) :
    (s.unwind task keep.length).held.get? task = some keep := by
  -- Letting go takes the latest holding each time, so as many times as there are more than `keep`.
  have hcount : s.holdCount task - keep.length = xs.length := by
    rw [holdCount, hx, Option.getD_some, List.length_append, Nat.add_sub_cancel]
  have hdrop (n : Nat) (hn : n ≤ xs.length) :
      (n.repeat (·.letGoOf task) s).held.get? task = some (xs.drop n ++ keep) := by
    induction n with
    | zero => exact hx
    | succ n ih =>
      have hlt : n < xs.length := by omega
      have hprev := ih (by omega)
      rw [List.drop_eq_getElem_cons hlt, List.cons_append] at hprev
      exact held_letGoOf hprev
  unfold unwind
  rw [hcount, hdrop xs.length (Nat.le_refl _), List.drop_length, List.nil_append]

/-- A task that lets go of everything holds nothing. -/
theorem held_unwind_zero {task : TaskId} {xs : List Holding} (hx : s.held.get? task = some xs) :
    (s.unwind task 0).held.get? task = some [] := by
  rw [← List.append_nil xs] at hx
  have hunwound := held_unwind hx
  rwa [List.length_nil] at hunwound

/-! ## Garbage -/

/-- What a task holds is marked. -/
theorem covers_held {task : TaskId} {xs : List Holding} {o : Object}
    (hx : s.held.get? task = some xs) (ho : o ∈ xs.flatMap Holding.objects) : s.marks.Covers o := by
  have hmark : (((Marks.none s.heap).markAll (s.pinned.map .scope)).markStore s.held
      fun hs => hs.flatMap Holding.objects).Covers o := Marks.covers_markStore hx ho
  exact (hmark.markStore.markAll _).markStore.markStore.markStore.markStore.markStore.markStore

/-- A sweep takes no channel away that somebody holds. -/
theorem tells_sweep (s : EngineState) : Tells who s s.sweep.1 := by
  -- What is held is marked, so pruning passes it by; scopes that go after that are no channels.
  have hprune : Tells who s (s.modifyHeap fun h => h.pruned s.marks) :=
    { current_eq := rfl
      next_le := Nat.le_refl _
      held := fun _ _ _ hx => hx
      news := ⟨[], (List.append_nil _).symm, .nil, nofun⟩
      chans := fun task xs id c _ hx hid hc => .inr ⟨c, by
        have hcover : s.marks.Covers (.chan id) := covers_held hx hid
        show (s.heap.chans.eraseAll _).get? id = some c
        rw [Store.get?_eraseAll_of_notMem (Store.notMem_unmarked hcover)]
        exact hc, .refl c⟩ }
  exact hprune.trans (tells_foldl tells_eraseScope _ _)

theorem tells_collect (s : EngineState) : Tells who s s.collect := by
  have hupTo (fuel : Nat) (s : EngineState) : Tells who s (collectUpTo fuel s) := by
    induction fuel generalizing s with
    | zero => exact .refl who s
    | succ fuel ih =>
      have hsweep : Tells who s s.sweep.1 := tells_sweep s
      unfold collectUpTo
      split
      · rename_i s' heq
        rw [heq] at hsweep
        exact hsweep.trans (ih s')
      · rename_i s' heq
        rw [heq] at hsweep
        exact hsweep
  unfold collect
  split
  · exact .refl who s
  · exact hupTo _ s

theorem tells_addChild (s : EngineState) (parent : ScopeId) :
    Tells who s (s.addChild parent).2 := by
  have hacquire (s : EngineState) (id : GovernorId) : Tells who s (s.acquire id).2 := by
    unfold acquire
    simp only
    split
    · exact .refl who s
    · exact tells_elsewhere rfl rfl rfl (.refl _)
  unfold addChild
  simp only
  generalize hs' : (if isTight (s.governor (s.heap.scope parent).governor) = true then s.collect
    else s) = s'
  have hcollect : Tells who s s' := by
    rw [← hs']
    split
    · exact tells_collect s
    · exact .refl who s
  have hslot := hcollect.trans (hacquire s' (s.heap.scope parent).governor)
  split
  · rename_i heq
    rw [heq] at hslot
    exact hslot
  · rename_i heq
    rw [heq] at hslot
    exact hslot.trans (tells_heap (.refl _))

end EngineState
end ScriptEngine
