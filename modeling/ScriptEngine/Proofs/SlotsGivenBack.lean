import ScriptEngine.Proofs.EngineState.OpenedScopes
import ScriptEngine.Proofs.Evaluator.Watching
import ScriptEngine.Proofs.Scheduler.Alone
import ScriptEngine.Proofs.ScopeCeiling

/-! # Runs that give every slot back

A script that leaves nothing behind opens scopes in blocks only (`entrances_inBlocks`), and when it is
done no block is under way, however it has ended.  So if no other task is alive, then the scopes after the
run are those that there were before (`inBlocks_run`), and so are the slots that they take.

Other tasks have to be dead, also those that open scopes elsewhere: a task may drop the last reference to
a scope that is not its own.
-/
namespace ScriptEngine

variable {s₀ s : EngineState} {root : ScopeId}

/-! ## Counting -/

/-- The number of live scopes of any governor; one that there is not has none. -/
theorem EngineState.Balanced.live_governor (hs : s.Balanced) (g : GovernorId) :
    (s.governor g).live = (s.slots g).card := by
  cases hg : s.governors.get? g with
  | some x => rw [EngineState.governor_eq hg, hs.live hg]
  | none =>
    have hnone : s.slots g = ∅ := by
      refine Finset.eq_empty_of_forall_notMem fun id hid => ?_
      have hknown := hs.known id _ (EngineState.mem_slots.mp hid)
      rw [EngineState.Known, hg] at hknown
      cases hknown
    rw [hnone, EngineState.governor, hg]
    rfl

/-- Scopes with the same outlines take the same slots. -/
theorem EngineState.slots_eq (houtlines : ∀ id,
    (s.heap.scopes.get? id).map Scope.outline = (s₀.heap.scopes.get? id).map Scope.outline)
    (g : GovernorId) : s.slots g = s₀.slots g := by
  ext id
  have hsame := congrArg (Option.map Scope.account) (houtlines id)
  rw [Option.map_map, Option.map_map] at hsame
  rw [EngineState.mem_slots, EngineState.mem_slots, EngineState.account?, EngineState.account?]
  exact Eq.congr_left hsame

/-! ## Where a run begins -/

namespace Scheduler.AtRest
variable {sch : Scheduler} (hrest : sch.AtRest)
include hrest

/-- Collecting garbage starts no task. -/
theorem collect : { sch with state := sch.state.collect }.AtRest where
  ready := hrest.ready
  parked := hrest.parked
  yielded := hrest.yielded
  held := (EngineState.prunes_collect sch.state).held ▸ hrest.held
  deferred := (EngineState.prunes_collect sch.state).frames ▸ hrest.deferred
  started := (EngineState.prunes_collect sch.state).notices ▸ hrest.started

/-- There is nothing but the state. -/
theorem eq_alone : sch = .alone sch.state := by
  obtain ⟨state, ready, parked, yielded⟩ := sch
  cases hrest.ready
  cases hrest.parked
  cases hrest.yielded
  rfl

/-- Scripts keep the state balanced. -/
theorem balanced_run (hs : sch.state.Balanced) (fuel fuel' : Nat) (e : Engine) (run : RunId)
    (script : Block) : (sch.run fuel (e.execute fuel' run script)).1.state.Balanced := by
  have hH := customs_history.habits
  exact (Scheduler.Safe.run hH.discipline (hrest.safe hs.leadsTo) fuel
    (hH.safe_execute fuel' trivial run (Block.in_all script) sch.state)).develops.1

/-- Where garbage has been collected, evaluation can begin. -/
theorem settled (hcollected : sch.state.collect = sch.state)
    (hfunctions : ∀ id, sch.state.heap.Reaches (.scope root) (.func id) →
      (sch.state.heap.func id).definition? = none) : sch.state.Settled root where
  collected := hcollected
  held := hrest.held
  deferred := hrest.deferred
  functions id hid := by
    obtain hunused | hreaches := hid
    · rw [Heap.func, Store.get?_eq_none hunused]
      rfl
    · exact hfunctions id hreaches

/-- No scope has been opened yet. -/
theorem inBlocks (hstart : sch.state.Settled root) (hroot : root ∈ sch.state.pinned)
    (hforeground : (sch.state.held.get? 0).isSome) :
    InBlocks sch.state root [] { sch.state with current := 0 } where
  confined := (hrest.confined (sch.state.heap.encloses_around root) hroot).same rfl rfl rfl rfl
    fun _ _ hj => hj
  calm := hrest.started
  functions := hstart.functions
  kept _ _ := rfl
  old _ _ := rfl
  next_le := Nat.le_refl _
  new id c hid hc := absurd (Store.lt_next hc) (Nat.not_lt_of_le hid)
  blocks task id hid := by
    rw [EngineState.blocksOf] at hid
    cases hxs : sch.state.held.get? task with
    | none =>
      rw [hxs] at hid
      cases hid
    | some xs =>
      rw [hxs, hrest.held task xs hxs] at hid
      cases hid
  foreground := ⟨rfl, hforeground⟩
  pinned := rfl
  reports := List.prefix_refl _
  lingering := rfl

end Scheduler.AtRest

/-- Where objects are taken out, no more can be got at than before. -/
theorem EngineState.Prunes.reaches {s' : EngineState} (hp : s.Prunes s') {o o' : Object}
    (hreaches : s'.heap.Reaches o o') : s.heap.Reaches o o' := by
  refine Relation.ReflTransGen.mono (fun x y hxy => ?_) _ _ hreaches
  obtain ⟨c, hc, hy⟩ := Heap.refers_iff.mp hxy
  exact Heap.refers_iff.mpr ⟨c, hp.cell_of hc, hy⟩

/-! ## Where it ends -/

/-- Time has passed while the task waited. -/
theorem InBlocks.resumed (hs : InBlocks s₀ root [] s) (now : Nat) :
    InBlocks s₀ root [] (s.resumed now) :=
  hs.same (hs.confined.same rfl rfl rfl rfl fun _ _ hj => by cases Array.mem_toList_iff.mpr hj)
    rfl rfl rfl (fun _ _ hj => by cases Array.mem_toList_iff.mpr hj) hs.foreground.1.symm rfl
    (List.prefix_refl _)

/-- **A run that leaves nothing behind begins and ends without blocks**, if no other task is alive. -/
theorem inBlocks_run {e : Engine} (hstart : s.Settled e.scope)
    (hbegin : InBlocks s e.scope [] { s with current := 0 }) {script : Block}
    (hscript : Block.In .leavingNothing script) {fuel fuel' : Nat} {run : RunId} {sch' : Scheduler}
    {r : Engine.Result Value}
    (hdone : (Scheduler.alone s).run fuel (e.execute fuel' run script) = (sch', .done r)) :
    InBlocks s e.scope [] sch'.state ∧ sch'.state.blocksOf 0 = [] := by
  have hE := entrances_inBlocks hstart
  have hobserves : ObservesOn id (fun _ s' => InBlocks s e.scope [] s')
      (e.execute fuel' run script { s with current := 0 }) { s with current := 0 } :=
    hE.safe_execute fuel' (.inr .refl) run hscript s _ hbegin
  have hheld : s.held.get? 0 = some [] := by
    obtain ⟨xs, hxs⟩ := Option.isSome_iff_exists.mp hbegin.foreground.2
    rw [hstart.held 0 xs hxs] at hxs
    exact hxs
  have hwatches := (watchful_execute fuel' e run script).watches { s with current := 0 } [] hheld
    (List.forall_mem_nil _)
  cases fuel with
  | zero => cases hdone
  | succ fuel =>
    rw [Scheduler.run, Scheduler.drive_woken rfl] at hdone
    obtain ⟨path, t, hends, hamid, hstate⟩ := Scheduler.exists_path_of_done hE.toLaw
      (fun w hw task job hj => hw.calm task job (Array.mem_toList_iff.mp hj))
      (fun w now hw => hw.resumed now) hobserves hdone
    obtain ⟨hend, -⟩ := hends.observes hE.toLaw hobserves hamid
      fun w w' hpassed hw => by
        obtain ⟨-, now, rfl⟩ := hpassed
        exact InBlocks.resumed hw now
    obtain ⟨⟨-, hnothing, -⟩, -⟩ := hwatches.along rfl hends hamid fun w w' hpassed => by
      obtain ⟨hw, now, rfl⟩ := hpassed
      exact ⟨hw.foreground.1.symm, rfl⟩
    rw [hstate, EngineState.blocksOf, show t.held.get? 0 = some [] from hnothing]
    refine ⟨?_, rfl⟩
    exact hend.same (hend.confined.same rfl rfl rfl rfl
      fun _ _ hj => by cases Array.mem_toList_iff.mpr hj) rfl rfl rfl
      (fun _ _ hj => by cases Array.mem_toList_iff.mpr hj) rfl rfl (List.prefix_refl _)

/-- **Runs without functions give every slot back.**  Let a script have neither functions nor modules nor
tasks in it, let the host hold the scope that it is run in, let no function of a script be reachable from
there, and let no other task be alive.  Whatever the run comes to, a value or any error, as many scopes of
any governor are live after it as before. -/
theorem slots_given_back {sch sch' : Scheduler} {e : Engine} {script : Block}
    (hscript : ∀ n ∈ script.nodes, n.leavesNothing = true) (hrest : sch.AtRest)
    (hforeground : (sch.state.held.get? 0).isSome) (hroot : e.scope ∈ sch.state.pinned)
    (hbalanced : sch.state.Balanced)
    (hfunctions : ∀ id, sch.state.heap.Reaches (.scope e.scope) (.func id) →
      (sch.state.heap.func id).definition? = none)
    {g : GovernorId} {fuel fuel' : Nat} {run : RunId} {r : Engine.Result Value}
    (hdone : { sch with state := (sch.state.census g).2 }.run fuel (e.execute fuel' run script) =
      (sch', .done r)) :
    (sch'.state.census g).1.live = (sch.state.census g).1.live := by
  have hprunes := EngineState.prunes_collect sch.state
  have hrest' := hrest.collect
  have hbalanced' := hbalanced.collect
  have hstart : sch.state.collect.Settled e.scope := by
    refine hrest'.settled sch.state.collect_collect fun id hid => ?_
    refine Option.eq_none_iff_forall_ne_some.mpr fun definition hd => ?_
    have hnone := hfunctions id (hprunes.reaches hid)
    rw [(EngineState.AddsNoCode.collect sch.state).functions hd] at hnone
    cases hnone
  have hbegin := hrest'.inBlocks hstart (hprunes.pinned ▸ hroot) (hprunes.held ▸ hforeground)
  rw [show (sch.state.census g).2 = sch.state.collect from rfl] at hdone
  have hend : sch'.state.Balanced := by
    have hrun := hrest'.balanced_run hbalanced' fuel fuel' e run script
    rwa [hdone] at hrun
  rw [hrest'.eq_alone] at hdone
  obtain ⟨hblocks, hnone⟩ := inBlocks_run hstart hbegin hscript hdone
  have hcollected := hblocks.collect hstart
  have hnone' : sch'.state.collect.blocksOf 0 = [] := by
    rw [EngineState.blocksOf, (EngineState.prunes_collect _).held]
    exact hnone
  show (sch'.state.collect.governor g).live = (sch.state.collect.governor g).live
  rw [hend.collect.live_governor, hbalanced'.live_governor,
    EngineState.slots_eq (hcollected.outlines_eq hnone')]

/-! ## A refusal inside a handler -/

/-- The engine with three slots, and a scope inside its own one that the host has opened and holds. -/
@[irreducible] def withHostScope : Scheduler :=
  { state := (withThreeSlots.state.addChild 0).2.pin 1 }

/-- `{ try { throw 1 } catch { {} } }`. -/
def refusedInHandler : Block :=
  [.block [.tryCatch [.throw (.int 1)] none (some [.block []]) none]]

/-- The engine, and what is left of a script on it when the host has asked for the number of live
scopes. -/
def afterCensus (sch : Scheduler) (script : Block) : Scheduler × Scheduler.Finish (Engine.Result Value) :=
  { sch with state := (sch.state.census 0).2 }.run 40
    (Engine.execute 40 (Engine.new .initial threeSlots).1 0 script)

/-- What a script has come to: its value, or the fault that it has failed with. -/
def outcomeOf : Scheduler.Finish (Engine.Result Value) → Option (Except Fault Value)
  | .done (.ok v) => some (.ok v)
  | .done (.error (.eval e)) => some (.error e.fault)
  | _ => none

theorem exists_done_of_outcomeOf {ended : Scheduler.Finish (Engine.Result Value)}
    {o : Except Fault Value} (ho : outcomeOf ended = some o) : ∃ r, ended = .done r := by
  unfold outcomeOf at ho
  split at ho
  · exact ⟨_, rfl⟩
  · exact ⟨_, rfl⟩
  · cases ho

theorem withHostScope_balanced : withHostScope.state.Balanced := by
  unfold withHostScope
  have hopened := (pristine_withThreeSlots.balanced.leadsTo.addChild 0).1
  exact hopened.1.keepsSlots (EngineState.keepsSlots_elsewhere rfl rfl rfl)

theorem withHostScope_atRest : withHostScope.AtRest := by
  unfold withHostScope
  refine ⟨rfl, rfl, rfl, fun task xs hxs => ?_, fun frame calls hcalls => ?_, fun task job hj => ?_⟩
  · have hheld : (withThreeSlots.state.addChild 0).2.held = Store.push {} [] := rfl
    obtain rfl | hnone := Store.get?_push (hheld ▸ hxs)
    · rfl
    · cases hnone
  · have hnone : none = some calls := hcalls
    cases hnone
  · cases Array.mem_toList_iff.mpr hj

/-- The scope of the host takes a slot, and the script the two others, when its handler is refused one
more.  After the run the host's scope is the only one that takes a slot, as before. -/
theorem slots_given_back_refused :
    outcomeOf (afterCensus withHostScope refusedInHandler).2 = some (.error (.scopeLimit 3)) ∧
      (withHostScope.state.census 0).1.live = 1 ∧
      ((afterCensus withHostScope refusedInHandler).1.state.census 0).1.live = 1 := by
  have hrefused : outcomeOf (afterCensus withHostScope refusedInHandler).2 =
      some (.error (.scopeLimit 3)) := by
    decide +kernel
  have hone : (withHostScope.state.census 0).1.live = 1 := by decide +kernel
  have hnothing (o : Object) (ho : withHostScope.state.heap.Reaches (.scope 0) o) : o = .scope 0 :=
    List.mem_singleton.mp (mem_of_reflTransGen (by decide +kernel) List.mem_cons_self ho)
  obtain ⟨r, hr⟩ := exists_done_of_outcomeOf hrefused
  refine ⟨hrefused, hone, ?_⟩
  rw [← hone]
  exact slots_given_back (by decide) withHostScope_atRest (by decide +kernel) (by decide +kernel)
    withHostScope_balanced (fun id hid => by cases hnothing _ hid) (Prod.ext rfl hr)

/-! ## A scope that another task refers to -/

/-- The host holds two root scopes of two governors.  In the first one there is a function that sleeps;
in the second one there is a function that was made in a block of the first, and that a task is about to
forget. -/
@[irreducible] def withForgetter : Scheduler :=
  let made : Function := .script (.mk none [] false []) 1 false
  let forget : Function := .script (.mk none [] false [.assignTo "f" .nil]) 2 false
  let first : Scope := { vars := ⟨[("sleep", .func 0)]⟩ }
  let block : Scope := { parent := some 0, counted := true, captured := true }
  let second : Scope := { vars := ⟨[("f", .func 1)]⟩, governor := 1 }
  let s : EngineState := { EngineState.initial with
    heap := {
      funcs := ((Store.push {} (.host (.fixed "sleep" [.int .int64] [] .sleep))).push made).push forget
      scopes := ((Store.push {} first).push block).push second }
    governors := (Store.push {} { limit := 0, balance := 1, peak := 1 }).push { limit := 0 }
    pinned := [0, 2]
    lingering := 1 }
  { state := (s.start (.call 0 (.func 2) [] false)).2 }

/-- `sleep(1)`. -/
def sleeping : Block := [.expr (.call (.ident "sleep") [.int 1])]

/-- **Another task may give a slot back**, although it works under another governor. -/
theorem slot_given_back_elsewhere :
    (∀ n ∈ sleeping.nodes, n.leavesNothing = true) ∧
      (∀ id, withForgetter.state.heap.Reaches (.scope 0) (.func id) →
        (withForgetter.state.heap.func id).definition? = none) ∧
      (withForgetter.state.heap.scope 0).governor = 0 ∧
      (∀ task job, Notice.started task job ∈ withForgetter.state.notices →
        job = .call 0 (.func 2) [] false) ∧
      withForgetter.state.heap.references (.func 2) = [.scope 2] ∧
      (withForgetter.state.heap.scope 2).governor = 1 ∧
      (withForgetter.state.census 0).1.live = 1 ∧
      outcomeOf (afterCensus withForgetter sleeping).2 = some (.ok .nil) ∧
      ((afterCensus withForgetter sleeping).1.state.census 0).1.live = 0 := by
  refine ⟨by decide, fun id hid => ?_, by decide +kernel, fun task job hj => ?_, by decide +kernel,
    by decide +kernel, by decide +kernel, by decide +kernel, by decide +kernel⟩
  · have hin : Object.func id ∈ [Object.scope 0, .func 0] :=
      mem_of_reflTransGen (by decide +kernel) List.mem_cons_self hid
    obtain rfl : id = 0 := by simpa using hin
    exact Option.isNone_iff_eq_none.mp (by decide +kernel)
  · unfold withForgetter at hj
    cases List.mem_singleton.mp (Array.mem_toList_iff.mpr hj)
    rfl

end ScriptEngine
