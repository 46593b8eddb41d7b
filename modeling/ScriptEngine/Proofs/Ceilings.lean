import ScriptEngine.Proofs.Scheduler.Lockstep
import ScriptEngine.Tree.Builder

/-! # Ceilings are invisible until they are hit

A run is bound by two ceilings: the governor of its scopes has a limit, and so has the number of
elements that an operation may produce; 0 means that there is no ceiling.  What is refused because of a
ceiling is put on record.  If in a run nothing is refused on account of its ceilings, then the run is
the same with ceilings that are **raised** (`Raises`): it has the same outcome, and leaves the same
objects, cycle counts and peaks (`run_under_raised_ceilings`).

The two runs are in lockstep.  The states on both sides are `SameButCeilings`, and all is lost once
something has been refused.  There is one place where a ceiling is looked at although nothing is
refused: garbage is collected before slots are looked for, if they are scarce.  A governor whose peak
is within its limit finds them scarce only if one more scope would be more than there ever were
(`Governor.isTight_eq`), and this does not depend on the limit.
-/
namespace ScriptEngine

variable {α : Type}

/-- The ceiling is raised, or taken away; 0 means that there is none. -/
def Raises (ceiling ceiling' : Nat) : Prop := ceiling' = 0 ∨ ceiling ≠ 0 ∧ ceiling ≤ ceiling'

namespace Raises
variable {ceiling ceiling' : Nat}

instance : Decidable (Raises ceiling ceiling') := inferInstanceAs (Decidable (_ ∨ _))

theorem refl (ceiling : Nat) : Raises ceiling ceiling := by
  unfold Raises
  omega

/-- What is below a ceiling is below one that is raised. -/
theorem within (hr : Raises ceiling ceiling') {n : Nat} (hn : ¬ (0 < ceiling ∧ ceiling < n)) :
    ¬ (0 < ceiling' ∧ ceiling' < n) := by
  unfold Raises at hr
  omega

end Raises

/-! ## Governors -/

namespace Governor

/-- Scopes are counted one by one, also where the count turns around. -/
theorem word_succ_le (balance : Int) : word (balance + 1) ≤ word balance + 1 := by
  unfold word
  split <;> split <;> omega

theorem isFull_iff (x : Governor) : x.isFull ↔ 0 < x.limit ∧ x.limit < word (x.balance + 1) := by
  simp [isFull]

/-- The peak is within the limit. -/
def Within (x : Governor) : Prop := 0 < x.limit → x.peak ≤ x.limit

/-- **Whether slots are scarce does not depend on the limit**, as long as the peak is within it: where
there is no slot left, one more scope would be more than there ever were. -/
theorem isTight_eq {x : Governor} (hx : x.Within) :
    EngineState.isTight x = decide (x.peak < x.live + 1) := by
  have hword : word (x.balance + 1) ≤ x.live + 1 := word_succ_le x.balance
  have hfull : x.isFull = true → x.peak < x.live + 1 := by
    intro hfull
    obtain ⟨hpos, hlt⟩ := x.isFull_iff.mp hfull
    have := hx hpos
    omega
  unfold EngineState.isTight
  cases hf : x.isFull with
  | false => exact Bool.false_or _
  | true => simp [hfull hf]

/-- The governor is the same but for a ceiling that is raised. -/
structure Raised (x y : Governor) : Prop where
  eq : y = { x with limit := y.limit }
  limit : Raises x.limit y.limit
  within : x.Within

namespace Raised
variable {x y : Governor} (hxy : x.Raised y)
include hxy

theorem isTight : EngineState.isTight y = EngineState.isTight x := by
  have hy : y.Within := by
    intro hpos
    have hpeak : y.peak = x.peak := by rw [hxy.eq]
    have := hxy.within
    have := hxy.limit
    unfold Raises Within at *
    omega
  rw [isTight_eq hxy.within, isTight_eq hy, hxy.eq]
  rfl

theorem isFull (hx : x.isFull = false) : y.isFull = false := by
  have hnot : ¬ (0 < x.limit ∧ x.limit < word (x.balance + 1)) := by
    rw [← isFull_iff, hx]
    exact Bool.false_ne_true
  rw [← Bool.not_eq_true, isFull_iff, show y.balance = x.balance by rw [hxy.eq]]
  exact hxy.limit.within hnot

theorem release : x.release.Raised y.release :=
  ⟨by rw [hxy.eq]; rfl, hxy.limit, hxy.within⟩

/-- A slot that is there is within the limit. -/
theorem acquire (hx : x.isFull = false) : x.acquire.Raised y.acquire where
  eq := by rw [hxy.eq]; rfl
  limit := hxy.limit
  within hpos := by
    have hnot : ¬ (0 < x.limit ∧ x.limit < word (x.balance + 1)) := by
      rw [← isFull_iff, hx]
      exact Bool.false_ne_true
    have := hxy.within hpos
    show max x.peak (word (x.balance + 1)) ≤ x.limit
    have hpos : 0 < x.limit := hpos
    omega

end Raised
end Governor

/-! ## The same but for the ceilings -/

section
variable (g : GovernorId) (run : RunId)

/-- The governor of this number may have another ceiling. -/
def GovernorAlike (id : GovernorId) (x y : Governor) : Prop := y = x ∨ id = g ∧ x.Raised y

/-- The run of this number may have another ceiling. -/
def RunAlike (id : RunId) (x y : Run) : Prop :=
  y = { x with maxElements := y.maxElements } ∧ Raises x.maxElements y.maxElements ∧
    (id ≠ run → y = x)

/-- Something was refused by the governor or to the run. -/
def Refusal.concerns : Refusal → Bool
  | .scope other => other == g
  | .length other => other == run

/-- How often something was refused by the governor or to the run. -/
def EngineState.refusalCount (s : EngineState) : Nat := s.refusals.countP (·.concerns g run)

/-- **The states are the same but for the ceilings** of the governor and the run. -/
structure SameButCeilings (count : Nat) (s s' : EngineState) : Prop
    extends s.Agree (GovernorAlike g) (RunAlike run) s' where
  now : s'.now = s.now
  notices : s'.notices = s.notices
  refused : count ≤ s.refusalCount g run

/-- Ceilings make no difference until something more has been refused. -/
def ceilings (count : Nat) : Likeness where
  states := SameButCeilings g run count
  waits on on' := on' = on
  pauses := False
  lost s := count < s.refusalCount g run
  runs _ := True
  signals _ := True

end

variable {g : GovernorId} {run : RunId} {count : Nat} {s s' : EngineState}

theorem GovernorAlike.release (id : GovernorId) (x y : Governor) (hxy : GovernorAlike g id x y) :
    GovernorAlike g id x.release y.release := by
  obtain rfl | ⟨hid, hxy⟩ := hxy
  · exact .inl rfl
  · exact .inr ⟨hid, hxy.release⟩

theorem RunAlike.refl (id : RunId) (x : Run) : RunAlike run id x x := ⟨rfl, .refl _, fun _ => rfl⟩

namespace SameButCeilings

section
variable (hs : SameButCeilings g run count s s')
include hs

theorem runAlike (id : RunId) : RunAlike run id (s.run id) (s'.run id) :=
  hs.toAgree.run (fun id => .refl id _) id

theorem governorAlike (id : GovernorId) : GovernorAlike g id (s.governor id) (s'.governor id) :=
  hs.toAgree.governor (fun _ => .inl rfl) id

/-- What is done to objects, slots and holdings keeps the states the same but for the ceilings. -/
theorem apart {t t' : EngineState} (ha : s.Apart t) (ha' : s'.Apart t')
    (ht : t.Agree (GovernorAlike g) (RunAlike run) t') : SameButCeilings g run count t t' where
  toAgree := ht
  now := by rw [ha'.now, ha.now, hs.now]
  notices := by rw [ha'.notices, ha.notices, hs.notices]
  refused := by
    unfold EngineState.refusalCount
    rw [ha.refusals]
    exact hs.refused

/-- A checkpoint is passed on both sides. -/
theorem pass (id : RunId) : SameButCeilings g run count (s.pass id) (s'.pass id) := by
  have hagree := hs.toAgree.pass id id
  rw [s.pass_eq, s'.pass_eq] at hagree ⊢
  exact { hs with toAgree := hagree }

/-- A change of a run that has nothing to do with its ceiling. -/
theorem modifyRun (id : RunId) {f : Run → Run}
    (hf : ∀ r n, f { r with maxElements := n } = { f r with maxElements := n })
    (hkeeps : ∀ r, (f r).maxElements = r.maxElements) :
    SameButCeilings g run count (s.modifyRun id f) (s'.modifyRun id f) :=
  { hs with
    toAgree := hs.toAgree.modifyRun id fun x y _ hxy => by
      obtain ⟨heq, hraises, hsame⟩ := hxy
      refine ⟨?_, ?_, fun hid => by rw [hsame hid]⟩
      · rw [hkeeps y, heq, hf]
      · rw [hkeeps, hkeeps]
        exact hraises }

theorem refuse (r : Refusal) : SameButCeilings g run count (s.refuse r) (s'.refuse r) :=
  { hs with
    toAgree := hs.toAgree.refuse r
    refused := Nat.le_trans hs.refused
      (((List.suffix_cons r s.refusals).sublist).countP_le) }

theorem complain (m : Misfit) : SameButCeilings g run count (s.complain m) (s'.complain m) :=
  { hs with toAgree := hs.toAgree.complain m }

/-- Once something has been refused that concerns the ceilings, all is lost. -/
theorem lost_refuse {r : Refusal} (hr : r.concerns g run = true) :
    (ceilings g run count).lost (s.refuse r) := by
  show count < (r :: s.refusals).countP _
  rw [List.countP_cons_of_pos hr]
  exact Nat.lt_succ_of_le hs.refused

end

/-! ## Slots and lengths -/

section
variable (hs : SameButCeilings g run count s s')
include hs

/-- Garbage is collected on both sides, or on neither. -/
theorem tidied (id : GovernorId) : SameButCeilings g run count (s.tidied id) (s'.tidied id) := by
  have htight : EngineState.isTight (s'.governor id) = EngineState.isTight (s.governor id) := by
    obtain heq | ⟨-, hraised⟩ := hs.governorAlike id
    · rw [heq]
    · exact hraised.isTight
  unfold EngineState.tidied
  rw [htight]
  split
  · exact hs.apart s.apart_collect s'.apart_collect (hs.toAgree.collect GovernorAlike.release)
  · exact hs

theorem opened {id : GovernorId} (hfull : (s.governor id).isFull = false) (parent : ScopeId) :
    SameButCeilings g run count (s.opened id parent) (s'.opened id parent) := by
  refine { hs with toAgree := hs.toAgree.opened id parent fun x y hx hxy => ?_ }
  have hx : s.governor id = x := by simp [EngineState.governor, hx]
  obtain rfl | ⟨hid, hxy⟩ := hxy
  · exact .inl rfl
  · exact .inr ⟨hid, hxy.acquire (hx ▸ hfull)⟩

/-- **A scope is opened on both sides**, unless there is no slot for it on the first one. -/
theorem openScope (parent : ScopeId) :
    Parallel (ceilings g run count) (fun _ => True) (Eval.openScope parent s)
      (Eval.openScope parent s') := by
  generalize hid : (s.heap.scope parent).governor = id
  have hid' : (s'.heap.scope parent).governor = id := by rw [hs.heap, hid]
  have ht := hs.tidied id
  rw [Eval.openScope_apply, Eval.openScope_apply, EngineState.addChild_eq hid rfl,
    EngineState.addChild_eq hid' rfl, hid, hid']
  cases hfull : ((s.tidied id).governor id).isFull with
  | false =>
    have hfull' : ((s'.tidied id).governor id).isFull = false := by
      obtain heq | ⟨-, hraised⟩ := ht.governorAlike id
      · rw [heq, hfull]
      · exact hraised.isFull hfull
    simp only [hfull', Bool.false_eq_true, if_false]
    rw [ht.heap]
    exact .done (ht.opened hfull parent) trivial
  | true =>
    by_cases hg : id = g
    · subst hg
      refine .lost (ht.lost_refuse (r := .scope id) (by simp [Refusal.concerns])) ?_
      exact ⟨⟨Nat.le_refl _, fun _ h => h, List.suffix_refl _, fun _ _ => trivial⟩, trivial⟩
    · obtain heq | ⟨hid, -⟩ := ht.governorAlike id
      · rw [heq]
        simp only [hfull, if_true]
        exact .done (ht.refuse _) trivial
      · exact absurd hid hg

/-- **A length is fine on both sides**, unless it is too much on the first one. -/
theorem checkLength (id : RunId) (length : Nat) :
    Parallel (ceilings g run count) (fun _ => True) (Eval.checkLength id length s)
      (Eval.checkLength id length s') := by
  obtain ⟨-, hraises, hsame⟩ := hs.runAlike id
  rw [Eval.checkLength_apply, Eval.checkLength_apply]
  split
  · rename_i hover
    by_cases hid : id = run
    · subst hid
      refine .lost (hs.lost_refuse (r := .length id) (by simp [Refusal.concerns])) ?_
      exact ⟨⟨Nat.le_refl _, fun _ h => h, List.suffix_refl _, fun _ _ => trivial⟩, trivial⟩
    · rw [hsame hid, if_pos hover]
      exact .done (hs.refuse _) trivial
  · rename_i hbelow
    rw [if_neg (hraises.within hbelow)]
    exact .done hs trivial

/-! ## What does not look at ceilings -/

theorem isCancelled_eq : s'.isCancelled = s.isCancelled := by
  funext signal
  unfold EngineState.isCancelled EngineState.signal
  rw [hs.signals, hs.now]

theorem checkWait (on : Wait) :
    Parallel (ceilings g run count) (fun _ => True) (Eval.checkWait on s) (Eval.checkWait on s') := by
  rw [Eval.checkWait_apply, Eval.checkWait_apply, hs.isCancelled_eq]
  split <;> exact .done hs trivial

theorem await (on : Wait) :
    Parallel (ceilings g run count) (fun _ => True) (Eval.await on s) (Eval.await on s') := by
  rw [Eval.await_apply, Eval.await_apply, hs.isCancelled_eq]
  split
  · exact .done hs trivial
  · exact .wait hs rfl fun _ _ ht => ht.checkWait on

theorem tick (id : RunId) :
    Parallel (ceilings g run count) (fun _ => True) (Eval.tick id s) (Eval.tick id s') := by
  have hrun := (hs.runAlike id).1
  have hlimiter : (s'.run id).limiter = (s.run id).limiter := by rw [hrun]
  rw [Eval.tick_apply, Eval.tick_apply, hlimiter, hs.now]
  have hcounted := hs.modifyRun id (f := fun r =>
    { r with limiter := ((s.run id).limiter.tick s.now).1 }) (fun _ _ => rfl) fun _ => rfl
  cases ((s.run id).limiter.tick s.now).2 with
  | none => exact .done hcounted trivial
  | some due =>
    simp only
    rw [show ((s'.modifyRun id fun r => _).run id).signal = ((s.modifyRun id fun r => _).run id).signal by
      rw [(hcounted.runAlike id).1]]
    exact hcounted.await _

end

end SameButCeilings

/-- **Ceilings keep schedulers in lockstep.** -/
theorem inStep_ceilings (g : GovernorId) (run : RunId) (count : Nat) : (ceilings g run count).InStep where
  heap_eq hs := hs.heap
  frames_eq hs := hs.frames
  held_eq hs := hs.held
  current_eq hs := hs.current
  signal_eq hs _ := ⟨by rw [(hs.runAlike _).1], trivial⟩
  cycles_eq hs _ := by rw [(hs.runAlike _).1]
  heap h hs := { hs with toAgree := hs.toAgree.withHeap h }
  frames frames hs := { hs with toAgree := hs.toAgree.withFrames frames }
  defer frame call hs := { hs with toAgree := hs.toAgree.defer frame call }
  notify chan hs := { hs with
    notices := by
      show Array.push _ _ = Array.push _ _
      rw [hs.notices] }
  hold x hs := hs.apart (EngineState.apart_hold _ x) (EngineState.apart_hold _ x) (hs.toAgree.hold x)
  letGoOf task hs := hs.apart (EngineState.apart_letGoOf _ task) (EngineState.apart_letGoOf _ task)
    (hs.toAgree.letGoOf GovernorAlike.release task)
  capture scope hs := hs.apart (EngineState.apart_capture _ scope) (EngineState.apart_capture _ scope)
    (hs.toAgree.capture scope)
  spend n hs _ := hs.modifyRun _ (fun _ _ => rfl) fun _ => rfl
  pass run hs := hs.pass run
  complain m hs := hs.complain m
  openScope parent hs := hs.openScope parent
  checkSignal hs _ := by
    rw [Eval.checkSignal_apply, Eval.checkSignal_apply, hs.isCancelled_eq]
    split <;> exact .done hs trivial
  await hs _ := hs.await _
  sleep ms hs := by
    rw [Eval.sleep_apply, Eval.sleep_apply, hs.now]
    split
    · exact .done hs trivial
    · exact .wait hs rfl fun _ _ ht => .done ht trivial
  tick hs _ := hs.tick _
  checkLength length hs _ := hs.checkLength _ length
  cancel hs _ := .done { hs with
    toAgree := hs.toAgree.cancel _
    notices := by
      show Array.push _ _ = Array.push _ _
      rw [hs.notices] } trivial
  start job hs := by
    rename_i s s'
    have hnext : (s'.start job).1 = (s.start job).1 := congrArg Store.next hs.held
    rw [Eval.update_apply, Eval.update_apply, hnext]
    exact .done { hs with
      toAgree := hs.toAgree.start job
      notices := by
        show s'.notices.push (.started s'.held.next job) = s.notices.push (.started s.held.next job)
        rw [hs.notices, hs.held] } trivial
  waits_eq hon := hon
  steady := id
  all_runs _ := trivial
  all_signals _ := trivial
  lost_stays ha hk := Nat.lt_of_lt_of_le hk ha.refusals.sublist.countP_le
  now_eq hs := hs.now
  notices_eq hs := hs.notices
  signals_eq hs := hs.signals
  current task hs := { hs with toAgree := { hs.toAgree with current := rfl } }
  notices hs := { hs with notices := rfl }
  now t hs := { hs with now := rfl }
  report r hs := { hs with
    toAgree := { hs.toAgree with
      reports := by
        show _ ++ _ = _ ++ _
        rw [hs.reports] } }

/-! ## Raised ceilings -/

/-- The state in which the governor and the run have these ceilings. -/
def EngineState.withCeilings (s : EngineState) (g : GovernorId) (run : RunId)
    (maxScopes maxElements : Nat) : EngineState :=
  { s with
    governors := s.governors.modify g fun x => { x with limit := maxScopes }
    runs := s.runs.modify run fun r => { r with maxElements } }

/-- The scheduler in whose state the governor and the run have these ceilings. -/
def Scheduler.withCeilings (sch : Scheduler) (g : GovernorId) (run : RunId)
    (maxScopes maxElements : Nat) : Scheduler :=
  { sch with state := sch.state.withCeilings g run maxScopes maxElements }

/-- Raising ceilings changes nothing else. -/
theorem sameButCeilings_withCeilings {maxScopes maxElements : Nat}
    (hscopes : Raises (s.governor g).limit maxScopes)
    (helements : Raises (s.run run).maxElements maxElements) (hpeak : (s.governor g).Within) :
    SameButCeilings g run (s.refusalCount g run) s (s.withCeilings g run maxScopes maxElements) where
  heap := rfl
  governors := Store.alike_modify (fun _ _ => .inl rfl) _ g fun x hx => by
    have hx : s.governor g = x := by simp [EngineState.governor, hx]
    rw [hx] at hscopes hpeak
    exact .inr ⟨rfl, rfl, hscopes, hpeak⟩
  signals := rfl
  runs := Store.alike_modify RunAlike.refl _ run fun x hx => by
    have hx : s.run run = x := by simp [EngineState.run, hx]
    rw [hx] at helements
    exact ⟨rfl, helements, fun hne => absurd rfl hne⟩
  frames := rfl
  held := rfl
  current := rfl
  pinned := rfl
  lingering := rfl
  reports := rfl
  refusals := rfl
  deferrals := rfl
  now := rfl
  notices := rfl
  refused := Nat.le_refl _

/-- **Ceilings are invisible until they are hit.**  In a state that tasks can come to a script is run,
and nothing is refused on account of the ceiling of a governor, which has kept to it so far, or on
account of that of the run.  Then the run is the same if these ceilings are raised or taken away,
whatever other tasks are under way: it has the same outcome, and leaves the same objects and scopes,
the same cycle counts and the same peaks. -/
theorem run_under_raised_ceilings {sch : Scheduler} {main : Option (Foreground α)}
    (hr : Reachable sch main) (g : GovernorId) (fuel : Nat) (e : Engine) (run : RunId)
    (script : Block) (maxScopes maxElements : Nat)
    (hscopes : Raises (sch.state.governor g).limit maxScopes)
    (helements : Raises (sch.state.run run).maxElements maxElements)
    (hpeak : (sch.state.governor g).Within)
    (hends : (sch.run fuel (e.execute fuel run script)).2 ≠ .stopped .outOfFuel)
    (hnone : (sch.run fuel (e.execute fuel run script)).1.state.refusalCount g run =
      sch.state.refusalCount g run) :
    let r := sch.run fuel (e.execute fuel run script)
    let r' := (sch.withCeilings g run maxScopes maxElements).run fuel (e.execute fuel run script)
    r'.2 = r.2 ∧ r'.1.state.heap = r.1.state.heap ∧
      (∀ id, (r'.1.state.run id).cycles = (r.1.state.run id).cycles) ∧
      ∀ id, (r'.1.state.governor id).peak = (r.1.state.governor id).peak := by
  have hL := inStep_ceilings g run (sch.state.refusalCount g run)
  have hothers : sch.IsImpartial (ceilings g run (sch.state.refusalCount g run)) := hr.impartial hL
  have hstart : sch.Twins (ceilings g run (sch.state.refusalCount g run))
      (sch.withCeilings g run maxScopes maxElements) :=
    hothers.twins (sameButCeilings_withCeilings hscopes helements hpeak)
  have hsafe : SafeToResume id (ceilings g run (sch.state.refusalCount g run)).accrues sch.state
      (e.execute fuel run script) := habits_accrues.safe_execute fuel trivial run (Block.in_all script) sch.state
  obtain hlost | ⟨hend, hfinish⟩ := hstart.run hL (hothers.safe hL) fuel
    (fun hs => hL.parallel_execute fuel e trivial script hs) hsafe hends
  · exact absurd hnone (Nat.ne_of_gt hlost)
  · have hsame := hend.state
    refine ⟨hfinish, hsame.heap, fun id => hL.cycles_eq hsame trivial, fun id => ?_⟩
    obtain heq | ⟨-, hraised⟩ := hsame.governorAlike id
    · rw [heq]
    · rw [hraised.eq]

/-! ## Blocks in blocks -/

/-- An engine whose governor has this ceiling, with a run that has this one. -/
def underCeilings (maxScopes maxElements : Nat) : Scheduler :=
  { state := { EngineState.initial with
      heap := { scopes := Store.push {} {} }
      governors := Store.push {} { limit := maxScopes }
      signals := Store.push {} {}
      runs := Store.push {} { signal := 0, limiter := ⟨0, 0, 0, 0⟩, maxElements }
      pinned := [0] } }

def rootEngine : Engine := { config := {}, governor := 0, scope := 0, ownsScope := true }

/-- `{ { return "ab" * 3 } }`. -/
def nestedBlocks : Block :=
  [.block [.block [.ret (.binary .mul (.string "ab") (.int 3))]]]

/-- The scheduler after the script, and how it ended. -/
def afterNestedBlocks (sch : Scheduler) : Scheduler × Scheduler.Finish (Engine.Result Value) :=
  sch.run 40 (rootEngine.execute 40 0 nestedBlocks)

/-- The run has a result. -/
def succeeds : Scheduler.Finish (Engine.Result Value) → Bool
  | .done (.ok _) => true
  | _ => false

theorem reachable_underCeilings (maxScopes maxElements : Nat) :
    Reachable (underCeilings maxScopes maxElements) noMain :=
  .host .start rfl rfl rfl ⟨Nat.le_refl _, fun id hid => absurd hid (Nat.not_lt_zero id)⟩

/-- Two scopes and a text of six bytes are just what is allowed; without a ceiling on scopes, and with
more room for texts, the same happens. -/
theorem run_under_raised_ceilings_nested :
    succeeds (afterNestedBlocks (underCeilings 2 6)).2 = true ∧
      (afterNestedBlocks ((underCeilings 2 6).withCeilings 0 0 0 10)).2 =
        (afterNestedBlocks (underCeilings 2 6)).2 ∧
      (afterNestedBlocks ((underCeilings 2 6).withCeilings 0 0 0 10)).1.state.heap =
        (afterNestedBlocks (underCeilings 2 6)).1.state.heap := by
  have hsucceeds : succeeds (afterNestedBlocks (underCeilings 2 6)).2 = true := by decide +kernel
  refine ⟨hsucceeds, ?_⟩
  unfold afterNestedBlocks at hsucceeds ⊢
  obtain ⟨hfinish, hheap, -⟩ := run_under_raised_ceilings (reachable_underCeilings 2 6) 0 40
    rootEngine 0 nestedBlocks 0 10 (by decide) (by decide) (fun _ => by decide)
    (fun heq => by rw [heq] at hsucceeds; cases hsucceeds) (by decide +kernel)
  exact ⟨hfinish, hheap⟩

/-- Where there is no ceiling, any other is a lower one: two scopes are one too many for a ceiling
of 1, although nothing is refused without it. -/
theorem ceiling_where_none_was :
    (afterNestedBlocks (underCeilings 0 0)).1.state.refusals = [] ∧
      succeeds (afterNestedBlocks (underCeilings 0 0)).2 = true ∧
      succeeds (afterNestedBlocks ((underCeilings 0 0).withCeilings 0 0 1 0)).2 = false := by
  decide +kernel

end ScriptEngine
