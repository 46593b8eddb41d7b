import ScriptEngine.Engine
import ScriptEngine.Proofs.AllowList.Statements
import ScriptEngine.Proofs.Scheduler.Alone
import ScriptEngine.Proofs.Scheduler.Turns
import ScriptEngine.Tree.Builder

/-! # A script sees no more than the names that are exposed to it

A host that checks the free names of a script against a list wants to know that the script cannot tell
what else there is in its root scope.  The free names are not enough for that
(`late_name_is_not_free`): the walk that finds them takes a name for bound in the whole block if a
function or a module of that name is declared in it, and in the body of a loop if the last clause assigns
to it, although the evaluator may come to the name before it is bound; and it does not look at members,
although whoever looks for a member of a module goes on to the scopes around the module.

With these names added (`Block.exposedNames`) the list is sound.  In two root scopes that bind the same
names, and bind those that are exposed to the same values, a script has the same outcome, and what it
leaves of the two states is alike again (`hidden_names_do_not_matter`).  The hidden values may be anything
that the host holds on to otherwise, so that the same is garbage on both sides.  That the same names are
bound is no more than has to be asked: an assignment goes to the scope that binds the name.
-/

/-! ## Schedulers over two versions

The jobs that scripts start are neutral, whatever they are, and a script as a whole goes together in both
versions of a state if its scope is ready for it.  So two schedulers over the versions of one state, with
tasks that go together, give the same turns (`AllowList.Tandem.drive`): in the end they are over the
versions of one state again, and the outcome is the same.
-/
namespace ScriptEngine
namespace AllowList

variable {α β : Type} {A : AllowList} {k p q : Versions}

/-! ## Tasks -/

/-- A step that breaks down lets go of the same in both versions. -/
theorem Together.catchBreakDown {Q : Versions → α → Prop} (keep : Nat) {x y : Step α}
    (hxy : A.Together Q k x y) :
    A.Together (fun _ _ => True) k (x.catchBreakDown keep) (y.catchBreakDown keep) := by
  induction hxy with
  | done hp _ => exact .done hp trivial
  | wait hp _ ih => exact .wait hp ih
  | @stop k p why hp =>
    cases why with
    | outOfFuel => exact .stop hp
    | breakDown message =>
      have hright : (A.right p).unwind (A.right p).current keep =
          (p.left.unwind p.left.current keep).onScopes (A.swap p.vars p.packages) :=
        unwind_swap _ p.left.current keep
      simp only [Step.catchBreakDown]
      rw [hright]
      exact (Together.ended (hp.valid.thins (thins_unwind _ _ _)) trivial).later hp

/-- Resumed in later versions, the tasks go together. -/
def ResumeTogether (A : AllowList) (k : Versions) (resume resume' : EngineState → Step α) : Prop :=
  ∀ p, A.Later k p → A.Together (fun _ _ => True) p (resume p.left) (resume' (A.right p))

theorem ResumeTogether.later {resume resume' : EngineState → Step α}
    (h : A.ResumeTogether k resume resume') (hp : A.Later k p) : A.ResumeTogether p resume resume' :=
  fun q hq => h q (hp.trans hq)

/-- What a task does that a script has started. -/
theorem program_together (fuel : Nat) (task : TaskId) (job : Job) :
    A.ResumeTogether k (job.program fuel task) (job.program fuel task) := by
  intro p hp
  have hgone : A.Later p { p with left := p.left.letGo } :=
    hp.valid.thins (thins_letGoOf p.left p.left.current)
  have hright : (A.right p).letGo = p.left.letGo.onScopes (A.swap p.vars p.packages) :=
    letGoOf_swap p.left p.left.current
  have hreport {m : Eval (Option (Value × Bool))} (hm : A.Neutral m) :
      A.Together (fun _ _ => True) p (Job.report task m p.left.letGo)
        (Job.report task m (A.right p).letGo) := by
    rw [hright]
    refine ((hm.together hgone.valid).bind fun outcome q hq _ => .ended (hq.valid.thins ?_) trivial).later
      hgone
    refine thins_of_fabric rfl fun o ho => ho.imp_right fun h => ?_
    rw [List.flatMap_append]
    exact List.mem_append_left _ h
  cases job with
  | call run callee args spread =>
    have hcall := (knowing_ofFuel A run fuel).call callee args spread
    show A.Together _ p (((Evaluator.ofFuel run fuel).call callee args spread p.left.letGo).bind _)
      (((Evaluator.ofFuel run fuel).call callee args spread (A.right p).letGo).bind _)
    rw [hright]
    exact ((hcall.together hgone.valid).bind fun r q hq _ => .ended hq.valid.refl trivial).later hgone
  | send chan v signal => exact hreport inferInstance
  | recv chan signal => exact hreport inferInstance

/-- **A script as a whole**, in a scope that is ready for it. -/
theorem execute_together {script : Block} (hscript : Block.In A.covers script) {e : Engine}
    {st : FreeNames.State} (hs : A.Ready k e.scope st) (hfound : A.Finds (FreeNames.stmts script st))
    (fuel : Nat) (run : RunId) :
    A.ResumeTogether k (e.execute fuel run script) (e.execute fuel run script) := by
  intro p hp
  have hprogram := (knowing_ofFuel A run fuel).program hscript hs hfound
  have hguarded := (hprogram.together hp).catchBreakDown (p.left.holdCount p.left.current)
  refine hguarded.bind fun r q hq _ => ?_
  match r with
  | .ok (.ok v) | .ok (.error error) | .error message => exact .ended hq.valid.refl trivial

/-! ## Schedulers -/

/-- The states are versions of one state, in which nothing known in `k` has been lost. -/
def Versioned (A : AllowList) (k : Versions) (s s' : EngineState) : Prop :=
  ∃ p, A.Later k p ∧ s = p.left ∧ s' = A.right p

theorem Valid.versioned (hp : A.Valid p) {s : EngineState} (hs : Thins p.left s) :
    A.Versioned p s (s.onScopes (A.swap p.vars p.packages)) :=
  ⟨{ p with left := s }, hp.thins hs, rfl, rfl⟩

/-- The tasks wait for the same, and go together from versions in which no less is known than in `k`. -/
structure SameTask (A : AllowList) (k : Versions) (t t' : Suspended Unit) : Prop where
  task : t'.task = t.task
  on : t'.on = t.on
  resume : A.ResumeTogether k t.resume t'.resume

/-- The foreground tasks do so too, and both have been woken or neither. -/
structure SameForeground (A : AllowList) (k : Versions) (main main' : Foreground α) : Prop
    extends main.SameWait main' where
  resume : A.ResumeTogether k main.resume main'.resume

/-- **The schedulers are in tandem**: their states are versions of one state, and their tasks go
together. -/
abbrev Tandem (A : AllowList) (k : Versions) : Scheduler → Scheduler → Prop :=
  Scheduler.Paired (A.Versioned k) (A.SameTask k)

/-- **What came of something in tandem**: the schedulers are still in tandem, or both have run out of
fuel. -/
inductive Outcomes (A : AllowList) (k : Versions) (R : Versions → β → β → Prop) :
    Except Halt (Scheduler × β) → Except Halt (Scheduler × β) → Prop where
  | ok {q : Versions} {sch sch' : Scheduler} {b b' : β} (hq : A.Later k q) (h : A.Tandem q sch sch')
      (hb : R q b b') : Outcomes A k R (.ok (sch, b)) (.ok (sch', b'))
  | error (why : Halt) : Outcomes A k R (.error why) (.error why)

theorem Outcomes.later {R : Versions → β → β → Prop} {x y : Except Halt (Scheduler × β)}
    (h : A.Outcomes p R x y) (hp : A.Later k p) : A.Outcomes k R x y := by
  cases h with
  | ok hq h hb => exact .ok (hp.trans hq) h hb
  | error why => exact .error why

namespace SameForeground
variable {main main' wait wait' : Foreground α}

theorem later (hm : A.SameForeground k main main') (hp : A.Later k p) :
    A.SameForeground p main main' := { hm with resume := hm.resume.later hp }

/-- After a change that leaves both waiting for the same. -/
theorem of_sameWait (hm : A.SameForeground k main main') (hw : wait.SameWait wait')
    (hresume : wait.resume = main.resume) (hresume' : wait'.resume = main'.resume) :
    A.SameForeground k wait wait' :=
  { hw with
    resume := by
      rw [hresume, hresume']
      exact hm.resume }

end SameForeground

namespace Tandem
variable {sch sch' : Scheduler} {main main' : Foreground α}

/-- The tasks of the schedulers, whatever the states are. -/
theorem tasks (h : A.Tandem k sch sch') (hp : A.Later k p) :
    sch.Paired (fun _ _ => True) (A.SameTask p) sch' := by
  have hall {ts ts' : List (Suspended Unit)} (hts : List.Forall₂ (A.SameTask k) ts ts') :
      List.Forall₂ (A.SameTask p) ts ts' :=
    hts.imp fun _ _ ht => { ht with resume := ht.resume.later hp }
  exact ⟨trivial, hall h.ready, hall h.parked, hall h.yielded⟩

theorem settle (h : A.Tandem k sch sch') (fuel : Nat) (hp : A.Later k p) :
    A.Tandem p (sch.settle fuel p.left).1 (sch'.settle fuel (A.right p)).1 ∧
      (sch'.settle fuel (A.right p)).2 = (sch.settle fuel p.left).2 :=
  (h.tasks hp).settle (fun ht => ht.on) fuel
    (fun task job => ⟨rfl, rfl, program_together fuel task job⟩) rfl
    (hp.valid.versioned (thins_elsewhere rfl rfl rfl))

/-- A task that has broken down lets go of all in both versions. -/
theorem unwind (h : A.Tandem k sch sch') (fuel : Nat) (task : TaskId) (hp : A.Later k p) :
    ∃ q, A.Later k q ∧ A.Tandem q (sch.settle fuel (p.left.unwind task 0)).1
        (sch'.settle fuel ((A.right p).unwind task 0)).1 ∧
      (sch'.settle fuel ((A.right p).unwind task 0)).2 =
        (sch.settle fuel (p.left.unwind task 0)).2 := by
  have hq := hp.trans (hp.valid.thins (thins_unwind p.left task 0))
  have hright : (A.right p).unwind task 0 =
      A.right { p with left := p.left.unwind task 0 } := unwind_swap p.left task 0
  rw [hright]
  exact ⟨_, hq, h.settle fuel hq⟩

/-- **A turn is taken in both versions.** -/
theorem turn (h : A.Tandem k sch sch') (fuel : Nat) {t t' : Suspended Unit} (ht : A.SameTask k t t') :
    A.Outcomes k (fun _ ns ns' => ns' = ns) (sch.turn fuel t) (sch'.turn fuel t') := by
  obtain ⟨p, hp, hl, hr⟩ := h.state
  have hcurrent : A.Later k { p with left := { p.left with current := t.task } } :=
    hp.trans (hp.valid.thins (thins_elsewhere rfl rfl rfl))
  have hxy := (ht.resume _ hcurrent).later hcurrent
  have hright : A.right { p with left := { p.left with current := t.task } } =
      { A.right p with current := t.task } := rfl
  unfold Scheduler.turn
  rw [ht.task, hl, hr]
  rw [hright] at hxy
  generalize t.resume { p.left with current := t.task } = x at hxy
  generalize t'.resume { A.right p with current := t.task } = y at hxy
  cases hxy with
  | done hq _ =>
    obtain ⟨hsettled, hns⟩ := h.settle fuel hq
    exact .ok hq hsettled hns
  | wait hq hresume =>
    obtain ⟨hsettled, hns⟩ := h.settle fuel hq
    exact .ok hq (hsettled.suspend (fun ht => ht.on) ⟨rfl, rfl, hresume⟩) hns
  | @stop _ q why hq =>
    cases why with
    | outOfFuel => exact .error _
    | breakDown message =>
      obtain ⟨r, hr, hsettled, hns⟩ := h.unwind fuel t.task hq
      exact .ok hr hsettled hns

/-- Those that gave way can run again, or time passes. -/
theorem idle (h : A.Tandem k sch sch') (hm : A.SameForeground k main main') (deadline : Nat) :
    A.Tandem k (sch.idle main deadline).1 (sch'.idle main' deadline).1 ∧
      A.SameForeground k (sch.idle main deadline).2 (sch'.idle main' deadline).2 := by
  have hclock {s s' : EngineState} (hs : A.Versioned k s s') : s.SameClock s' := by
    obtain ⟨p, -, rfl, rfl⟩ := hs
    exact ⟨rfl, rfl⟩
  have hnow {s s' : EngineState} (t : Nat) (hs : A.Versioned k s s') :
      A.Versioned k { s with now := t } { s' with now := t } := by
    obtain ⟨p, hp, rfl, rfl⟩ := hs
    exact ⟨{ p with left := { p.left with now := t } },
      hp.trans (hp.valid.thins (thins_elsewhere rfl rfl rfl)), rfl, rfl⟩
  obtain ⟨hidle, hw⟩ := Scheduler.Paired.idle (fun ht => ht.on) hm.toSameWait hclock hnow h deadline
  exact ⟨hidle, hm.of_sameWait hw (Scheduler.idle_resume _ _ _) (Scheduler.idle_resume _ _ _)⟩

/-- The states are versions of one state. -/
theorem later (h : A.Tandem k sch sch') : ∃ p, A.Later k p ∧ sch.state = p.left ∧
    sch'.state = A.right p := h.state

/-- Turns of tasks in the background, however many there are. -/
theorem batch (fuel deadline turns : Nat) (h : A.Tandem k sch sch')
    (hm : A.SameForeground k main main') (hk : A.Valid k) :
    A.Outcomes k (A.SameForeground ·) (sch.batch fuel deadline turns main)
      (sch'.batch fuel deadline turns main') := by
  induction turns generalizing k sch sch' main main' with
  | zero =>
    exact .ok hk.refl (h.wakeYielded main main')
      (hm.of_sameWait (hm.toSameWait.wake Wait.isTurn) rfl rfl)
  | succ turns ih =>
    have hready := h.ready
    cases hl : sch.ready with
    | nil =>
      rw [hl] at hready
      have hl' : sch'.ready = [] := List.forall₂_nil_left_iff.mp hready
      rw [Scheduler.batch, hl, Scheduler.batch, hl']
      obtain ⟨hidle, hwaits⟩ := h.idle hm deadline
      exact .ok hk.refl hidle hwaits
    | cons t rest =>
      rw [hl] at hready
      obtain ⟨t', rest', ht, hrest, hl'⟩ := List.forall₂_cons_left_iff.mp hready
      rw [Scheduler.batch_cons hl, Scheduler.batch_cons hl']
      have hothers : A.Tandem k { sch with ready := rest } { sch' with ready := rest' } :=
        { h with ready := hrest }
      have hturn := hothers.turn fuel ht
      generalize { sch with ready := rest }.turn fuel t = x at hturn
      generalize { sch' with ready := rest' }.turn fuel t' = y at hturn
      cases hturn with
      | error why => exact .error why
      | @ok q _ _ ns _ hq hsettled hns =>
        cases hns
        have hwaits : A.SameForeground q (main.settle ns) (main'.settle ns) :=
          (hm.later hq).of_sameWait (hm.toSameWait.wake fun on => ns.any on.endedBy) rfl rfl
        exact (ih hsettled hwaits hq.valid).later hq

/-- **A run has the same outcome in both versions.**  Whatever the scheduler does next, it does with tasks
that go together, so the induction is on its turns. -/
theorem drive {fuel deadline : Nat} (turns : Nat) (h : A.Tandem k sch sch')
    (hm : A.SameForeground k main main') (hk : A.Valid k) :
    ∃ q, A.Later k q ∧
      A.Tandem q (sch.drive fuel deadline turns main).1 (sch'.drive fuel deadline turns main').1 ∧
      (sch'.drive fuel deadline turns main').2 = (sch.drive fuel deadline turns main).2 := by
  induction turns generalizing k sch sch' main main' with
  | zero => exact ⟨k, hk.refl, h, rfl⟩
  | succ turns ih =>
    obtain ⟨p, hp, hl, hr⟩ := h.later
    by_cases hwoken : main.woken = true
    · rw [Scheduler.drive_woken hwoken, Scheduler.drive_woken (hm.woken.trans hwoken), hl, hr]
      have hcurrent : A.Later k { p with left := { p.left with current := 0 } } :=
        hp.trans (hp.valid.thins (thins_elsewhere rfl rfl rfl))
      have hxy := (hm.resume _ hcurrent).later hcurrent
      have hright : A.right { p with left := { p.left with current := 0 } } =
          { A.right p with current := 0 } := rfl
      rw [hright] at hxy
      generalize main.resume { p.left with current := 0 } = x at hxy
      generalize main'.resume { A.right p with current := 0 } = y at hxy
      cases hxy with
      | done hq _ => exact ⟨_, hq, (h.settle fuel hq).1, rfl⟩
      | stop hq =>
        obtain ⟨r, hr, hsettled, -⟩ := h.unwind fuel 0 hq
        exact ⟨r, hr, hsettled, rfl⟩
      | @wait _ q on resume resume' hq hresume =>
        have hwaits : A.SameForeground q { on, resume } { on, resume := resume' } :=
          ⟨⟨rfl, rfl⟩, hresume⟩
        obtain ⟨r, hr, hend⟩ := ih (h.settle fuel hq).1 hwaits hq.valid
        exact ⟨r, hq.trans hr, hend⟩
    · unfold Scheduler.drive
      have hnow : sch'.state.now = sch.state.now := by
        rw [hl, hr]
        rfl
      rw [hm.woken, hnow, if_neg hwoken, if_neg hwoken]
      split
      · have hright : (A.right p).unwind 0 0 = A.right { p with left := p.left.unwind 0 0 } :=
          unwind_swap p.left 0 0
        have hq := hp.trans (hp.valid.thins (thins_unwind p.left 0 0))
        rw [hl, hr, hright]
        exact ⟨_, hq, (h.tasks hq).withState ⟨_, hq.valid.refl, rfl, rfl⟩, rfl⟩
      · have hbatch := h.batch fuel deadline Scheduler.batchSize hm hk
        generalize sch.batch fuel deadline Scheduler.batchSize main = x at hbatch
        generalize sch'.batch fuel deadline Scheduler.batchSize main' = y at hbatch
        cases hbatch with
        | error why => exact ⟨k, hk.refl, h, rfl⟩
        | ok hq hsettled hwaits =>
          obtain ⟨r, hr, hend⟩ := ih hsettled hwaits hq.valid
          exact ⟨r, hq.trans hr, hend⟩

/-- **Requests of the host have the same outcome in both versions.** -/
theorem run (h : A.Tandem k sch sch') (hk : A.Valid k) (fuel : Nat) {m m' : Task α}
    (hm : A.ResumeTogether k m m') :
    ∃ q, A.Later k q ∧ A.Tandem q (sch.run fuel m).1 (sch'.run fuel m').1 ∧
      (sch'.run fuel m').2 = (sch.run fuel m).2 := by
  obtain ⟨p, -, hl, hr⟩ := h.later
  have hnow : sch'.state.now = sch.state.now := by
    rw [hl, hr]
    rfl
  unfold Scheduler.run
  rw [hnow]
  exact h.drive fuel ⟨⟨rfl, rfl⟩, hm⟩ hk

end Tandem

end AllowList
end ScriptEngine

namespace ScriptEngine

/-! ## The names that are exposed -/

/-- The module that the node is. -/
def TreeNode.moduleName? : TreeNode → Option String
  | .stmt (.module name _) => some name
  | _ => none

/-- The names of the modules in a script. -/
def Block.moduleNames (script : Block) : List String := script.nodes.filterMap TreeNode.moduleName?

/-- The names at the node that may be looked for before the script has bound them, and the members that
may be looked for in a module of the script. -/
def TreeNode.lateNames (modules : List String) : TreeNode → List String
  | .stmt (.func definition) => [definition.displayName]
  | .stmt (.module name _) => [name]
  | .stmt (.forClause _ _ (some post) _) => post.kind.bound
  | .expr (.member (.mk (.ident m) _) n) => if m ∈ modules then [n] else []
  | _ => []

/-- **The names that a script may look for in its root scope**: the free names, and those that may be
looked for before they are bound. -/
def Block.exposedNames (script : Block) : List String :=
  script.freeNames ++ script.nodes.flatMap (TreeNode.lateNames script.moduleNames)

/-- What a script may touch of its root scope, if these names are allowed. -/
def Block.allowList (script : Block) (root : ScopeId) (allows : String → Prop) : AllowList where
  root
  allows
  modules n := n ∈ script.moduleNames

/-- A script follows the rules if its exposed names are allowed. -/
theorem Block.in_covers {script : Block} {root : ScopeId} {allows : String → Prop}
    (hallows : ∀ n ∈ script.exposedNames, allows n) :
    script.In (script.allowList root allows).covers := by
  intro node hnode
  have hlate : ∀ n ∈ node.lateNames script.moduleNames, allows n := fun n hn =>
    hallows n (List.mem_append_right _ (List.mem_flatMap.mpr ⟨node, hnode, hn⟩))
  unfold AllowList.covers
  split
  · exact hlate _ (List.mem_singleton_self _)
  · exact ⟨hlate _ (List.mem_singleton_self _), List.mem_filterMap.mpr ⟨_, hnode, rfl⟩⟩
  · exact hlate
  · rename_i m pos n
    intro hm
    have hmodule : m ∈ script.moduleNames := hm
    refine hlate n ?_
    rw [TreeNode.lateNames, if_pos hmodule]
    exact List.mem_singleton_self n
  · trivial

/-! ## A host that has not run anything -/

namespace AllowList
variable {A : AllowList} {p : Versions}

/-- **The versions are those of a host that has not run anything yet**: all functions are its own, and
its packages are not inside the root scope. -/
structure Fresh (A : AllowList) (p : Versions) : Prop extends A.Alike p where
  nested : p.left.heap.Nested
  outermost : (p.left.heap.scope A.root).parent = none
  packagesOutside : ∀ {id c}, p.cell? id = some c →
    ∀ e ∈ c.packages.entries, e.2 < p.next ∧ A.root ∉ p.left.heap.chain e.2
  functionsOwn : ∀ id, (p.left.heap.func id).closure? = none

/-- All is settled where the root scope is not on the way out.  The induction is on the way out. -/
theorem settled_of_chain (hn : p.left.heap.Nested) {id : ScopeId} (hroot : A.root ∉ p.left.heap.chain id)
    (n : String) : A.Settled p n id := by
  induction id using Nat.strongRecOn with
  | ind id ih =>
    cases hc : p.cell? id with
    | none => exact .gone hc
    | some c =>
      have hscope := Heap.scope_eq_of_get? hc
      cases hparent : c.parent with
      | none =>
        rw [Heap.chain_of_root (by rw [hscope, hparent]), List.mem_singleton] at hroot
        exact .outermost (Ne.symm hroot) hc hparent
      | some parent =>
        have hout : (p.left.heap.scope id).parent = some parent := by rw [hscope, hparent]
        rw [Heap.chain_of_parent hn hout, List.mem_cons, not_or] at hroot
        exact .around (Ne.symm hroot.1) hc hparent (ih parent (hn hout) hroot.2)

theorem Fresh.valid (hp : A.Fresh p) : A.Valid p where
  toAlike := hp.toAlike
  nested := hp.nested
  outermost := hp.outermost
  packagesKnown hc e he := by
    obtain ⟨hlt, hroot⟩ := hp.packagesOutside hc e he
    exact ⟨hlt, .inr (settled_of_chain hp.nested hroot)⟩
  closuresKnown {id definition scope selfBound} hf := by
    rw [hp.functionsOwn id] at hf
    cases hf

/-- Nothing is under way. -/
theorem Valid.tandem (hp : A.Valid p) :
    A.Tandem p (Scheduler.alone p.left) (Scheduler.alone (A.right p)) :=
  ⟨⟨p, hp.refl, rfl, rfl⟩, .nil, .nil, .nil⟩

/-! ## Runs -/

/-- The root scope is ready for a script. -/
theorem Valid.ready_root (hp : A.Valid p) {script : Block} (hscript : script.In A.covers) :
    A.Ready p A.root (FreeNames.State.opened ⟨[], []⟩ [] script) := by
  have hnothing : A.Ready p A.root ⟨[], []⟩ := ⟨hp.root_lt, fun hn => by cases hn⟩
  exact hnothing.opened hscript (List.forall_mem_nil _)

/-- **A script that follows the rules is run in tandem**, whatever other tasks are under way. -/
theorem Tandem.script {sch sch' : Scheduler} (h : A.Tandem p sch sch') (hp : A.Valid p)
    {script : Block} (hfree : ∀ n ∈ script.freeNames, A.allows n) (hscript : script.In A.covers)
    {e : Engine} (hscope : e.scope = A.root) (fuel : Nat) (run : RunId) :
    ∃ q, A.Later p q ∧ A.Tandem q (sch.run fuel (e.execute fuel run script)).1
        (sch'.run fuel (e.execute fuel run script)).1 ∧
      (sch'.run fuel (e.execute fuel run script)).2 =
        (sch.run fuel (e.execute fuel run script)).2 := by
  have hfound : A.Finds
      (FreeNames.stmts script (FreeNames.State.opened ⟨[], []⟩ [] script)) :=
    fun n hn => hfree n (Block.mem_freeNames.mpr hn)
  have hready := hp.ready_root hscript
  exact h.run hp fuel (execute_together hscript (hscope ▸ hready) hfound fuel run)

end AllowList

/-- **What is hidden from a script does not matter.**  A host has two root scopes that bind the same
names: those that the script exposes to the same values, and the others to values that the host holds
otherwise.  Then the script has the same outcome in both, however long it runs and whatever tasks it
starts, and it leaves two states that differ in hidden names again and in nothing else. -/
theorem hidden_names_do_not_matter {script : Block} {root : ScopeId} {allows : String → Prop}
    (hallows : ∀ n ∈ script.exposedNames, allows n) {p : Versions}
    (hp : (script.allowList root allows).Fresh p) {e : Engine} (hscope : e.scope = root) (fuel : Nat)
    (run : RunId) :
    let A := script.allowList root allows
    let r := (Scheduler.alone p.left).run fuel (e.execute fuel run script)
    let r' := (Scheduler.alone (A.right p)).run fuel (e.execute fuel run script)
    r'.2 = r.2 ∧ ∃ q, A.Alike q ∧ r.1.state = q.left ∧ r'.1.state = A.right q := by
  intro A r r'
  obtain ⟨q, -, hend, hfinish⟩ := hp.valid.tandem.script hp.valid
    (fun n hn => hallows n (List.mem_append_left _ hn)) (Block.in_covers hallows) hscope fuel run
  obtain ⟨q', hq', hl, hr⟩ := hend.state
  exact ⟨hfinish, q', hq'.valid.toAlike, hl, hr⟩

/-! ## Two hosts -/

/-- A host that has bound two names in its root scope. -/
def hostBinding (x y : Int64) : EngineState :=
  { EngineState.initial with
    heap := { scopes := Store.push {} { vars := ⟨[("x", .int x), ("y", .int y)]⟩ } }
    governors := Store.push {} { limit := 0 }
    signals := Store.push {} {}
    runs := Store.push {} { signal := 0, limiter := ⟨0, 0, 0, 0⟩, maxElements := 0 }
    pinned := [0] }

def hostEngine : Engine := { config := {}, governor := 0, scope := 0, ownsScope := true }

/-- How the host's request for a script to be run ends. -/
def endOf (host : EngineState) (script : Block) : Scheduler.Finish (Engine.Result Value) :=
  ((Scheduler.alone host).run 40 (hostEngine.execute 40 0 script)).2

/-- The result, if there is one. -/
def resultOf : Scheduler.Finish (Engine.Result Value) → Option Value
  | .done (.ok v) => some v
  | _ => none

/-- `func f(n) { return n + x } return f(1)`. -/
def callingScript : Block :=
  [.func "f" ["n"] [.ret (.binary .add (.ident "n") (.ident "x"))], .ret (.call (.ident "f") [.int 1])]

/-- The host has another value to hide. -/
def hostVersions : Versions := ⟨hostBinding 7 1, ⟨[("x", .int 7), ("y", .int 2)]⟩, {}⟩

theorem fresh_hostVersions {allows : String → Prop} (hy : ¬ allows "y") (script : Block) :
    (script.allowList 0 allows).Fresh hostVersions := by
  have hcell {id : ScopeId} {c : Scope} (hc : hostVersions.cell? id = some c) :
      c = { vars := ⟨[("x", .int 7), ("y", .int 1)]⟩ } := by
    have hget := (Store.get?_push_eq ({} : Store Scope) _ id).symm.trans hc
    split at hget <;> cases hget
    rfl
  have hparent (id : ScopeId) : (hostVersions.left.heap.scope id).parent = none := by
    cases hc : hostVersions.cell? id with
    | none => rw [Heap.scope_eq_of_none hc]
    | some c => rw [Heap.scope_eq_of_get? hc, hcell hc]
  refine ⟨⟨Nat.zero_lt_one, fun hc => ?_, fun hc => ?_⟩, fun id around h => ?_, hparent 0,
    fun hc e he => ?_, fun _ => rfl⟩
  · rw [hcell hc]
    exact .cons ⟨rfl, .inl rfl⟩ (.cons ⟨rfl, .inr ⟨hy, List.forall_mem_nil _⟩⟩ .nil)
  · rw [hcell hc]
    exact .nil
  · rw [hparent id] at h
    cases h
  · rw [hcell hc] at he
    cases he

/-- A script that uses `x` and a function of its own does not see what `y` is. -/
theorem hidden_names_do_not_matter_other :
    resultOf (endOf (hostBinding 7 1) callingScript) = some (.int 8) ∧
      endOf (hostBinding 7 2) callingScript = endOf (hostBinding 7 1) callingScript := by
  have hexposed : ∀ n ∈ callingScript.exposedNames, n ≠ "y" := by
    intro n hn
    obtain hn | hn := List.mem_append.mp hn
    · have hfree : ∀ n ∈ (FreeNames.State.within ⟨[], []⟩ [] callingScript
          (FreeNames.stmts callingScript)).found, n ≠ "y" := by decide
      exact hfree n (Block.mem_freeNames.mp hn)
    · have hlate : ∀ n ∈ callingScript.nodes.flatMap
          (TreeNode.lateNames callingScript.moduleNames), n ≠ "y" := by decide
      exact hlate n hn
  refine ⟨by decide +kernel, ?_⟩
  exact (hidden_names_do_not_matter hexposed (fresh_hostVersions (fun h => h rfl) _)
    (e := hostEngine) rfl 40 0).1

/-- `for ; ; y = 1 { return y }`. -/
def lateScript : Block := [.forClause none none (some (.assignTo "y" (.int 1))) [.ret (.ident "y")]]

/-- **The free names are not enough.**  The walk takes the name for bound, since the last clause assigns to
it, but in the first round nothing has.  So the script reads what the host has bound, and it does not end
in the same way in two root scopes that bind all its free names to the same. -/
theorem late_name_is_not_free :
    lateScript.freeNames = [] ∧ resultOf (endOf (hostBinding 7 1) lateScript) = some (.int 1) ∧
      resultOf (endOf (hostBinding 7 2) lateScript) = some (.int 2) := by
  refine ⟨List.eq_nil_iff_forall_not_mem.mpr fun n hn => ?_, by decide +kernel, by decide +kernel⟩
  exact List.not_mem_nil (Block.mem_freeNames.mp hn)

end ScriptEngine
