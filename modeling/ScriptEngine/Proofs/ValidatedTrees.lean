import ScriptEngine.Proofs.ScopeIsolation
import ScriptEngine.Proofs.Validation.Acceptance

/-! # What is validated fits

Some things that evaluation cannot go on with are written in a script: something is assigned to that is
no place, something is deferred that is no call, a variadic function has no parameter for the rest, or a
name is no identifier.  Evaluation puts on record whenever it comes upon one (`EngineState.misfits`), and
it comes upon only what is written in the code that it goes through.

So let a scheduler run a script in a scope from which only functions can be got at that are written in
certain trees, and let other tasks keep to that.  Then that is still so when functions have been made and
tasks have been started (`habits_fitting`), and what comes on record has been written in the trees.  If all
trees have passed the checks that leaves the names of members that are assigned to, which the checks do
not look at (`validated_trees_fit`).  When the member of a package is assigned to, such a name is bound.
-/
namespace ScriptEngine

/-! ## Code -/

/-- The node is written in one of the trees. -/
def Within (trees : Block → Prop) : Fragment := fun n => ∃ tree, trees tree ∧ n ∈ tree.nodes

theorem Block.in_within {trees : Block → Prop} {tree : Block} (htree : trees tree) :
    Block.In (Within trees) tree :=
  fun _ hn => ⟨tree, htree, hn⟩

theorem Function.in_iff {code : Fragment} {f : Function} :
    f.In code ↔ ∀ definition, f.definition? = some definition → definition.In code := by
  cases f with
  | script definition scope selfBound =>
    refine ⟨fun hin _ hd => ?_, fun hin => hin definition rfl⟩
    cases hd
    exact hin
  | host f => exact ⟨fun _ _ hd => (Option.some_ne_none _ hd.symm).elim, fun _ => trivial⟩

/-- All that can be got at from the scope, and what is not there yet. -/
def Heap.Around (h : Heap) (scope : ScopeId) : Zone :=
  fun o => h.Unused o ∨ h.Reaches (.scope scope) o

theorem Heap.encloses_around (h : Heap) (scope : ScopeId) : h.Encloses (h.Around scope) where
  unused _ ho := .inl ho
  closed o c ho hc o' ho' := by
    obtain hunused | hreaches := ho
    · rw [hunused.cell?_eq_none] at hc
      cases hc
    · exact .inr (hreaches.tail (Heap.refers_iff.mpr ⟨c, hc, ho'⟩))

namespace EngineState
variable {s s' s'' : EngineState}

/-- The functions of scripts in the second state are those of the first one, and nothing that does not
fit has been come upon. -/
structure AddsNoCode (s s' : EngineState) : Prop where
  functions : ∀ {id definition}, (s'.heap.func id).definition? = some definition →
    (s.heap.func id).definition? = some definition
  misfits : s'.misfits = s.misfits

namespace AddsNoCode

theorem of_eq (hfuncs : s'.heap.funcs = s.heap.funcs) (hmisfits : s'.misfits = s.misfits) :
    s.AddsNoCode s' where
  functions hd := by rwa [Heap.func, hfuncs, ← Heap.func] at hd
  misfits := hmisfits

theorem trans (ha : s.AddsNoCode s') (ha' : s'.AddsNoCode s'') : s.AddsNoCode s'' where
  functions hd := ha.functions (ha'.functions hd)
  misfits := ha'.misfits.trans ha.misfits

/-- What is taken out is no longer there. -/
theorem of_prunes (hp : s.Prunes s') (hmisfits : s'.misfits = s.misfits) : s.AddsNoCode s' where
  functions {id definition} hd := by
    have hcell : ∀ f, s'.heap.funcs.get? id = some f → s.heap.funcs.get? id = some f := fun f hf => by
      have hkept := hp.cell_of (o := .func id) (congrArg (Option.map Cell.func) hf)
      obtain ⟨g, hg, hsame⟩ := Option.map_eq_some_iff.mp hkept
      cases hsame
      exact hg
    rw [Heap.func] at hd
    cases hf : s'.heap.funcs.get? id with
    | none =>
      rw [hf] at hd
      cases hd
    | some f =>
      rw [hf] at hd
      rw [Heap.func, hcell f hf]
      exact hd
  misfits := hmisfits

theorem eraseScope (s : EngineState) (id : ScopeId) : s.AddsNoCode (s.eraseScope id) := by
  unfold EngineState.eraseScope
  split
  · exact of_eq rfl rfl
  · split <;> exact of_eq rfl rfl

theorem sweep (s : EngineState) : s.AddsNoCode s.sweep.1 := by
  have hpruned : s.AddsNoCode s.pruned := of_prunes (prunes_pruned s) rfl
  rw [sweep_eq]
  refine hpruned.trans ?_
  generalize s.heap.scopes.unmarked s.marks.scopes = ids
  generalize s.pruned = t
  induction ids generalizing t with
  | nil => exact of_eq rfl rfl
  | cons id rest ih => exact (eraseScope t id).trans (ih _)

theorem collect (s : EngineState) : s.AddsNoCode s.collect :=
  collect_induction (fun t ht => ht.trans (sweep t)) (of_eq rfl rfl)

theorem capture (s : EngineState) (scope : ScopeId) : s.AddsNoCode (s.capture scope) := by
  unfold EngineState.capture
  generalize (s.heap.chain scope).takeWhile (fun id => !(s.heap.scope id).captured) = around
  induction around generalizing s with
  | nil => exact of_eq rfl rfl
  | cons id rest ih =>
    refine trans (of_eq ?_ ?_) (ih _)
    · rfl
    · rfl

theorem addChild (s : EngineState) (parent : ScopeId) : s.AddsNoCode (s.addChild parent).2 := by
  have htidied : s.AddsNoCode (s.tidied (s.heap.scope parent).governor) := by
    unfold tidied
    split
    · exact collect s
    · exact of_eq rfl rfl
  rw [addChild_eq rfl rfl]
  split
  · exact htidied
  · exact htidied.trans (of_eq rfl rfl)

theorem giveBack (s : EngineState) (x : Holding) : s.AddsNoCode (s.giveBack x) := by
  cases x with
  | block id =>
    simp only [EngineState.giveBack]
    split
    · exact of_eq rfl rfl
    · exact eraseScope s id
  | _ => exact of_eq rfl rfl

theorem letGoOf (s : EngineState) (task : TaskId) : s.AddsNoCode (s.letGoOf task) := by
  unfold EngineState.letGoOf
  split
  · rename_i x rest _
    have hrest : s.AddsNoCode { s with held := s.held.set task rest } := of_eq rfl rfl
    exact hrest.trans (giveBack _ x)
  · exact of_eq rfl rfl

theorem ofFabric {h : Heap} (hfabric : h.fabric = s.heap.fabric) :
    s.AddsNoCode { s with heap := h } where
  functions hd := by rwa [Heap.definition?_of_fabric hfabric] at hd
  misfits := rfl

theorem define {scope : ScopeId} {name : String} {v : Value} {h : Heap}
    (hd : s.heap.define scope name v = .ok h) : s.AddsNoCode { s with heap := h } := by
  rw [Heap.define_eq] at hd
  split at hd <;> cases hd
  exact of_eq rfl rfl

theorem assign {scope : ScopeId} {name : String} {v : Value} {h : Heap}
    (ha : s.heap.assign scope name v = .ok h) : s.AddsNoCode { s with heap := h } := by
  unfold Heap.assign at ha
  split at ha
  · cases ha
    exact of_eq rfl rfl
  · exact define ha

theorem definePackage {scope package : ScopeId} {name : String} {h : Heap}
    (hd : s.heap.definePackage scope name package = .ok h) : s.AddsNoCode { s with heap := h } := by
  rw [Heap.definePackage_eq] at hd
  split at hd <;> cases hd
  exact of_eq rfl rfl

end AddsNoCode

end EngineState

/-! ## Evaluation keeps to the trees -/

/-- **Evaluation keeps to the trees** from the first state to the second: scripts can get only at what
could be got at from the scope and at what has been made since, all functions among that are written in
the trees, and whatever has come on record since is written there too. -/
structure Fitting (trees : Block → Prop) (h₀ : Heap) (scope : ScopeId) (k s : EngineState) : Prop where
  confined : Confined (h₀.Around scope) h₀ scope s
  functions : ∀ {id definition}, h₀.Around scope (.func id) →
    (s.heap.func id).definition? = some definition → definition.In (Within trees)
  misfits : ∀ m ∈ s.misfits, m ∈ k.misfits ∨ (Within trees).Allows m

section
variable {trees : Block → Prop} {h₀ : Heap} {scope : ScopeId} {k s s' : EngineState}

namespace Fitting

/-- A change that brings no code with it. -/
theorem step (hs : Fitting trees h₀ scope k s) (hc : Confined (h₀.Around scope) h₀ scope s')
    (ha : s.AddsNoCode s') : Fitting trees h₀ scope k s' where
  confined := hc
  functions hid hd := hs.functions hid (ha.functions hd)
  misfits := ha.misfits ▸ hs.misfits

/-- Evaluation comes upon something that is written in the trees. -/
theorem complain (hs : Fitting trees h₀ scope k s) {m : Misfit} (hm : (Within trees).Allows m) :
    Fitting trees h₀ scope k (s.complain m) where
  confined := hs.confined.same rfl rfl rfl rfl fun _ _ => id
  functions := hs.functions
  misfits := List.forall_mem_cons.mpr ⟨.inr hm, hs.misfits⟩

/-- A function is made that is written in the trees. -/
theorem newFunc (hs : Fitting trees h₀ scope k s) {definition : FuncDef} {around : ScopeId}
    {selfBound : Bool} (haround : h₀.Around scope (.scope around))
    (hdefinition : definition.In (Within trees)) :
    Fitting trees h₀ scope k
      { s with heap := (s.heap.addFunc (.script definition around selfBound)).2 } where
  confined := hs.confined.heap
    (hs.confined.encloses.addFunc (f := .script definition around selfBound)
      (List.forall_mem_singleton.mpr haround)).1
  functions {id other} hid hd := by
    have hfunc : Heap.func (s.heap.addFunc (.script definition around selfBound)).2 id =
        if id = s.heap.funcs.next then .script definition around selfBound else s.heap.func id := by
      show ((s.heap.funcs.push _).get? id).getD default = _
      rw [Store.get?_push_eq]
      split <;> rfl
    rw [hfunc] at hd
    split at hd
    · cases hd
      exact hdefinition
    · exact hs.functions hid hd
  misfits := hs.misfits

end Fitting

/-- **Evaluation of the trees keeps to the trees.** -/
theorem habits_fitting (trees : Block → Prop) (h₀ : Heap) (scope : ScopeId) :
    Habits (h₀.Around scope) (fun id => h₀.Around scope (.scope id)) (Fitting trees h₀ scope)
      (fun id _ => h₀.Around scope (.scope id)) (fun _ => True) (fun _ => True) (Within trees) :=
  have hC : Habits (h₀.Around scope) (fun id => h₀.Around scope (.scope id))
      (fun _ s => Confined (h₀.Around scope) h₀ scope s) fun id _ => h₀.Around scope (.scope id) :=
    (customs_confined (h₀.encloses_around scope)).habits
  { trans := fun hs hs' =>
      { hs' with misfits := fun m hm => (hs'.misfits m hm).elim (hs.misfits m) .inr }
    stays := fun hs => { hs with misfits := fun _ hm => .inl hm }
    zone_of_writable := id
    frames_of_bodies := id
    encloses := fun hs => hs.confined.encloses
    deferred := fun hs => hs.confined.deferred
    started := fun hs => hs.confined.started
    callees := fun hs _ hid => Function.in_iff.mpr fun _ hd => hs.functions hid hd
    elsewhere := fun hs ha =>
      hs.step (hC.elsewhere (k := .initial) hs.confined ha) (.of_eq (by rw [ha.heap]) ha.misfits)
    complain := fun hs hm => hs.complain hm
    heap := fun hs hstays hfabric => hs.step (hs.confined.heap hstays) (.ofFabric hfabric)
    newFunc := fun hs haround hdefinition => hs.newFunc haround hdefinition
    register := fun hs hchan => hs.step (hC.register (k := .initial) hs.confined hchan) (.of_eq rfl rfl)
    define := fun hs hscope hv hd => hs.step (hC.define (k := .initial) hs.confined hscope hv hd) (.define hd)
    assign := fun hs hscope hv ha => hs.step (hC.assign (k := .initial) hs.confined hscope hv ha) (.assign ha)
    revise := fun hs hscope hold hv ha =>
      hs.step (hC.revise (k := .initial) hs.confined hscope hold hv ha) (.assign ha)
    packageNamed := fun hs hscope hp => hC.packageNamed (k := .initial) hs.confined hscope hp
    definePackage := fun hs hscope hpackage _ hd =>
      hs.step (hs.confined.heap (Heap.stays_definePackage hs.confined.encloses hscope hpackage hd))
        (.definePackage hd)
    newFrame := fun hs =>
      ⟨trivial, hs.step (hC.newFrame (k := .initial) hs.confined).2 (.of_eq rfl rfl)⟩
    defer := fun hs hframe hcall => hs.step (hC.defer (k := .initial) hs.confined hframe hcall) (.of_eq rfl rfl)
    dropDeferred := fun hs hframe => hs.step (hC.dropDeferred (k := .initial) hs.confined hframe) (.of_eq rfl rfl)
    start := fun hs hjob _ => hs.step (hs.confined.start hjob) (.of_eq rfl rfl)
    capture := fun hs hscope _ => hs.step (hs.confined.capture hscope) (.capture _ _)
    hold := fun hs hx => hs.step (hs.confined.hold hx.is_in) (.of_eq rfl rfl)
    letGo := fun task hs => hs.step (hs.confined.letGoOf task) (.letGoOf _ _)
    turn := fun task hs => hs.step (hC.turn (k := .initial) task hs.confined) (.of_eq rfl rfl)
    opened := fun hs hparent =>
      have hopened := hs.confined.addChild (h₀.encloses_around scope) hparent
      ⟨hs.step hopened.1 (.addChild _ _), hopened.2⟩
    entered := fun hs hscope => hs.step (hs.confined.hold hscope) (.of_eq rfl rfl)
    enterable_letGo := fun _ _ hscope => hscope
    writable_of_enterable := fun _ hscope => hscope }

/-! ## Runs of validated trees -/

/-- A scheduler at rest keeps to the trees if the host holds the scope, and all functions of scripts that
can be got at from the scope are written in the trees. -/
theorem Scheduler.AtRest.fitting {sch : Scheduler} (hrest : sch.AtRest)
    (hheld : scope ∈ sch.state.pinned)
    (hfunctions : ∀ id definition, sch.state.heap.Reaches (.scope scope) (.func id) →
      (sch.state.heap.func id).definition? = some definition → definition.In (Within trees)) :
    sch.Safe id (Fitting trees sch.state.heap scope) := by
  have hconfined := hrest.confined (sch.state.heap.encloses_around scope) hheld
  have hvalid : Fitting trees sch.state.heap scope sch.state sch.state := by
    refine ⟨hconfined, fun {f definition} hf hd => ?_, fun _ hm => .inl hm⟩
    obtain hunused | hreaches := hf
    · rw [Heap.func, Store.get?_eq_none hunused] at hd
      cases hd
    · exact hfunctions f definition hreaches hd
  exact hrest.safe hvalid

/-- **Validated trees do not fail structurally.**  A script is run that has passed the checks, in a scope
from which only functions can be got at that are written in trees which have passed them, and so do other
tasks, which take turns with it in any order.  Whatever evaluation comes upon that does not fit, in any of
the tasks and however the run ends, is the name of a member that is assigned to somewhere in the trees, and
is no identifier. -/
theorem validated_trees_fit {script : Block} {e : Engine} {sch : Scheduler}
    (htrees : ∀ tree, trees tree → tree.validate = .ok ()) (hscript : trees script)
    (hothers : sch.Safe id (Fitting trees sch.state.heap e.scope)) {run : RunId} {fuel : Nat}
    {sch' : Scheduler} (hleaves : sch.MayLeave (e.execute fuel run script) sch')
    {m : Misfit} (hm : m ∈ sch'.state.misfits) :
    m ∈ sch.state.misfits ∨ ∃ tree name, trees tree ∧ name ∈ tree.memberTargets ∧
      isIdentifier name = false ∧ m = .name name := by
  have hH := habits_fitting trees sch.state.heap e.scope
  have hlead := hothers.leaves hH.discipline
    (hH.safe_execute fuel (.inr .refl) run (Block.in_within hscript) sch.state) hleaves
  obtain hbefore | ⟨n, ⟨tree, htree, hn⟩, hflaw⟩ := hlead.develops.misfits m hm
  · exact .inl hbefore
  · obtain ⟨name, hname, hbad, rfl⟩ := Block.misfits_of_accepted (htrees tree htree) n hn m hflaw
    exact .inr ⟨tree, name, htree, hname, hbad, rfl⟩

end

/-! ## A member of a package -/

/-- `p.1x = 1`. -/
def misnaming : Block := [.assign (.member (.ident "p") "1x") (.int 1)]

/-- `func misname() { p.1x = 1 }`. -/
def misnamingLater : Block := [.func "misname" [] misnaming]

/-- `misname()`. -/
def misnamingNow : Block := [.expr (.call (.ident "misname") [])]

/-- The host holds a scope with a package and a function that was made there. -/
def packaged : Scheduler :=
  let misname : Function := .script (.mk (some "misname") [] false misnaming) 0 false
  let host : Scope := { vars := ⟨[("misname", .func 0)]⟩, packages := ⟨[("p", 1)]⟩ }
  { state := { EngineState.initial with
      heap := { funcs := Store.push {} misname, scopes := (Store.push {} host).push {} }
      governors := Store.push {} { limit := 0 }
      pinned := [0] } }

/-- An engine over that scope. -/
def packagedEngine : Engine := { config := {}, governor := 0, scope := 0, ownsScope := false }

/-- The assignment passes the checks, but the name of the member is not one that can be bound. -/
theorem member_name_passes :
    misnaming.validate = .ok () ∧ ∃ e : EvalError,
      (packaged.run 40 (packagedEngine.execute 40 0 misnaming)).2 = .done (.error (.eval e)) ∧
        e.fault = .invalidOperation (Misfit.name "1x").message :=
  ⟨rfl, _, rfl, rfl⟩

theorem packaged_atRest : packaged.AtRest where
  ready := rfl
  parked := rfl
  yielded := rfl
  held task xs hxs := by
    obtain rfl | hnone := Store.get?_push hxs
    · rfl
    · cases hnone
  deferred _ _ hcalls := by cases hcalls
  started _ _ hj := by cases Array.mem_toList_iff.mpr hj

/-- A script that calls the function comes upon the name, which is that of a member in the tree that the
function is written in. -/
theorem validated_trees_fit_member :
    Misfit.name "1x" ∈ (packaged.run 40 (packagedEngine.execute 40 0 misnamingNow)).1.state.misfits ∧
      ∃ tree name, tree ∈ [misnamingLater, misnamingNow] ∧ name ∈ tree.memberTargets ∧
        isIdentifier name = false ∧ Misfit.name "1x" = .name name := by
  have hcome : Misfit.name "1x" ∈
      (packaged.run 40 (packagedEngine.execute 40 0 misnamingNow)).1.state.misfits := by
    decide +kernel
  have htrees : ∀ tree, tree ∈ [misnamingLater, misnamingNow] → tree.validate = .ok () := by
    decide +kernel
  have hothers : packaged.Safe id
      (Fitting (· ∈ [misnamingLater, misnamingNow]) packaged.state.heap packagedEngine.scope) := by
    refine packaged_atRest.fitting (List.mem_singleton_self 0) fun id definition _ hd n hn => ?_
    refine ⟨misnamingLater, List.mem_cons_self, ?_⟩
    cases hf : packaged.state.heap.funcs.get? id with
    | none =>
      rw [Heap.func, hf] at hd
      cases hd
    | some f =>
      rw [Heap.func, hf] at hd
      obtain rfl | hnone := Store.get?_push hf
      · cases hd
        exact List.mem_append_left _ (List.mem_cons_of_mem _ hn)
      · cases hnone
  have hfits := validated_trees_fit htrees (List.mem_cons_of_mem _ List.mem_cons_self) hothers
    (packaged.mayLeave_run 40 _) hcome
  exact ⟨hcome, hfits.resolve_left List.not_mem_nil⟩

end ScriptEngine
