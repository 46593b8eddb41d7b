import ScriptEngine.Proofs.EngineState.Collecting
import ScriptEngine.Proofs.Evaluator.Scripts
import ScriptEngine.Tree.Builder

/-! # Blocks keep their names to themselves

Assigning to a name that is bound nowhere binds it in the scope at hand.  So a statement leaves the
names of a scope alone only if whatever it consists of runs in scopes that have been opened for it:
bodies, iterations, cases and handlers, and calls of functions too.

**A scope keeps its names** (`KeepsNames`) if it binds afterwards what it bound before.  That is a
habit of evaluation as long as names are bound in other scopes only (`habits_keepsNames`): a name of
the scope may still get another value, but only where it is bound already.  The other scopes are those
that evaluation opens itself and those that are held as packages.  Blocks, choices, loops and handlers
can be evaluated in any scope on that condition (`Evaluator.Obedient.opening`), so no such statement
adds to the names of the scope that it stands in (`blocks_keep_names`).
-/
namespace ScriptEngine

/-- The statement runs what it consists of in scopes that it opens.  A loop with clauses does so if
the first clause declares variables. -/
def StmtKind.opensScopes : StmtKind → Bool
  | .block _ | .ifElse _ _ _ | .switch _ _ _ | .select _ _ | .loop _ _ | .forIn _ _ _
  | .tryCatch _ _ _ _ => true
  | .forClause init _ _ _ => Evaluator.declares init
  | _ => false

/-! ## Names in bindings -/

/-- A name that is bound already is not added. -/
theorem Bindings.names_insert {α : Type} {b : Bindings α} {name : String}
    (hname : b.contains name = true) (a : α) : (b.insert name a).names = b.names := by
  have hkeys (entries : List (String × α)) (hfound : (findEntry name entries).isSome = true) :
      (insertEntry name a entries).map (·.1) = entries.map (·.1) := by
    induction entries with
    | nil => cases hfound
    | cons entry rest ih =>
      obtain ⟨n, b⟩ := entry
      simp only [findEntry, insertEntry] at hfound ⊢
      split at hfound
      · rw [if_pos ‹_›, List.map_cons, List.map_cons]
      · rw [if_neg ‹_›, List.map_cons, List.map_cons, ih hfound]
  exact congrArg (List.mergeSort · _) (hkeys b.entries hname)

/-! ## Scopes that keep their names -/

/-- No scope holds this one as a package. -/
def Heap.Unregistered (h : Heap) (S : ScopeId) : Prop :=
  ∀ id c, h.scopes.get? id = some c → S ∉ c.packages.values

/-- So no name stands for it. -/
theorem Heap.Unregistered.packageNamed? {h : Heap} {S : ScopeId} (hu : h.Unregistered S)
    {scope package : ScopeId} {name : String} (hp : h.packageNamed? scope name = some package) :
    package ≠ S := by
  obtain ⟨id, -, hfound⟩ := List.exists_of_findSome?_eq_some hp
  have hin := Bindings.findEntry_mem hfound
  cases hc : h.scopes.get? id with
  | none =>
    rw [Heap.scope, hc] at hin
    cases hin
  | some c =>
    rw [Heap.scope, hc] at hin
    rintro rfl
    exact hu id c hc hin

/-- The host holds the scope, and no task holds it as a block, which would end with the task. -/
structure EngineState.Rooted (s : EngineState) (S : ScopeId) : Prop where
  pinned : S ∈ s.pinned
  noBlock : ∀ task xs, s.held.get? task = some xs → .block S ∉ xs

/-- **The scope keeps its names** from the first state to the second.  It has been made, and no scope
holds it as a package. -/
structure KeepsNames (S : ScopeId) (k s : EngineState) : Prop where
  made : S < s.heap.scopes.next
  unregistered : s.heap.Unregistered S
  /-- If the scope is still there it binds the names that it bound before. -/
  names : ∀ c, s.heap.scopes.get? S = some c →
    ∃ c₀, k.heap.scopes.get? S = some c₀ ∧ c.vars.names = c₀.vars.names
  /-- It is still there if it is a scope of the host. -/
  there : k.Rooted S → s.Rooted S ∧
    ((k.heap.scopes.get? S).isSome → (s.heap.scopes.get? S).isSome)

variable {S : ScopeId}

/-- A change of the heap adds no name to the scope and does not make it a package. -/
structure Heap.SparesNames (S : ScopeId) (h h' : Heap) : Prop where
  next_le : h.scopes.next ≤ h'.scopes.next
  unregistered : h.Unregistered S → h'.Unregistered S
  names : ∀ c', h'.scopes.get? S = some c' →
    ∃ c, h.scopes.get? S = some c ∧ c'.vars.names = c.vars.names
  there : (h.scopes.get? S).isSome → (h'.scopes.get? S).isSome

namespace Heap.SparesNames
variable {h h' : Heap}

theorem of_scopes_eq (hscopes : h'.scopes = h.scopes) : SparesNames S h h' where
  next_le := Nat.le_of_eq (by rw [hscopes])
  unregistered hu id c hc := hu id c (hscopes ▸ hc)
  names c' hc' := ⟨c', hscopes ▸ hc', rfl⟩
  there hsome := hscopes ▸ hsome

/-- A scope changes, but if it is the one in question its names do not. -/
theorem modifyScope (h : Heap) (id : ScopeId) {f : Scope → Scope}
    (hnames : ∀ c, id = S → h.scopes.get? id = some c → (f c).vars.names = c.vars.names)
    (hpackages : ∀ c, S ∈ (f c).packages.values → S ∈ c.packages.values) :
    SparesNames S h (h.modifyScope id f) where
  next_le := Nat.le_of_eq (Store.next_modify _ _ _).symm
  unregistered hu other c hc hin := by
    obtain hold | ⟨rfl, d, hd, rfl⟩ := Store.get?_modify hc
    · exact hu other c hold hin
    · exact hu _ d hd (hpackages d hin)
  names c' hc' := by
    obtain hold | ⟨rfl, d, hd, rfl⟩ := Store.get?_modify hc'
    · exact ⟨c', hold, rfl⟩
    · exact ⟨d, hd, hnames d rfl hd⟩
  there hsome := by
    rw [Heap.modifyScope, Store.get?_modify_eq]
    split
    · rwa [Option.isSome_map, ← ‹S = id›]
    · exact hsome

/-- A variable is bound in another scope, or was bound already. -/
theorem bindVar (h : Heap) {id : ScopeId} {name : String}
    (hname : id = S → (h.scope id).vars.contains name = true) (v : Value) :
    SparesNames S h (h.bindVar id name v) := by
  refine modifyScope h id (fun c hid hc => Bindings.names_insert ?_ v) fun _ hin => hin
  have hcontains := hname hid
  rwa [Heap.scope, hc] at hcontains

theorem define {id : ScopeId} (hne : id ≠ S) {name : String} {v : Value} (hd : h.define id name v = .ok h') :
    SparesNames S h h' := by
  unfold Heap.define at hd
  obtain ⟨_, _, hd⟩ := Outcome.bind_eq_ok.mp hd
  cases hd
  exact bindVar h (absurd · hne) v

/-- Assigning to a name that is bound somewhere around. -/
theorem assign_bound {id binder : ScopeId} {name : String} {v : Value}
    (hbinder : h.binder? id name = some binder) (ha : h.assign id name v = .ok h') :
    SparesNames S h h' := by
  rw [Heap.assign, hbinder] at ha
  cases ha
  exact bindVar h (fun _ => List.find?_some (p := fun s => (h.scope s).vars.contains name) hbinder) v

theorem assign {id : ScopeId} (hne : id ≠ S) {name : String} {v : Value}
    (ha : h.assign id name v = .ok h') : SparesNames S h h' := by
  cases hbinder : h.binder? id name with
  | some binder => exact assign_bound hbinder ha
  | none =>
    rw [Heap.assign, hbinder] at ha
    exact define hne ha


/-- Assigning to a name that has a value. -/
theorem revise {id : ScopeId} {name : String} {old v : Value} (hold : h.get id name = .ok old)
    (ha : h.assign id name v = .ok h') : SparesNames S h h' := by
  obtain ⟨binder, hbinder⟩ := Heap.binder?_of_get hold
  exact assign_bound hbinder ha

/-- Another scope becomes a package. -/
theorem definePackage {id package : ScopeId} (hne : package ≠ S) {name : String}
    (hd : h.definePackage id name package = .ok h') : SparesNames S h h' := by
  unfold Heap.definePackage at hd
  obtain ⟨_, _, hd⟩ := Outcome.bind_eq_ok.mp hd
  cases hd
  refine modifyScope h id (fun _ _ _ => rfl) fun c hin => ?_
  obtain hnew | hold := Bindings.mem_values_insert hin
  · exact absurd hnew.symm hne
  · exact hold

/-- A new scope holds no packages. -/
theorem push (hmade : S < h.scopes.next) {c : Scope} (hc : c.packages.values = []) :
    SparesNames S h { h with scopes := h.scopes.push c } where
  next_le := by
    rw [Store.next_push]
    exact Nat.le_succ _
  unregistered hu id d hd := by
    obtain rfl | hold := Store.get?_push hd
    · rw [hc]
      exact List.not_mem_nil
    · exact hu id d hold
  names d hd := ⟨d, by rwa [Store.get?_push_of_ne (Nat.ne_of_lt hmade)] at hd, rfl⟩
  there hsome := by rwa [Store.get?_push_of_ne (Nat.ne_of_lt hmade)]

end Heap.SparesNames

namespace KeepsNames
variable {k s s' : EngineState}

theorem trans (hs : KeepsNames S k s) (hs' : KeepsNames S s s') : KeepsNames S k s' where
  made := hs'.made
  unregistered := hs'.unregistered
  names c hc := by
    obtain ⟨d, hd, hnames⟩ := hs'.names c hc
    obtain ⟨e, he, hnames'⟩ := hs.names d hd
    exact ⟨e, he, hnames.trans hnames'⟩
  there hr :=
    have hthere := hs.there hr
    have hthere' := hs'.there hthere.1
    ⟨hthere'.1, fun hsome => hthere'.2 (hthere.2 hsome)⟩

/-- The scope has been made and is no package. -/
theorem refl (hmade : S < s.heap.scopes.next) (hu : s.heap.Unregistered S) : KeepsNames S s s :=
  ⟨hmade, hu, fun c hc => ⟨c, hc, rfl⟩, fun hr => ⟨hr, id⟩⟩

theorem stays (hs : KeepsNames S k s) : KeepsNames S s s := refl hs.made hs.unregistered

/-- A change that spares the names, and after which the host still holds the scope if it did. -/
theorem step (hs : KeepsNames S k s) (hspares : s.heap.SparesNames S s'.heap)
    (hrooted : s.Rooted S → s'.Rooted S) : KeepsNames S k s' :=
  hs.trans {
    made := Nat.lt_of_lt_of_le hs.made hspares.next_le
    unregistered := hspares.unregistered hs.unregistered
    names := hspares.names
    there := fun hr => ⟨hrooted hr, hspares.there⟩ }

theorem heap (hs : KeepsNames S k s) {h : Heap} (hspares : s.heap.SparesNames S h) :
    KeepsNames S k { s with heap := h } :=
  hs.step hspares fun hr => ⟨hr.pinned, hr.noBlock⟩

/-- Nothing happens to scopes. -/
theorem elsewhere (hs : KeepsNames S k s) (hscopes : s'.heap.scopes = s.heap.scopes)
    (hheld : s'.held = s.held) (hpinned : s'.pinned = s.pinned) : KeepsNames S k s' :=
  hs.step (.of_scopes_eq hscopes) fun hr => ⟨hpinned ▸ hr.pinned, hheld ▸ hr.noBlock⟩

theorem capture (hs : KeepsNames S k s) (scope : ScopeId) : KeepsNames S k (s.capture scope) := by
  unfold EngineState.capture
  generalize (s.heap.chain scope).takeWhile (fun id => !(s.heap.scope id).captured) = around
  induction around generalizing s with
  | nil => exact hs
  | cons id rest ih =>
    refine ih ((hs.heap (h := s.heap.modifyScope id fun c => { c with captured := true }) ?_).elsewhere
      rfl rfl rfl)
    exact .modifyScope _ _ (fun _ _ _ => rfl) fun _ hin => hin

theorem start (hs : KeepsNames S k s) (job : Job) : KeepsNames S k (s.start job).2 := by
  refine hs.step (.of_scopes_eq rfl) fun hr => ⟨hr.pinned, fun task xs hxs hin => ?_⟩
  obtain rfl | hold := Store.get?_push hxs
  · cases List.mem_singleton.mp hin
  · exact hr.noBlock task xs hold hin

theorem hold (hs : KeepsNames S k s) {x : Holding} (hx : x ≠ .block S) :
    KeepsNames S k (s.hold x) := by
  refine hs.step (.of_scopes_eq rfl) fun hr => ⟨hr.pinned, fun task xs hxs hin => ?_⟩
  obtain hold | ⟨rfl, old, hold, rfl⟩ := Store.get?_modify hxs
  · exact hr.noBlock task xs hold hin
  · obtain hnew | hin := List.mem_cons.mp hin
    · exact hx hnew.symm
    · exact hr.noBlock _ old hold hin

/-- Objects are taken out, but not the scope if it is one of the host. -/
theorem prunes (hs : KeepsNames S k s) (hp : s.Prunes s')
    (hkept : k.Rooted S → s'.heap.cell? (.scope S) = s.heap.cell? (.scope S)) :
    KeepsNames S k s' where
  made := Nat.lt_of_lt_of_eq hs.made hp.nextScope.symm
  unregistered id c hc := hs.unregistered id c (hp.scope_of hc)
  names c hc := hs.names c (hp.scope_of hc)
  there hr := by
    obtain ⟨hrooted, hthere⟩ := hs.there hr
    refine ⟨⟨hp.pinned ▸ hrooted.pinned, hp.held ▸ hrooted.noBlock⟩, fun hsome => ?_⟩
    have hsame := congrArg Option.isSome (hkept hr)
    simp only [Heap.cell?, Option.isSome_map] at hsame
    exact hsame ▸ hthere hsome

theorem collect (hs : KeepsNames S k s) : KeepsNames S k s.collect :=
  EngineState.collect_induction (fun s hs => hs.prunes (EngineState.prunes_sweep s) fun hr =>
    EngineState.cell?_sweep (EngineState.covers_pinned (hs.there hr).1.pinned)) hs

theorem giveBack (hs : KeepsNames S k s) {x : Holding} (hx : k.Rooted S → x ≠ .block S) :
    KeepsNames S k (s.giveBack x) := by
  cases x with
  | block id =>
    simp only [EngineState.giveBack]
    split
    · exact hs
    · refine hs.prunes (EngineState.prunes_eraseScope s id) fun hr => ?_
      rw [EngineState.cell?_eraseScope, if_neg fun he => hx hr (by cases he; rfl)]
  | frame id => exact hs.elsewhere rfl rfl rfl
  | receiver chan => exact hs.elsewhere rfl rfl rfl
  | _ => exact hs

theorem letGoOf (hs : KeepsNames S k s) (task : TaskId) : KeepsNames S k (s.letGoOf task) := by
  unfold EngineState.letGoOf
  split
  · rename_i x rest hxs
    have hrest : KeepsNames S k { s with held := s.held.set task rest } := by
      refine hs.step (.of_scopes_eq rfl) fun hr => ⟨hr.pinned, fun other ys hys hin => ?_⟩
      by_cases hother : other = task
      · rw [hother, Store.get?_set_self hxs] at hys
        cases hys
        exact hr.noBlock task _ hxs (List.mem_cons_of_mem x hin)
      · rw [Store.get?_set_of_ne hother] at hys
        exact hr.noBlock other ys hys hin
    refine hrest.giveBack fun hr hblock => ?_
    exact (hs.there hr).1.noBlock task _ hxs (hblock ▸ List.mem_cons_self)
  · exact hs

/-- A scope is opened, which is another one, or none is. -/
theorem addChild (hs : KeepsNames S k s) (parent : ScopeId) :
    KeepsNames S k (s.addChild parent).2 ∧
      ∀ scope, (s.addChild parent).1 = .ok scope → scope ≠ S := by
  have htidied : KeepsNames S k (s.tidied (s.heap.scope parent).governor) := by
    unfold EngineState.tidied
    split
    · exact hs.collect
    · exact hs
  rw [EngineState.addChild_eq rfl rfl]
  split
  · exact ⟨htidied, nofun⟩
  · refine ⟨(htidied.heap (.push htidied.made rfl)).elsewhere rfl rfl rfl, fun scope hscope => ?_⟩
    cases hscope
    exact Nat.ne_of_gt htidied.made

/-- A scheduler with no tasks in the background. -/
theorem safe_alone {sch : Scheduler} (hs : KeepsNames S sch.state sch.state) (hready : sch.ready = [])
    (hparked : sch.parked = []) (hyielded : sch.yielded = []) : sch.Safe id (KeepsNames S) where
  valid := hs
  ready := by simp [hready]
  parked := by simp [hparked]
  yielded := by simp [hyielded]

end KeepsNames

/-- **Evaluation keeps the names of a scope** if it binds names in other scopes only. -/
theorem habits_keepsNames (S : ScopeId) :
    Habits (fun _ => True) (· ≠ S) (KeepsNames S) fun scope _ => scope ≠ S where
  trans := .trans
  stays := .stays
  zone_of_writable _ := trivial
  frames_of_bodies := id
  encloses _ := ⟨fun _ _ => trivial, fun _ _ _ _ _ _ => trivial⟩
  deferred _ := fun _ _ _ _ _ => ⟨fun _ _ => trivial, fun _ _ _ _ => trivial⟩
  started _ := fun _ _ _ _ _ _ _ => trivial
  callees _ _ _ := Function.in_all _
  elsewhere hs ha := hs.elsewhere (congrArg Heap.scopes ha.heap) ha.held ha.pinned
  complain hs _ := hs.elsewhere rfl rfl rfl
  heap hs _ hfabric := hs.heap (.of_scopes_eq (Heap.scopes_of_fabric hfabric))
  newFunc hs _ _ := hs.heap (.of_scopes_eq rfl)
  register hs _ := hs.elsewhere rfl rfl rfl
  define hs hne _ hd := hs.heap (.define hne hd)
  assign hs hne _ ha := hs.heap (.assign hne ha)
  revise hs _ hold _ ha := hs.heap (.revise hold ha)
  packageNamed hs _ hp := hs.unregistered.packageNamed? hp
  definePackage hs _ hne _ hd := hs.heap (.definePackage hne hd)
  newFrame {k s} hs :=
    have hframes : KeepsNames S k { s with frames := s.frames.push [] } := hs.elsewhere rfl rfl rfl
    ⟨trivial, hframes.hold nofun⟩
  defer hs _ _ := hs.elsewhere rfl rfl rfl
  dropDeferred hs _ := hs.elsewhere rfl rfl rfl
  start hs _ _ := hs.start _
  capture hs _ _ := hs.capture _
  hold hs hx := hs.hold (hx.ne_block S)
  letGo task hs := hs.letGoOf task
  turn _ hs := hs.elsewhere rfl rfl rfl
  opened hs _ := hs.addChild _
  entered hs hne := hs.hold fun he => hne (by cases he; rfl)
  enterable_letGo _ _ hne := hne
  writable_of_enterable _ hne := hne

/-! ## Statements that open scopes -/

/-- **Such a statement can be evaluated in any scope of the zone**, whether names may be bound in it
or not. -/
theorem Evaluator.Obedient.opening {D : Domain} {Φ : ∀ {α : Type}, (α → Prop) → Eval α → Prop}
    {Opens : Eval ScopeId → Prop} {ev : Evaluator} (h : ev.Obedient D Φ) (hR : Rules D Φ Opens)
    {scope : ScopeId} (hscope : D.zone (.scope scope)) {frame : FrameId} (hframe : D.frames frame)
    {kind : StmtKind} (hkind : kind.opensScopes = true) (hnode : D.code (.stmt kind))
    (hparts : kind.PartsIn D.code) :
    Φ (Flow.In D.zone) (ev.dispatchStmt scope frame kind) := by
  cases kind with
  | block body => exact h.inner hparts hframe hscope
  | ifElse condition thenBlock elseBlock =>
    obtain ⟨hcondition, hthen, helse⟩ := hparts
    exact h.ifElse hR hscope hcondition hthen helse hframe
  | switch discriminant cases default =>
    obtain ⟨hdiscriminant, hcases, hdefault⟩ := hparts
    exact h.switch hR hscope hdiscriminant hcases hdefault hframe
  | select cases default =>
    exact h.select hR hscope hparts.1
      (fun c hc name hname => ⟨_, hnode, List.mem_flatMap.mpr ⟨c, hc, hname⟩⟩) hparts.2 hframe
  | loop condition body => exact h.whileLoop hR hscope hparts.1 hparts.2 hframe
  | forIn vars iterable body =>
    exact h.forIn hR hscope (fun _ hname => ⟨_, hnode, hname⟩) hparts.2 hframe hparts.1
  | tryCatch body catchVar handler last =>
    obtain ⟨hbody, hhandler, hlast⟩ := hparts
    exact h.tryCatch hR hscope hbody (fun _ hname => ⟨_, hnode, Option.mem_toList.mpr hname⟩)
      hhandler hlast hframe
  | forClause init condition post body =>
    obtain ⟨hinit, hcondition, hpost, hbody⟩ := hparts
    exact h.forClause hR hscope hcondition hbody hframe hpost hinit fun hnone =>
      absurd (hkind.symm.trans hnone) nofun
  | _ => cases hkind

/-- Evaluating a statement that opens scopes obeys the law, also if the statement stands in the scope
itself. -/
theorem obeys_opening {stmt : Stmt} (hkind : stmt.kind.opensScopes = true) (run : RunId)
    (fuel : Nat) (S : ScopeId) (frame : FrameId) :
    ObeysAny (fun _ => True) (KeepsNames S) ((Evaluator.ofFuel run fuel).stmt stmt S frame) := by
  have hH := habits_keepsNames S
  cases fuel with
  | zero => exact hH.rules.outOfFuel
  | succ fuel =>
    have hev := hH.obedient run fuel
    exact hH.rules.any (hev.placed hH.rules stmt
      (hev.opening hH.rules trivial trivial hkind trivial stmt.in_all.parts.2))

/-- **Blocks do not leak names.**  A statement that opens scopes is evaluated in a scope that no scope
holds as a package, with any outcome, while other tasks take turns, in any order, and keep the names of
the scope.  Then the scope
keeps its names: if it is still there it binds the names that it bound before, and it is still there
if it was, unless it is a block itself. -/
theorem blocks_keep_names {stmt : Stmt} (hkind : stmt.kind.opensScopes = true) {S : ScopeId}
    {sch sch' : Scheduler} (hothers : sch.Safe id (KeepsNames S)) {run : RunId} {fuel : Nat}
    {frame : FrameId} (hleaves : sch.MayLeave ((Evaluator.ofFuel run fuel).stmt stmt S frame) sch') :
    KeepsNames S sch.state sch'.state := by
  have hH := habits_keepsNames S
  refine (hothers.leaves hH.discipline (fun s hs => ?_) hleaves).develops
  exact ((obeys_opening hkind run fuel S frame).observes (hH.stays hs)).on hH.toLaw

/-! ## A closure in a block -/

/-- The host holds a scope with a number and a function, which was made in the scope:
`func raise() { total = 5; fresh = 1 }`. -/
def raising : Scheduler :=
  let raise : Function :=
    .script (.mk (some "raise") [] false [.assignTo "total" (.int 5), .assignTo "fresh" (.int 1)]) 0
      false
  let host : Scope := { vars := ⟨[("total", .int 0), ("raise", .func 0)]⟩ }
  { state := { EngineState.initial with
      heap := { funcs := Store.push {} raise, scopes := Store.push {} host }
      governors := Store.push {} { limit := 0 }
      pinned := [0] } }

/-- `for i in 2 { fresh = i; raise() }`. -/
def raisingTwice : Stmt :=
  .forIn ["i"] (.int 2) [.assignTo "fresh" (.ident "i"), .expr (.call (.ident "raise") [])]

theorem raising_rooted : raising.state.Rooted 0 where
  pinned := List.mem_singleton_self 0
  noBlock task xs hxs hin := by
    obtain rfl | hnone := Store.get?_push hxs
    · cases hin
    · cases hnone

/-- The loop binds a name in every round, and calls a closure that binds it too and overwrites the
number. -/
theorem blocks_keep_names_closure :
    let s := (raising.run 40 ((Evaluator.ofFuel 0 40).stmt raisingTwice 0 0)).1.state
    s.heap.lookup? 0 "total" = some (.int 5) ∧
      (s.heap.scopes.get? 0).map (·.vars.names) =
        (raising.state.heap.scopes.get? 0).map (·.vars.names) := by
  have hunregistered : raising.state.heap.Unregistered 0 := by
    intro id c hc
    obtain rfl | hnone := Store.get?_push hc
    · exact List.not_mem_nil
    · cases hnone
  have hothers : raising.Safe id (KeepsNames 0) :=
    KeepsNames.safe_alone (.refl (by decide +kernel) hunregistered) rfl rfl rfl
  have hopens : raisingTwice.kind.opensScopes = true := rfl
  have hkeeps := blocks_keep_names hopens hothers
    (raising.mayLeave_run 40 ((Evaluator.ofFuel 0 40).stmt raisingTwice 0 0))
  obtain ⟨c, hc⟩ := Option.isSome_iff_exists.mp ((hkeeps.there raising_rooted).2 rfl)
  obtain ⟨c₀, hc₀, hnames⟩ := hkeeps.names c hc
  refine ⟨by decide +kernel, ?_⟩
  rw [hc, hc₀, Option.map_some, Option.map_some, hnames]

end ScriptEngine
