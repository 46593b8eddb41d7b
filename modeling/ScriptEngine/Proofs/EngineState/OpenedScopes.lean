import ScriptEngine.Proofs.EngineState.Agreement
import ScriptEngine.Proofs.EngineState.Garbage
import ScriptEngine.Proofs.EngineState.Slots
import ScriptEngine.Proofs.ValidatedTrees

/-! # Scopes that only blocks refer to

A scope that is opened is a block's, and ends with the block, unless a function that is made there, a
module, or a task that is started there goes on to refer to it.  In a fragment of the language that has
none of these (`TreeNode.leavesNothing`), evaluation opens and ends scopes **in blocks** (`InBlocks`):
since some moment, all scopes that have been opened are blocks of the foreground task, and all scopes that
there were before are still there, although garbage is collected on the way.  For whatever referred to
them then refers to them still.

This law does not hold between the opening of a scope and the moment when it becomes a block: until then
the scope is **loose** (`entrances_inBlocks`).
-/
namespace ScriptEngine

open EngineState (Anchored)

/-! ## Code that leaves nothing behind -/

/-- Nothing that goes on to refer to a scope comes from evaluating the node: neither a function nor a
module nor a task. -/
def TreeNode.leavesNothing : TreeNode → Bool
  | .func _ | .stmt (.module _ _) | .stmt (.go _) => false
  | _ => true

/-- The fragment of such nodes. -/
abbrev Fragment.leavingNothing : Fragment := fun n => n.leavesNothing = true

namespace Fragment

theorem not_functional : ¬ leavingNothing.Functional := by
  rintro ⟨definition, hnode⟩
  cases hnode

theorem not_modular : ¬ leavingNothing.Modular := by
  rintro ⟨name, body, hnode⟩
  cases hnode

theorem not_concurrent : ¬ leavingNothing.Concurrent := by
  rintro ⟨e, hnode⟩
  cases hnode

end Fragment

/-! ## What scopes refer to for good -/

/-- The scope but for the values of its variables. -/
def Scope.outline (c : Scope) : Scope := { c with vars := .empty }

theorem Value.scope_notMem_objects (id : ScopeId) (vs : List Value) :
    Object.scope id ∉ Value.objects vs := by
  intro hid
  obtain ⟨v, -, hv⟩ := List.mem_filterMap.mp hid
  cases v <;> cases hv

/-- No variable refers to a scope. -/
theorem Scope.scope_mem_outline {c : Scope} {id : ScopeId} :
    Object.scope id ∈ c.outline.objects ↔ Object.scope id ∈ c.objects := by
  simp only [objects, outline, List.append_assoc, List.mem_append, Value.scope_notMem_objects, false_or]

/-- Only functions of scripts and scopes refer to scopes. -/
theorem Cell.refers_to_scope {c : Cell} {id : ScopeId} (hid : Object.scope id ∈ c.objects) :
    (∃ definition selfBound, c = .func (.script definition id selfBound)) ∨ ∃ d, c = .scope d := by
  cases c with
  | list c | map c | chan c => exact absurd hid (Value.scope_notMem_objects id _)
  | func f =>
    cases f with
    | script definition scope selfBound =>
      cases List.mem_singleton.mp hid
      exact .inl ⟨definition, selfBound, rfl⟩
    | host f => cases hid
  | handle o =>
    cases o with
    | struct c => exact absurd hid (Value.scope_notMem_objects id _)
    | token typeName => cases hid
  | scope d => exact .inr ⟨d, rfl⟩

theorem Holding.eq_block {x : Holding} {id : ScopeId} (hx : x.block? = some id) : x = .block id := by
  cases x <;> cases hx
  rfl

/-! ## Scopes in blocks -/

/-- Where evaluation begins that opens scopes in blocks only: garbage has been collected, no task is
under way, and no function of a script can be got at. -/
structure EngineState.Settled (s : EngineState) (root : ScopeId) : Prop where
  collected : s.collect = s
  held : ∀ task xs, s.held.get? task = some xs → xs = []
  deferred : ∀ frame calls, s.frames.get? frame = some calls → calls = []
  functions : ∀ id, s.heap.Around root (.func id) → (s.heap.func id).definition? = none

/-- **Scopes have been opened in blocks** since `s₀`: the scopes that there were are still there, and so is
all that cannot be got at from the scope `root`; scopes that have been opened are not captured, and are
blocks of the foreground task unless they are among the `loose` ones. -/
structure InBlocks (s₀ : EngineState) (root : ScopeId) (loose : List ScopeId) (s : EngineState) :
    Prop where
  confined : Confined (s₀.heap.Around root) s₀.heap root s
  calm : ∀ task job, Notice.started task job ∉ s.notices
  functions : ∀ id, s₀.heap.Around root (.func id) → (s.heap.func id).definition? = none
  kept : ∀ o, ¬ s₀.heap.Around root o → s.heap.cell? o = s₀.heap.cell? o
  old : ∀ id, id < s₀.heap.scopes.next →
    (s.heap.scopes.get? id).map Scope.outline = (s₀.heap.scopes.get? id).map Scope.outline
  next_le : s₀.heap.scopes.next ≤ s.heap.scopes.next
  new : ∀ id c, s₀.heap.scopes.next ≤ id → s.heap.scopes.get? id = some c →
    c.captured = false ∧ (id ∈ loose ∨ id ∈ s.blocksOf 0)
  blocks : ∀ task, ∀ id ∈ s.blocksOf task, s₀.heap.scopes.next ≤ id
  foreground : s.current = 0 ∧ (s.held.get? 0).isSome
  pinned : s.pinned = s₀.pinned
  reports : s₀.reports <+: s.reports
  lingering : s.lingering = s₀.lingering

namespace InBlocks
variable {s₀ s s' : EngineState} {root id : ScopeId} {loose : List ScopeId}

/-- Neither the heap nor what is held has changed. -/
theorem same (hs : InBlocks s₀ root loose s) (hc : Confined (s₀.heap.Around root) s₀.heap root s')
    (hheap : s'.heap = s.heap) (hheld : s'.held = s.held) (hpinned : s'.pinned = s.pinned)
    (hjobs : ∀ task job, Notice.started task job ∈ s'.notices → Notice.started task job ∈ s.notices)
    (hcurrent : s'.current = s.current) (hlingering : s'.lingering = s.lingering)
    (hreports : s.reports <+: s'.reports) : InBlocks s₀ root loose s' where
  confined := hc
  calm task job hj := hs.calm task job (hjobs task job hj)
  functions := hheap ▸ hs.functions
  kept := hheap ▸ hs.kept
  old := hheap ▸ hs.old
  next_le := hheap ▸ hs.next_le
  new id c hid hc := by
    rw [hheap] at hc
    rw [EngineState.blocksOf, hheld]
    exact hs.new id c hid hc
  blocks task := by
    rw [EngineState.blocksOf, hheld]
    exact hs.blocks task
  foreground := by
    rw [hcurrent, hheld]
    exact hs.foreground
  pinned := hpinned.trans hs.pinned
  reports := hs.reports.trans hreports
  lingering := hlingering.trans hs.lingering

theorem frames (hs : InBlocks s₀ root loose s) {frames : Store (List DeferredCall)}
    (hframes : DeferredIn (s₀.heap.Around root) frames) : InBlocks s₀ root loose { s with frames } :=
  hs.same (hs.confined.frames hframes) rfl rfl rfl (fun _ _ => id) rfl rfl (List.prefix_refl _)

/-- Objects change that can be got at, but of scopes only the values of variables, and no function of a
script is made. -/
theorem heap (hs : InBlocks s₀ root loose s) {h : Heap} (hstays : s.heap.Stays (s₀.heap.Around root) h)
    (houtlines : ∀ id, (h.scopes.get? id).map Scope.outline =
      (s.heap.scopes.get? id).map Scope.outline)
    (hcode : s.AddsNoCode { s with heap := h }) : InBlocks s₀ root loose { s with heap := h } :=
  { hs with
    confined := hs.confined.heap hstays
    functions := fun id hid => Option.eq_none_iff_forall_ne_some.mpr fun definition hd => by
      have hnone := hs.functions id hid
      rw [hcode.functions hd] at hnone
      cases hnone
    kept := fun o ho => (hstays.apart o ho).trans (hs.kept o ho)
    old := fun id hid => (houtlines id).trans (hs.old id hid)
    next_le := Nat.le_trans hs.next_le (Nat.le_of_eq hstays.nextScope.symm)
    new := fun id c hid hc => by
      have hsame := houtlines id
      rw [hc] at hsame
      obtain ⟨d, hd, houtline⟩ := Option.map_eq_some_iff.mp hsame.symm
      obtain ⟨hcaptured, hblock⟩ := hs.new id d hid hd
      have hsame : c.outline.captured = d.outline.captured := by rw [houtline]
      exact ⟨hsame.trans hcaptured, hblock⟩ }

/-- Something is held, and if it is a block, then its scope has been opened, and is no longer loose. -/
theorem hold (hs : InBlocks s₀ root loose s) {x : Holding} (hx : x.In (s₀.heap.Around root))
    (hnew : ∀ id, x.block? = some id → s₀.heap.scopes.next ≤ id) {loose' : List ScopeId}
    (hloose : ∀ id ∈ loose, x.block? = some id ∨ id ∈ loose') : InBlocks s₀ root loose' (s.hold x) := by
  obtain ⟨hcurrent, hthere⟩ := hs.foreground
  obtain ⟨xs, hxs⟩ := Option.isSome_iff_exists.mp hthere
  have hheld : (s.hold x).held.get? 0 = some (x :: xs) := by
    rw [← hcurrent] at hxs ⊢
    exact EngineState.held_hold hxs x
  have hmine : (s.hold x).blocksOf 0 = x.block?.toList ++ s.blocksOf 0 := by
    rw [EngineState.blocksOf, hheld, EngineState.blocksOf, hxs, Option.getD_some, Option.getD_some,
      List.filterMap_cons]
    cases x.block? <;> rfl
  exact { hs with
    confined := hs.confined.hold hx
    new := fun id c hid hc => by
      obtain ⟨hcaptured, hblock⟩ := hs.new id c hid hc
      refine ⟨hcaptured, ?_⟩
      rw [hmine, List.mem_append, Option.mem_toList]
      obtain hid | hid := hblock
      · exact (hloose id hid).symm.imp_right .inl
      · exact .inr (.inr hid)
    blocks := fun task id hid => by
      obtain hsame | ⟨-, hmore⟩ := EngineState.blocksOf_hold s x task
      · exact hs.blocks task id (hsame ▸ hid)
      · rw [hmore, List.mem_append, Option.mem_toList] at hid
        exact hid.elim (hnew id) (hs.blocks task id)
    foreground := ⟨hcurrent, Option.isSome_of_mem hheld⟩ }

/-! ## Scopes that end -/

/-- Objects are taken out, but none that has to stay. -/
theorem prunes (hs : InBlocks s₀ root loose s) (hp : s.Prunes s') (ha : s.Apart s')
    (hcode : s.AddsNoCode s') (hlingering : s'.lingering = s.lingering)
    (hkept : ∀ o, ¬ s₀.heap.Around root o → s'.heap.cell? o = s.heap.cell? o)
    (hold : ∀ id, id < s₀.heap.scopes.next → s'.heap.scopes.get? id = s.heap.scopes.get? id)
    {loose' : List ScopeId} (hloose : ∀ id ∈ loose, s'.heap.scopes.get? id = none ∨ id ∈ loose') :
    InBlocks s₀ root loose' s' where
  confined := hs.confined.prunes hp fun o ho hz => absurd (.inr ho) hz
  calm := ha.notices ▸ hs.calm
  functions id hid := Option.eq_none_iff_forall_ne_some.mpr fun definition hd => by
    have hnone := hs.functions id hid
    rw [hcode.functions hd] at hnone
    cases hnone
  kept o ho := (hkept o ho).trans (hs.kept o ho)
  old id hid := hold id hid ▸ hs.old id hid
  next_le := hp.nextScope ▸ hs.next_le
  new id c hid hc := by
    obtain ⟨hcaptured, hblock⟩ := hs.new id c hid (hp.scope_of hc)
    rw [EngineState.blocksOf, hp.held]
    refine ⟨hcaptured, hblock.imp_left fun hmem => (hloose id hmem).resolve_left fun hnone => ?_⟩
    rw [hnone] at hc
    cases hc
  blocks task := by
    rw [EngineState.blocksOf, hp.held]
    exact hs.blocks task
  foreground := by
    rw [ha.current, hp.held]
    exact hs.foreground
  pinned := hp.pinned.trans hs.pinned
  reports := ha.reports ▸ hs.reports
  lingering := hlingering.trans hs.lingering

end InBlocks

/-- Scopes that are not captured do not linger. -/
theorem EngineState.lingering_eraseScope {s : EngineState} {id : ScopeId}
    (hid : ∀ c, s.heap.scopes.get? id = some c → c.captured = false) :
    (s.eraseScope id).lingering = s.lingering := by
  unfold eraseScope
  split
  · rfl
  · split
    · rw [hid _ ‹_›]
      rfl
    · rfl

theorem EngineState.lingering_eraseScopes {s : EngineState} {ids : List ScopeId}
    (hids : ∀ id ∈ ids, ∀ c, s.heap.scopes.get? id = some c → c.captured = false) :
    (ids.foldl eraseScope s).lingering = s.lingering := by
  induction ids generalizing s with
  | nil => rfl
  | cons id rest ih =>
    obtain ⟨hid, hrest⟩ := List.forall_mem_cons.mp hids
    refine (ih fun other hother c hc => ?_).trans (lingering_eraseScope hid)
    exact hrest other hother c ((prunes_eraseScope s id).scope_of hc)

namespace InBlocks
variable {s₀ s s' : EngineState} {root id : ScopeId} {loose : List ScopeId}

/-- **A loose scope ends.** -/
theorem eraseScope (hs : InBlocks s₀ root (id :: loose) s) (hid : s₀.heap.scopes.next ≤ id) :
    InBlocks s₀ root loose (s.eraseScope id) := by
  have hcell := EngineState.cell?_eraseScope s id
  refine hs.prunes (EngineState.prunes_eraseScope s id) (EngineState.apart_eraseScope s id)
    (.eraseScope s id) (EngineState.lingering_eraseScope fun c hc => (hs.new id c hid hc).1)
    (fun o ho => ?_) (fun other hother => ?_) (List.forall_mem_cons.mpr ⟨.inl ?_, fun _ => .inr⟩)
  · have hne : o ≠ .scope id := by
      rintro rfl
      exact ho (.inl hid)
    rw [hcell, if_neg hne]
  · have hne : Object.scope other ≠ .scope id := by
      rintro ⟨⟩
      exact absurd hother (Nat.not_lt_of_le hid)
    have hsame := hcell (.scope other)
    rw [if_neg hne] at hsame
    exact Option.map_injective (fun _ _ he => Cell.scope.inj he) hsame
  · have hgone := hcell (.scope id)
    rw [if_pos rfl] at hgone
    exact Option.map_eq_none_iff.mp hgone

/-! ## Garbage -/

/-- A scope that was there refers to what it referred to, and variables refer to no scopes. -/
theorem scope_mentions (hs : InBlocks s₀ root loose s) {x : ScopeId} {c : Scope}
    (hc : s₀.heap.scopes.get? x = some c) (hid : Object.scope id ∈ c.objects) :
    s.heap.Mentions (.scope id) := by
  have hsame := hs.old x (Store.lt_next hc)
  rw [hc] at hsame
  obtain ⟨d, hd, houtline⟩ := Option.map_eq_some_iff.mp hsame
  refine ⟨.scope x, .scope d, congrArg (Option.map Cell.scope) hd, ?_⟩
  rw [← Scope.scope_mem_outline, ← houtline, Scope.scope_mem_outline] at hid
  exact hid

/-- **What there was is marked**, if it is a scope or cannot be got at: garbage had been collected, and
what referred to it then refers to it still. -/
theorem covers (hs : InBlocks s₀ root loose s) (hstart : s₀.Settled root)
    (hlingering : s.lingering ≠ 0) {o : Object} {c : Cell} (hc : s₀.heap.cell? o = some c)
    (ho : ¬ s₀.heap.Around root o ∨ ∃ id, o = .scope id) : s.marks.Covers o := by
  have hmarked := EngineState.covers_of_collected hstart.collected (hs.lingering ▸ hlingering) hc
  rw [EngineState.covers_iff] at hmarked ⊢
  obtain hunused | hanchored | ⟨x, d, hx, hmem⟩ := hmarked
  · rw [hunused.cell?_eq_none] at hc
    cases hc
  · refine .inr (.inl ?_)
    cases hanchored with
    | pinned hid ho => exact .pinned (hs.pinned ▸ hid) ho
    | held hxs ho =>
      rw [hstart.held _ _ hxs] at ho
      cases ho
    | deferred hcalls ho =>
      rw [hstart.deferred _ _ hcalls] at ho
      cases ho
    | reported ho =>
      obtain ⟨r, hr, ho⟩ := List.mem_flatMap.mp ho
      exact .reported (List.mem_flatMap.mpr ⟨r, hs.reports.subset hr, ho⟩)
  · refine .inr (.inr ?_)
    by_cases hz : s₀.heap.Around root x
    · -- What can be got at from the zone is of the zone, so this is about a scope.
      obtain hout | ⟨id, rfl⟩ := ho
      · exact absurd ((s₀.heap.encloses_around root).closed x d hz hx o hmem) hout
      · obtain ⟨definition, selfBound, rfl⟩ | ⟨e, rfl⟩ := Cell.refers_to_scope hmem
        · cases x <;> obtain ⟨f, hf, hsame⟩ := Option.map_eq_some_iff.mp hx <;> cases hsame
          have hnone := hstart.functions _ hz
          rw [Heap.func, hf] at hnone
          cases hnone
        · cases x <;> obtain ⟨c', hc', hsame⟩ := Option.map_eq_some_iff.mp hx <;> cases hsame
          exact hs.scope_mentions hc' hmem
    · exact ⟨x, d, (hs.kept x hz).trans hx, hmem⟩

theorem sweep (hs : InBlocks s₀ root loose s) (hstart : s₀.Settled root)
    (hlingering : s.lingering ≠ 0) : InBlocks s₀ root loose s.sweep.1 := by
  have hkept {o : Object} (ho : ¬ s₀.heap.Around root o ∨ ∃ id, o = .scope id)
      (hcell : s₀.heap.cell? o = none → s.heap.cell? o = none) :
      s.sweep.1.heap.cell? o = s.heap.cell? o := by
    cases hc : s₀.heap.cell? o with
    | some c => exact EngineState.cell?_sweep (hs.covers hstart hlingering hc ho)
    | none =>
      rw [hcell hc]
      exact ((EngineState.prunes_sweep s).cell o).elim id fun hsame => hsame.trans (hcell hc)
  have hscope (id : ScopeId) (hid : id < s₀.heap.scopes.next) :
      s.sweep.1.heap.scopes.get? id = s.heap.scopes.get? id := by
    refine Option.map_injective (fun _ _ he => Cell.scope.inj he) (hkept (.inr ⟨id, rfl⟩) fun hnone => ?_)
    have hsame := hs.old id hid
    rw [Option.map_eq_none_iff.mp hnone] at hsame
    exact congrArg (Option.map Cell.scope) (Option.map_eq_none_iff.mp hsame)
  refine hs.prunes (EngineState.prunes_sweep s) (EngineState.apart_sweep s) (.sweep s) ?_
    (fun o ho => hkept (.inl ho) fun hnone => (hs.kept o ho).trans hnone) hscope fun _ => .inr
  refine EngineState.lingering_eraseScopes (s := s.pruned) fun id hid c hc => ?_
  by_cases hold : id < s₀.heap.scopes.next
  · -- It has been taken out, so it cannot be one of those that stay.
    have hgone := EngineState.scopes_eraseScopes_of_mem (s := s.pruned) hid
    rw [← EngineState.sweep_eq, hscope id hold, show s.heap.scopes.get? id = some c from hc] at hgone
    cases hgone
  · exact (hs.new id c (Nat.le_of_not_lt hold) hc).1

/-- **Collecting garbage leaves the scopes alone that there were.** -/
theorem collect (hs : InBlocks s₀ root loose s) (hstart : s₀.Settled root) :
    InBlocks s₀ root loose s.collect := by
  by_cases hlingering : s.lingering = 0
  · rw [EngineState.collect, if_pos hlingering]
    exact hs
  · refine EngineState.collect_induction (fun t ht => ht.sweep hstart ?_) hs
    rwa [ht.lingering, ← hs.lingering]

/-! ## Opening, entering and letting go -/

/-- A scope is opened, and is loose. -/
theorem opened (hs : InBlocks s₀ root loose s) (g : GovernorId) {parent : ScopeId}
    (hparent : s₀.heap.Around root (.scope parent)) :
    InBlocks s₀ root (s.heap.scopes.next :: loose) (s.opened g parent) :=
  { hs with
    confined := hs.confined.opened g hparent
    kept := fun o ho => by
      cases o with
      | scope id =>
        have hne : id ≠ s.heap.scopes.next := by
          rintro rfl
          exact ho (.inl hs.next_le)
        rw [← hs.kept _ ho]
        exact congrArg (Option.map Cell.scope) (Store.get?_push_of_ne hne)
      | _ => exact hs.kept _ ho
    old := fun id hid => by
      rw [EngineState.opened, Store.get?_push_of_ne (Nat.ne_of_lt (Nat.lt_of_lt_of_le hid hs.next_le))]
      exact hs.old id hid
    next_le := by
      rw [EngineState.opened, Store.next_push]
      exact Nat.le_succ_of_le hs.next_le
    new := fun id c hid hc => by
      rw [EngineState.opened, Store.get?_push_eq] at hc
      split at hc
      · subst id
        cases hc
        exact ⟨rfl, .inl List.mem_cons_self⟩
      · exact (hs.new id c hid hc).imp_right (·.imp_left (List.mem_cons_of_mem _)) }

/-- **A scope is opened**, and is loose, or none is opened. -/
theorem addChild (hs : InBlocks s₀ root [] s) (hstart : s₀.Settled root) {parent : ScopeId}
    (hparent : s₀.heap.Around root (.scope parent)) :
    (∀ scope, (s.addChild parent).1 = .ok scope →
      s₀.heap.scopes.next ≤ scope ∧ InBlocks s₀ root [scope] (s.addChild parent).2) ∧
    ∀ e, (s.addChild parent).1 = .error e → InBlocks s₀ root [] (s.addChild parent).2 := by
  have htidied : InBlocks s₀ root [] (s.tidied (s.heap.scope parent).governor) := by
    unfold EngineState.tidied
    split
    · exact hs.collect hstart
    · exact hs
  rw [EngineState.addChild_eq rfl rfl]
  split
  · exact ⟨nofun, fun _ _ => htidied⟩
  · refine ⟨fun scope hscope => ?_, nofun⟩
    cases hscope
    exact ⟨htidied.next_le, htidied.opened _ hparent⟩

/-- What the task held last is taken from it, and if it was a block, then its scope is loose. -/
theorem take (hs : InBlocks s₀ root loose s) {task : TaskId} {x : Holding} {rest : List Holding}
    (hxs : s.held.get? task = some (x :: rest)) :
    InBlocks s₀ root (x.block?.toList ++ loose) { s with held := s.held.set task rest } := by
  have hmine := EngineState.blocksOf_cons hxs
  have hblocks := EngineState.blocksOf_set hxs
  exact { hs with
    confined := (hs.confined.take hxs).2
    new := fun id c hid hc => by
      obtain ⟨hcaptured, hblock⟩ := hs.new id c hid hc
      refine ⟨hcaptured, ?_⟩
      rw [hblocks, List.mem_append]
      obtain hmem | hmem := hblock
      · exact .inl (.inr hmem)
      · split
        · subst task
          rw [hmine, List.mem_append] at hmem
          exact hmem.imp_left .inl
        · exact .inr hmem
    blocks := fun other id hid => by
      rw [hblocks] at hid
      split at hid
      · refine hs.blocks task id ?_
        rw [hmine]
        exact List.mem_append_right _ hid
      · exact hs.blocks other id hid
    foreground := by
      refine ⟨hs.foreground.1, ?_⟩
      by_cases htask : 0 = task
      · rw [htask, Store.get?_set_self hxs]
        rfl
      · rw [Store.get?_set_of_ne htask]
        exact hs.foreground.2 }

/-- It is given back, and if it was a block, then its scope ends. -/
theorem giveBack {x : Holding} (hs : InBlocks s₀ root (x.block?.toList ++ loose) s)
    (hx : x.In (s₀.heap.Around root)) (hnew : ∀ id, x.block? = some id → s₀.heap.scopes.next ≤ id) :
    InBlocks s₀ root loose (s.giveBack x) := by
  have hc := hs.confined.giveBack hx
  cases x with
  | block id =>
    have hcaptured : (s.heap.scope id).captured = false := by
      rw [Heap.scope]
      cases hc : s.heap.scopes.get? id with
      | none => rfl
      | some c => exact (hs.new id c (hnew id rfl) hc).1
    rw [EngineState.giveBack, if_neg (by rw [hcaptured]; exact Bool.false_ne_true)]
    exact hs.eraseScope (hnew id rfl)
  | frame frame => exact hs.same hc rfl rfl rfl (fun _ _ hj => hj) rfl rfl (List.prefix_refl _)
  | receiver chan =>
    exact hs.heap (hs.confined.encloses.modifyChan hx fun _ _ hbuffer => hbuffer) (fun _ => rfl)
      (.of_eq rfl rfl)
  | _ => exact hs

/-- **Whoever lets go of a block ends its scope.** -/
theorem letGoOf (hs : InBlocks s₀ root loose s) (task : TaskId) :
    InBlocks s₀ root loose (s.letGoOf task) := by
  unfold EngineState.letGoOf
  split
  · rename_i x rest hxs
    refine (hs.take hxs).giveBack (hs.confined.take hxs).1 fun id hid => hs.blocks task id ?_
    rw [EngineState.blocksOf_cons hxs, hid]
    exact List.mem_cons_self
  · exact hs

/-- **If no block is under way, then the scopes are those that there were.** -/
theorem outlines_eq (hs : InBlocks s₀ root [] s) (hnone : s.blocksOf 0 = []) (id : ScopeId) :
    (s.heap.scopes.get? id).map Scope.outline = (s₀.heap.scopes.get? id).map Scope.outline := by
  by_cases hid : id < s₀.heap.scopes.next
  · exact hs.old id hid
  · rw [Store.get?_eq_none (Nat.le_of_not_lt hid)]
    cases hc : s.heap.scopes.get? id with
    | none => rfl
    | some c =>
      obtain ⟨-, hmem | hblock⟩ := hs.new id c (Nat.le_of_not_lt hid) hc
      · cases hmem
      · rw [hnone] at hblock
        cases hblock

end InBlocks

/-! ## Evaluation -/

/-- The new scope is loose. -/
def Loosens (s₀ : EngineState) (root scope : ScopeId) (s : EngineState) : Prop :=
  s₀.heap.scopes.next ≤ scope ∧ InBlocks s₀ root [scope] s

section
variable {s₀ s : EngineState} {root scope : ScopeId}

/-- Binding a variable changes nothing else about a scope. -/
theorem Heap.outlines_bindVar (h : Heap) (scope : ScopeId) (name : String) (v : Value) (id : ScopeId) :
    ((h.bindVar scope name v).scopes.get? id).map Scope.outline =
      (h.scopes.get? id).map Scope.outline := by
  rw [Heap.bindVar, Heap.modifyScope, Store.get?_modify_eq]
  split
  · subst id
    rw [Option.map_map]
    rfl
  · rfl

theorem Heap.outlines_define {h h' : Heap} {name : String} {v : Value}
    (hd : h.define scope name v = .ok h') (id : ScopeId) :
    (h'.scopes.get? id).map Scope.outline = (h.scopes.get? id).map Scope.outline := by
  unfold Heap.define at hd
  obtain ⟨_, _, hd⟩ := Outcome.bind_eq_ok.mp hd
  cases hd
  exact h.outlines_bindVar scope name v id

theorem Heap.outlines_assign {h h' : Heap} {name : String} {v : Value}
    (ha : h.assign scope name v = .ok h') (id : ScopeId) :
    (h'.scopes.get? id).map Scope.outline = (h.scopes.get? id).map Scope.outline := by
  unfold Heap.assign at ha
  split at ha
  · cases ha
    exact h.outlines_bindVar _ name v id
  · exact outlines_define ha id

/-- **Evaluation of code that leaves nothing behind opens scopes in blocks.** -/
theorem entrances_inBlocks (hstart : s₀.Settled root) :
    Entrances (s₀.heap.Around root) (fun id => s₀.heap.Around root (.scope id))
      (fun _ s => InBlocks s₀ root [] s) (fun scope _ s => Loosens s₀ root scope s) (fun _ => True)
      (fun _ => True) .leavingNothing :=
  have hC : Habits (s₀.heap.Around root) (fun id => s₀.heap.Around root (.scope id))
      (fun _ s => Confined (s₀.heap.Around root) s₀.heap root s)
      fun id _ => s₀.heap.Around root (.scope id) :=
    (customs_confined (s₀.heap.encloses_around root)).habits
  { trans := fun _ hs => hs
    stays := fun hs => hs
    zone_of_writable := id
    frames_of_bodies := id
    encloses := fun hs => hs.confined.encloses
    deferred := fun hs => hs.confined.deferred
    started := fun hs => hs.confined.started
    callees := fun hs id hid => Function.in_iff.mpr fun _ hd => by
      have hnone := hs.functions id hid
      rw [hd] at hnone
      cases hnone
    elsewhere := fun hs ha => hs.same (hC.elsewhere (k := .initial) hs.confined ha) ha.heap ha.held
      ha.pinned ha.jobs ha.current ha.lingering ha.reports
    complain := fun hs _ => hs.same (hs.confined.same rfl rfl rfl rfl fun _ _ => id) rfl rfl rfl
      (fun _ _ => id) rfl rfl (List.prefix_refl _)
    heap := fun hs hstays hfabric =>
      hs.heap hstays (fun _ => by rw [Heap.scopes_of_fabric hfabric]) (.ofFabric hfabric)
    newFunc := fun _ _ hdefinition => absurd ⟨_, hdefinition.parts.1⟩ Fragment.not_functional
    register := fun hs hchan =>
      (hs.heap (hs.confined.encloses.modifyChan (f := (·.register)) hchan fun _ _ hbuffer => hbuffer)
        (fun _ => rfl) (.of_eq rfl rfl)).same (hC.register (k := .initial) hs.confined hchan) rfl rfl rfl
        (EngineState.aside_notify _ fun _ _ hn => by cases hn).jobs rfl rfl (List.prefix_refl _)
    define := fun hs hscope hv hd => hs.heap (Heap.stays_define hs.confined.encloses hscope hv hd)
      (Heap.outlines_define hd) (.define hd)
    assign := fun hs hscope hv ha => hs.heap (Heap.stays_assign hs.confined.encloses hscope hv ha)
      (Heap.outlines_assign ha) (.assign ha)
    revise := fun hs hscope _ hv ha => hs.heap (Heap.stays_assign hs.confined.encloses hscope hv ha)
      (Heap.outlines_assign ha) (.assign ha)
    packageNamed := fun hs hscope hp => hC.packageNamed (k := .initial) hs.confined hscope hp
    definePackage := fun _ _ _ hmodular => absurd hmodular Fragment.not_modular
    newFrame := fun hs =>
      ⟨trivial, (hs.frames (deferredIn_push hs.confined.deferred)).hold (x := .frame _) trivial
        (fun _ hid => by cases hid) fun _ => .inr⟩
    defer := fun hs _ hcall => hs.same (hC.defer (k := .initial) hs.confined trivial hcall) rfl rfl rfl
      (fun _ _ => id) rfl rfl (List.prefix_refl _)
    dropDeferred := fun hs _ => hs.same (hC.dropDeferred (k := .initial) hs.confined trivial) rfl rfl rfl
      (fun _ _ => id) rfl rfl (List.prefix_refl _)
    start := fun _ _ hconcurrent => absurd hconcurrent Fragment.not_concurrent
    capture := fun _ _ hcode => (hcode.elim Fragment.not_functional Fragment.not_modular).elim
    hold := fun hs hx => hs.hold (Holding.Loose.is_in hx)
      (fun id hid => absurd (Holding.eq_block hid) (Holding.Loose.ne_block hx id)) fun _ => .inr
    letGo := fun task hs => hs.letGoOf task
    since := fun _ hb => hb
    opened := fun hs hparent hopened => (hs.addChild hstart hparent).1 _ hopened
    refused := fun hs hparent hrefused => (hs.addChild hstart hparent).2 _ hrefused
    entered := fun {_ _ scope} hb =>
      have hin : Holding.In (s₀.heap.Around root) (.block scope) := .inl hb.1
      hb.2.hold hin (fun id hid => by cases hid; exact hb.1) (List.forall_mem_singleton.mpr (.inl rfl))
    between_letGo := fun task hb => ⟨hb.1, hb.2.letGoOf task⟩
    writable_of_between := fun hb => .inl hb.1 }

end

end ScriptEngine
