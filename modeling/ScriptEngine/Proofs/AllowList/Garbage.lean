import ScriptEngine.Proofs.AllowList.Versions

/-! # What ends, ends in both versions

A scope ends when its block does, or when nothing refers to it any more.  The values that a root scope
binds may decide about the latter; but where two versions differ, they refer to objects only that the host
holds in any event, so the same objects are marked in both (`AllowList.Alike.covers_iff`), and collecting
garbage takes the same out of both (`AllowList.Valid.right_collect`).  So scopes are opened and closed in
step.
-/
namespace ScriptEngine

namespace Store
variable {α : Type} {s t : Store α}

theorem ext_get? (hnext : s.next = t.next) (hget : ∀ id, s.get? id = t.get? id) : s = t := by
  obtain ⟨xs⟩ := s
  obtain ⟨ys⟩ := t
  refine congrArg Store.mk (Array.ext hnext fun i hi hi' => ?_)
  have h := hget i
  simp only [get?, Array.getElem?_eq_getElem hi, Array.getElem?_eq_getElem hi', Option.join_some] at h
  exact h

theorem get?_erase_eq (s : Store α) (i id : Nat) :
    (s.erase i).get? id = if id = i then none else s.get? id := by
  split
  · subst id
    exact get?_erase_self s i
  · exact get?_erase_of_ne ‹_›

/-- What is not marked depends on the marks of the objects only. -/
theorem unmarked_congr (hnext : t.next = s.next) (hget : ∀ id, (t.get? id).isSome = (s.get? id).isSome)
    {marks marks' : Array Bool} (hmarks : ∀ id, marks'.getD id true = marks.getD id true) :
    t.unmarked marks' = s.unmarked marks := by
  rw [unmarked_eq, unmarked_eq, hnext]
  refine congrFun (congrArg _ (funext fun id => ?_)) _
  rw [hget, hmarks]

end Store

namespace AllowList
variable {A : AllowList} {vars : Bindings Value} {packages : Bindings ScopeId} {p q : Versions}

/-! ## The same scopes -/

theorem next_swap (scopes : Store Scope) : (A.swap vars packages scopes).next = scopes.next :=
  Store.next_modify _ _ _

theorem swap_get? (scopes : Store Scope) (id : ScopeId) : (A.swap vars packages scopes).get? id =
    (scopes.get? id).map fun c => if id = A.root then { c with vars, packages } else c := by
  unfold swap
  rw [Store.get?_modify_eq]
  split
  · subst id
    rfl
  · rw [Option.map_id']

theorem swap_erase (scopes : Store Scope) (id : ScopeId) :
    A.swap vars packages (scopes.erase id) = (A.swap vars packages scopes).erase id := by
  refine Store.ext_get? (by simp only [next_swap, Store.next_erase]) fun i => ?_
  simp only [swap_get?, Store.get?_erase_eq]
  by_cases hi : i = id
  · simp only [hi, if_true, Option.map_none]
  · simp only [hi, if_false]

theorem swap_push {scopes : Store Scope} (hroot : A.root < scopes.next) (c : Scope) :
    A.swap vars packages (scopes.push c) = (A.swap vars packages scopes).push c := by
  refine Store.ext_get? (by simp only [next_swap, Store.next_push]) fun i => ?_
  simp only [swap_get?, Store.get?_push_eq, next_swap]
  by_cases hi : i = scopes.next
  · have hne : ¬ scopes.next = A.root := (Nat.ne_of_lt hroot).symm
    simp only [hi, if_true, Option.map_some, hne, if_false]
  · simp only [hi, if_false]

theorem swap_modify (scopes : Store Scope) (id : ScopeId) {f : Scope → Scope}
    (hf : ∀ c : Scope, f { c with vars, packages } = { f c with vars, packages }) :
    A.swap vars packages (scopes.modify id f) = (A.swap vars packages scopes).modify id f := by
  refine Store.ext_get? (by simp only [next_swap, Store.next_modify]) fun i => ?_
  simp only [swap_get?, Store.get?_modify_eq]
  by_cases hi : i = id
  · subst i
    simp only [if_true, Option.map_map]
    congr 1
    funext c
    by_cases hid : id = A.root <;> simp [hid, hf]
  · simp only [hi, if_false]

/-! ## The end of a scope -/

section
variable (s : EngineState)

theorem swap_scope {β : Type} (f : Scope → β)
    (hf : ∀ c vars packages, f { c with vars, packages } = f c) (id : ScopeId) :
    f ((s.onScopes (A.swap vars packages)).heap.scope id) = f (s.heap.scope id) :=
  right_scope (A := A) f hf ⟨s, vars, packages⟩ id

theorem eraseScope_swap (id : ScopeId) :
    (s.onScopes (A.swap vars packages)).eraseScope id =
      (s.eraseScope id).onScopes (A.swap vars packages) := by
  have hget : (s.onScopes (A.swap vars packages)).heap.scopes.get? id = _ := swap_get? _ id
  have herase : { (s.onScopes (A.swap vars packages)).heap with
        scopes := (s.onScopes (A.swap vars packages)).heap.scopes.erase id } =
      Heap.onScopes (A.swap vars packages) { s.heap with scopes := s.heap.scopes.erase id } :=
    congrArg (fun scopes => { s.heap with scopes }) (swap_erase _ id).symm
  unfold EngineState.eraseScope
  rw [hget]
  cases s.heap.scopes.get? id with
  | none => rfl
  | some c =>
    have hsame (d : Scope) (hd : d = if id = A.root then { c with vars, packages } else c) :
        d.counted = c.counted ∧ d.governor = c.governor ∧ d.captured = c.captured := by
      subst hd
      split <;> exact ⟨rfl, rfl, rfl⟩
    obtain ⟨hcounted, hgovernor, hcaptured⟩ := hsame _ rfl
    simp only [Option.map_some, hcounted, hgovernor, hcaptured, EngineState.modifyHeap]
    rw [herase]
    split <;> rfl

theorem eraseScopes_swap (ids : List ScopeId) :
    ids.foldl EngineState.eraseScope (s.onScopes (A.swap vars packages)) =
      (ids.foldl EngineState.eraseScope s).onScopes (A.swap vars packages) := by
  induction ids generalizing s with
  | nil => rfl
  | cons id rest ih => rw [List.foldl_cons, List.foldl_cons, eraseScope_swap, ih]

theorem giveBack_swap (x : Holding) : (s.onScopes (A.swap vars packages)).giveBack x =
    (s.giveBack x).onScopes (A.swap vars packages) := by
  cases x with
  | block id =>
    simp only [EngineState.giveBack]
    rw [swap_scope s Scope.captured (fun _ _ _ => rfl), eraseScope_swap]
    split <;> rfl
  | _ => rfl

theorem letGoOf_swap (task : TaskId) : (s.onScopes (A.swap vars packages)).letGoOf task =
    (s.letGoOf task).onScopes (A.swap vars packages) := by
  unfold EngineState.letGoOf
  rw [show (s.onScopes (A.swap vars packages)).held = s.held from rfl]
  split
  · rename_i x rest _
    exact giveBack_swap { s with held := s.held.set task rest } x
  · rfl

theorem unwind_swap (task : TaskId) (keep : Nat) :
    (s.onScopes (A.swap vars packages)).unwind task keep =
      (s.unwind task keep).onScopes (A.swap vars packages) := by
  unfold EngineState.unwind
  rw [show (s.onScopes (A.swap vars packages)).holdCount task = s.holdCount task from rfl]
  induction s.holdCount task - keep with
  | zero => rfl
  | succ n ih =>
    simp only [Nat.repeat, ih]
    exact letGoOf_swap _ task

theorem capture_swap (scope : ScopeId) : (s.onScopes (A.swap vars packages)).capture scope =
    (s.capture scope).onScopes (A.swap vars packages) := by
  unfold EngineState.capture
  have haround : ((s.onScopes (A.swap vars packages)).heap.chain scope).takeWhile
        (fun id => !((s.onScopes (A.swap vars packages)).heap.scope id).captured) =
      (s.heap.chain scope).takeWhile fun id => !(s.heap.scope id).captured := by
    simp only [swap_scope s Scope.captured (fun _ _ _ => rfl)]
    rw [show (s.onScopes (A.swap vars packages)).heap.chain scope = s.heap.chain scope from
      right_chain (A := A) ⟨s, vars, packages⟩ scope]
  simp only [haround]
  clear haround
  generalize (s.heap.chain scope).takeWhile (fun id => !(s.heap.scope id).captured) = around
  induction around generalizing s with
  | nil => rfl
  | cons id rest ih =>
    rw [List.foldl_cons, List.foldl_cons, ← ih]
    congr 1
    simp only [swap_scope s Scope.counted (fun _ _ _ => rfl)]
    have hmodify : A.swap vars packages (s.heap.scopes.modify id fun c => { c with captured := true }) =
        (A.swap vars packages s.heap.scopes).modify id fun c => { c with captured := true } :=
      swap_modify s.heap.scopes id fun _ => rfl
    exact congrArg (fun scopes => { s with
      heap := { s.heap with scopes }
      lingering := s.lingering + if (s.heap.scope id).counted then 1 else 0 }) hmodify.symm

end

/-! ## Garbage -/

section
variable {α : Type} {objects : α → List Object} {s : EngineState} {o : Object}

/-- What the entries refer to is the same, apart from what the host holds. -/
theorem mem_of_counterparts {xs ys : List (String × α)}
    (h : List.Forall₂ (A.Counterpart objects s) xs ys) :
    (o ∈ ys.flatMap (objects ·.2) → o ∈ xs.flatMap (objects ·.2) ∨ s.Secures o) ∧
      (o ∈ xs.flatMap (objects ·.2) → o ∈ ys.flatMap (objects ·.2) ∨ s.Secures o) := by
  induction h with
  | nil => exact ⟨.inl, .inl⟩
  | @cons x y _ _ hxy _ ih =>
    simp only [List.flatMap_cons, List.mem_append]
    obtain hsame | ⟨-, hheld⟩ := hxy.value
    · rw [hsame, or_assoc, or_assoc]
      exact ⟨Or.imp_right ih.1, Or.imp_right ih.2⟩
    · simp only [List.mem_append] at hheld
      exact ⟨fun ho => ho.elim (fun ho => .inr (hheld o (.inr ho))) fun ho => (ih.1 ho).imp_left .inr,
        fun ho => ho.elim (fun ho => .inr (hheld o (.inl ho))) fun ho => (ih.2 ho).imp_left .inr⟩

theorem mem_scopeObjects {c : Scope} : o ∈ c.objects ↔
    o ∈ c.vars.entries.flatMap (varObjects ·.2) ∨
      o ∈ c.packages.entries.flatMap (packageObjects ·.2) ∨ o ∈ c.parent.toList.map .scope := by
  have hvars : Value.objects c.vars.values = c.vars.entries.flatMap (varObjects ·.2) := by
    unfold Bindings.values Value.objects
    induction c.vars.entries with
    | nil => rfl
    | cons x rest ih =>
      rw [List.map_cons, ← List.singleton_append, List.filterMap_append, ih]
      rfl
  have hpackages : c.packages.values.map .scope = c.packages.entries.flatMap (packageObjects ·.2) := by
    rw [Bindings.values, List.map_map, ← List.flatMap_pure_eq_map]
    rfl
  rw [Scope.objects, hvars, hpackages, List.mem_append, List.mem_append, or_assoc]

theorem anchored_of_secures (ho : s.Secures o) : s.Anchored o :=
  ho.elim (fun ho => have ⟨_, hid, he⟩ := List.mem_map.mp ho; .pinned hid he.symm) .reported

/-- What is no object refers to the same objects, whatever scopes there are. -/
theorem anchored_onScopes (g : Store Scope → Store Scope) :
    (s.onScopes g).Anchored o ↔ s.Anchored o := by
  constructor
  · rintro (⟨hid, ho⟩ | ⟨hxs, ho⟩ | ⟨hcalls, ho⟩ | ho)
    · exact .pinned hid ho
    · exact .held hxs ho
    · exact .deferred hcalls ho
    · exact .reported ho
  · rintro (⟨hid, ho⟩ | ⟨hxs, ho⟩ | ⟨hcalls, ho⟩ | ho)
    · exact .pinned hid ho
    · exact .held hxs ho
    · exact .deferred hcalls ho
    · exact .reported ho

end

namespace Alike
variable (hp : A.Alike p) {o : Object}
include hp

/-- What objects refer to is the same, apart from what the host holds. -/
theorem mentions : ((A.right p).heap.Mentions o → p.left.heap.Mentions o ∨ p.left.Secures o) ∧
    (p.left.heap.Mentions o → (A.right p).heap.Mentions o ∨ p.left.Secures o) := by
  -- The only cell that is not the same in both versions is that of the root scope.
  have hcell (x : Object) : (A.right p).heap.cell? x = p.left.heap.cell? x ∨ ∃ c,
      p.left.heap.cell? x = some (.scope c) ∧ p.cell? A.root = some c ∧
        (A.right p).heap.cell? x = some (.scope { c with vars := p.vars, packages := p.packages }) := by
    cases x with
    | scope id =>
      have hleft : p.left.heap.cell? (.scope id) = (p.cell? id).map .scope := rfl
      have hright : (A.right p).heap.cell? (.scope id) =
          ((A.right p).heap.scopes.get? id).map .scope := rfl
      rw [hleft, hright, right_get?]
      by_cases hid : id = A.root
      · subst id
        rw [if_pos rfl]
        cases hc : p.cell? A.root with
        | none => exact .inl rfl
        | some c => exact .inr ⟨c, rfl, rfl, rfl⟩
      · rw [if_neg hid]
        exact .inl rfl
    | _ => exact .inl rfl
  have hroot {c : Scope} (hc : p.cell? A.root = some c) :
      (o ∈ Scope.objects { c with vars := p.vars, packages := p.packages } →
        o ∈ c.objects ∨ p.left.Secures o) ∧
      (o ∈ c.objects →
        o ∈ Scope.objects { c with vars := p.vars, packages := p.packages } ∨ p.left.Secures o) := by
    rw [mem_scopeObjects, mem_scopeObjects]
    have hvars := mem_of_counterparts (o := o) (hp.vars hc)
    have hpackages := mem_of_counterparts (o := o) (hp.packages hc)
    constructor
    · rintro (ho | ho | ho)
      · exact (hvars.1 ho).imp_left .inl
      · exact (hpackages.1 ho).imp_left fun ho => .inr (.inl ho)
      · exact .inl (.inr (.inr ho))
    · rintro (ho | ho | ho)
      · exact (hvars.2 ho).imp_left .inl
      · exact (hpackages.2 ho).imp_left fun ho => .inr (.inl ho)
      · exact .inl (.inr (.inr ho))
  constructor
  · rintro ⟨x, cell, hx, ho⟩
    obtain hsame | ⟨c, hl, hc, hr⟩ := hcell x
    · exact .inl ⟨x, cell, hsame ▸ hx, ho⟩
    · cases hx.symm.trans hr
      exact ((hroot hc).1 ho).imp_left fun ho => ⟨x, _, hl, ho⟩
  · rintro ⟨x, cell, hx, ho⟩
    obtain hsame | ⟨c, hl, hc, hr⟩ := hcell x
    · exact .inl ⟨x, cell, hsame ▸ hx, ho⟩
    · cases hx.symm.trans hl
      exact ((hroot hc).2 ho).imp_left fun ho => ⟨x, _, hr, ho⟩

/-- **The same objects are marked.** -/
theorem covers_iff : (A.right p).marks.Covers o ↔ p.left.marks.Covers o := by
  have hunused : (A.right p).heap.Unused o ↔ p.left.heap.Unused o := by
    cases o with
    | scope id => exact Iff.of_eq (congrArg (· ≤ id) (next_swap _))
    | _ => exact .rfl
  rw [EngineState.covers_iff, EngineState.covers_iff, hunused, right, anchored_onScopes]
  refine or_congr_right ⟨?_, ?_⟩
  · rintro (ho | ho)
    · exact .inl ho
    · exact (hp.mentions.1 ho).symm.imp_left anchored_of_secures
  · rintro (ho | ho)
    · exact .inl ho
    · exact (hp.mentions.2 ho).symm.imp_left anchored_of_secures

end Alike

/-! ## Collecting -/

/-- What is taken out takes nothing of what is known. -/
theorem thins_of_prunes {s s' : EngineState} (hp : s.Prunes s') (ha : s.Apart s') : Thins s s' where
  next_eq := hp.nextScope
  cell id := by
    cases hc : s'.heap.scopes.get? id with
    | none => exact .inl rfl
    | some c => exact .inr ⟨c, c, hp.scope_of hc, rfl, rfl, rfl, rfl⟩
  closure id x hx := by
    have hcell {s : EngineState} : s.heap.cell? (.func id) = (s.heap.funcs.get? id).map .func := rfl
    unfold Heap.func at hx ⊢
    cases hf : s'.heap.funcs.get? id with
    | none =>
      rw [hf] at hx
      cases hx
    | some f =>
      obtain ⟨g, hg, hsame⟩ := Option.map_eq_some_iff.mp (hp.cell_of (hcell.trans (by rw [hf]; rfl)))
      cases hsame
      rwa [hg, ← hf]
  held o ho := by
    unfold EngineState.Secures
    rw [ha.pinned, ha.reports]
    exact ho

namespace Valid
variable (hp : A.Valid p)
include hp

/-- **A sweep takes the same out of both versions.** -/
theorem right_sweep :
    (A.right p).sweep.1 = p.left.sweep.1.onScopes (A.swap p.vars p.packages) ∧
      (A.right p).sweep.2 = p.left.sweep.2 := by
  have hmarked (o : Object) := hp.toAlike.covers_iff (o := o)
  have hlists := Store.unmarked_congr (s := p.left.heap.lists) rfl (fun _ => rfl)
    fun id => Bool.eq_iff_iff.mpr (hmarked (.list id))
  have hmaps := Store.unmarked_congr (s := p.left.heap.maps) rfl (fun _ => rfl)
    fun id => Bool.eq_iff_iff.mpr (hmarked (.map id))
  have hfuncs := Store.unmarked_congr (s := p.left.heap.funcs) rfl (fun _ => rfl)
    fun id => Bool.eq_iff_iff.mpr (hmarked (.func id))
  have hchans := Store.unmarked_congr (s := p.left.heap.chans) rfl (fun _ => rfl)
    fun id => Bool.eq_iff_iff.mpr (hmarked (.chan id))
  have hhandles := Store.unmarked_congr (s := p.left.heap.handles) rfl (fun _ => rfl)
    fun id => Bool.eq_iff_iff.mpr (hmarked (.handle id))
  have hscopes := Store.unmarked_congr (s := p.left.heap.scopes)
    (t := A.swap p.vars p.packages p.left.heap.scopes) (next_swap _)
    (fun id => by rw [swap_get?, Option.isSome_map])
    fun id => Bool.eq_iff_iff.mpr (hmarked (.scope id))
  constructor
  · have hpruned : (A.right p).pruned = p.left.pruned.onScopes (A.swap p.vars p.packages) := by
      unfold EngineState.pruned EngineState.modifyHeap Heap.pruned
      rw [show (A.right p).heap = p.left.heap.onScopes (A.swap p.vars p.packages) from rfl]
      simp only [Heap.onScopes, hlists, hmaps, hfuncs, hchans, hhandles]
      rfl
    rw [EngineState.sweep_eq, EngineState.sweep_eq, hpruned, eraseScopes_swap]
    exact congrArg (fun ids : List ScopeId =>
      (ids.foldl EngineState.eraseScope p.left.pruned).onScopes (A.swap p.vars p.packages)) hscopes
  · unfold EngineState.sweep
    rw [show (A.right p).heap = p.left.heap.onScopes (A.swap p.vars p.packages) from rfl]
    simp only [Heap.onScopes, hlists, hmaps, hfuncs, hchans, hhandles, hscopes]

theorem sweep : A.Later p { p with left := p.left.sweep.1 } :=
  hp.thins (thins_of_prunes (EngineState.prunes_sweep _) (EngineState.apart_sweep _))

/-- **Collecting garbage takes the same out of both versions.** -/
theorem right_collect :
    (A.right p).collect = p.left.collect.onScopes (A.swap p.vars p.packages) := by
  have hupTo (fuel : Nat) {p : Versions} (hp : A.Valid p) :
      EngineState.collectUpTo fuel (A.right p) =
        (EngineState.collectUpTo fuel p.left).onScopes (A.swap p.vars p.packages) := by
    induction fuel generalizing p with
    | zero => rfl
    | succ fuel ih =>
      have hlater := hp.sweep.valid
      obtain ⟨hswept, hfound⟩ := hp.right_sweep
      unfold EngineState.collectUpTo
      cases hl : p.left.sweep with
      | mk t found =>
        cases hr : (A.right p).sweep with
        | mk t' found' =>
          rw [hl] at hswept hfound hlater
          rw [hr] at hswept hfound
          cases hswept
          cases hfound
          cases found with
          | true => exact ih hlater
          | false => rfl
  have hcount : (A.right p).objectCount = p.left.objectCount :=
    congrArg (p.left.heap.lists.next + p.left.heap.maps.next + p.left.heap.funcs.next +
      p.left.heap.chans.next + p.left.heap.handles.next + ·) (next_swap _)
  have hlingering : (A.right p).lingering = p.left.lingering := rfl
  unfold EngineState.collect
  rw [hcount, hlingering]
  split
  · rfl
  · exact hupTo _ hp

theorem collect : A.Later p { p with left := p.left.collect } :=
  hp.thins (thins_of_prunes (EngineState.prunes_collect _) (EngineState.apart_collect _))

end Valid

/-! ## Nothing else is taken -/

section
variable (s : EngineState)

theorem thins_capture (scope : ScopeId) : Thins s (s.capture scope) := by
  unfold EngineState.capture
  generalize (s.heap.chain scope).takeWhile (fun id => !(s.heap.scope id).captured) = around
  induction around generalizing s with
  | nil => exact thins_of_fabric rfl fun _ => id
  | cons id rest ih =>
    refine Thins.trans ?_ (ih _)
    refine ⟨Store.next_modify _ _ _, fun other => ?_, fun _ _ h => h, fun _ h => h⟩
    simp only [EngineState.modifyHeap, Heap.modifyScope, Store.get?_modify_eq]
    split
    · subst other
      cases hc : s.heap.scopes.get? id with
      | none => exact .inl rfl
      | some c => exact .inr ⟨c, _, rfl, rfl, rfl, rfl, rfl⟩
    · cases hc : s.heap.scopes.get? other with
      | none => exact .inl rfl
      | some c => exact .inr ⟨c, c, rfl, rfl, rfl, rfl, rfl⟩

theorem thins_giveBack (x : Holding) : Thins s (s.giveBack x) := by
  cases x with
  | block id =>
    simp only [EngineState.giveBack]
    split
    · exact thins_of_fabric rfl fun _ h => h
    · exact thins_of_prunes (EngineState.prunes_eraseScope s id) (EngineState.apart_eraseScope s id)
  | _ => exact thins_of_fabric rfl fun _ => id

theorem thins_letGoOf (task : TaskId) : Thins s (s.letGoOf task) := by
  unfold EngineState.letGoOf
  split
  · rename_i x rest _
    have htaken : Thins s { s with held := s.held.set task rest } :=
      thins_of_fabric rfl fun _ => id
    exact htaken.trans (thins_giveBack _ x)
  · exact thins_of_fabric rfl fun _ => id

theorem thins_unwind (task : TaskId) (keep : Nat) : Thins s (s.unwind task keep) := by
  unfold EngineState.unwind
  induction s.holdCount task - keep with
  | zero => exact thins_of_fabric rfl fun _ => id
  | succ n ih => exact ih.trans (thins_letGoOf _ task)

end

end AllowList
end ScriptEngine
