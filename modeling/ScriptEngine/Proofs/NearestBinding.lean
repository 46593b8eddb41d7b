import ScriptEngine.Evaluator.Basic
import ScriptEngine.Proofs.Heap.Chains
import ScriptEngine.Proofs.ScopeCeiling
import ScriptEngine.Proofs.Task.Equations

/-! # Assignment writes the nearest binding

A name is assigned to in the scope that resolves it, and where none does, it is defined in the scope of
the assignment itself, unless it is not an identifier.  `assignment_writes_nearest` says that one binding
is written and nothing else, and for every scope of the tree and every name what the name means there
afterwards.
-/
namespace ScriptEngine

namespace Heap
variable {h h' : Heap} {scope b : ScopeId} {n : String} {v : Value}

/-- **The value was assigned in the scope `b`**: the name has it here, and wherever else `b` resolves the
name; whatever else a name means in any scope, it still does. -/
structure Assigned (scope : ScopeId) (n : String) (v : Value) (b : ScopeId) (h h' : Heap) : Prop where
  bound : Rebound b n v h h'
  nested : h'.Nested
  value : h'.lookup? scope n = some v
  resolved : ∀ t, h'.Resolves n t b → h'.lookup? t n = some v
  others : ∀ t m, ¬ (m = n ∧ h'.Resolves n t b) → h'.lookup? t m = h.lookup? t m

/-- What is bound where a search from the scope comes to is assigned. -/
theorem Rebound.assigned (hb : Rebound b n v h h') (hn : h.Nested) (hsearch : h.Search n b scope) :
    Assigned scope n v b h h' := by
  have hn' := hb.nested hn
  have hresolved (t : ScopeId) (ht : h'.Resolves n t b) : h'.lookup? t n = some v := by
    rw [hb.lookup?, if_pos ⟨rfl, (binder?_eq_some_iff hn').mpr ht⟩]
  refine ⟨hb, hn', hresolved _ ((hb.resolves_iff_of_search hsearch).mpr rfl), hresolved,
    fun t m ht => ?_⟩
  rw [hb.lookup?, if_neg]
  rintro ⟨rfl, hbinder⟩
  exact ht ⟨rfl, (binder?_eq_some_iff hn').mp hbinder⟩

end Heap

/-! ## Trees of scopes -/

/-- A new scope inside an older one is a new leaf. -/
theorem Heap.Nested.push {h : Heap} (hn : h.Nested) {x : Scope}
    (hx : ∀ p, x.parent = some p → p < h.scopes.next) :
    Heap.Nested { h with scopes := h.scopes.push x } := by
  intro t p ht
  unfold Heap.scope at ht
  by_cases hnew : t = h.scopes.next
  · subst t
    rw [Store.get?_push_next] at ht
    exact hx p ht
  · rw [Store.get?_push_of_ne hnew] at ht
    exact hn ht

namespace EngineState
variable {s s' : EngineState}

/-- What is left of trees of scopes are trees. -/
theorem Prunes.nested (hp : Prunes s s') (hn : s.heap.Nested) : s'.heap.Nested := by
  intro t p ht
  rcases hp.cell (.scope t) with hgone | hsame
  · unfold Heap.scope at ht
    rw [Option.map_eq_none_iff.mp hgone] at ht
    cases ht
  · refine hn (s := t) (Eq.trans ?_ ht)
    unfold Heap.scope
    rw [Option.map_injective (fun _ _ h => Cell.scope.inj h) hsame]

/-- **Opening scopes inside others makes trees.** -/
theorem nested_addChild (hn : s.heap.Nested) {parent : ScopeId}
    (hparent : parent < s.heap.scopes.next) : (s.addChild parent).2.heap.Nested := by
  have hp := prunes_tidied s (s.heap.scope parent).governor
  rw [addChild_eq rfl rfl]
  split
  · exact hp.nested hn
  · refine (hp.nested hn).push fun p hparent' => ?_
    obtain rfl := Option.some.inj hparent'
    rwa [hp.nextScope]

end EngineState

/-! ## Assignments and definitions -/

namespace Heap
variable {h : Heap} {scope b : ScopeId} {n : String} (v : Value)

theorem assign_of_binder? (hb : h.binder? scope n = some b) :
    h.assign scope n v = .ok (h.bindVar b n v) := by
  rw [assign, hb]

theorem assign_of_not_binder? (hb : h.binder? scope n = none) :
    h.assign scope n v = h.define scope n v := by
  rw [assign, hb]

end Heap

/-- **Assignment writes the nearest binding**, or a new one in the scope itself, and fails only where
there is none and the name is not an identifier.  **A definition** writes in the scope itself; the
searches that come to this scope end there from then on, and all other names are resolved as before. -/
theorem assignment_writes_nearest {s : EngineState} (hn : s.heap.Nested) {scope : ScopeId}
    (hscope : (s.heap.scopes.get? scope).isSome = true) (n : String) (v : Value) :
    ((∀ b, s.heap.WayOut scope b → (s.heap.scope b).vars.contains n = false) ∧
        isIdentifier n = false ∧
        Eval.assign scope n v s = .done (s.complain (.name n))
          (.error { fault := .invalidOperation (Misfit.name n).message }) ∨
      ∃ b h', (s.heap.Resolves n scope b ∨
          (∀ b, s.heap.WayOut scope b → (s.heap.scope b).vars.contains n = false) ∧
            isIdentifier n = true ∧ b = scope) ∧
        Eval.assign scope n v s = .done { s with heap := h' } (.ok ()) ∧
        Heap.Assigned scope n v b s.heap h') ∧
    (isIdentifier n = true → ∃ h', Eval.define scope n v s = .done { s with heap := h' } (.ok ()) ∧
      Heap.Assigned scope n v scope s.heap h' ∧
      (∀ t b, s.heap.Search n scope t → (h'.Resolves n t b ↔ b = scope)) ∧
      ∀ t m b, ¬ (m = n ∧ s.heap.Search n scope t) → (h'.Resolves m t b ↔ s.heap.Resolves m t b)) := by
  have hdefined : Heap.Rebound scope n v s.heap (s.heap.bindVar scope n v) :=
    Heap.rebound_bindVar hscope n v
  refine ⟨?_, fun hname => ?_⟩
  · cases hbinder : s.heap.binder? scope n with
    | some b =>
      have hresolves := (Heap.binder?_eq_some_iff hn).mp hbinder
      have hbound := Heap.rebound_bindVar (Heap.isSome_of_contains hresolves.binds) n v
      exact .inr ⟨b, _, .inl hresolves, Eval.bindName_ok (Heap.assign_of_binder? v hbinder),
        hbound.assigned hn hresolves.search⟩
    | none =>
      have hfree := (Heap.binder?_eq_none_iff hn).mp hbinder
      have hdefine := (Heap.assign_of_not_binder? v hbinder).trans (Heap.define_eq _ _ _ _)
      cases hname : isIdentifier n with
      | true =>
        rw [hname, if_pos rfl] at hdefine
        exact .inr ⟨scope, _, .inr ⟨hfree, rfl, rfl⟩, Eval.bindName_ok hdefine,
          hdefined.assigned hn .here⟩
      | false =>
        rw [hname, if_neg Bool.false_ne_true] at hdefine
        exact .inl ⟨hfree, rfl, Eval.bindName_error (f := (·.assign scope n v)) hdefine⟩
  · have hdefine : s.heap.define scope n v = .ok (s.heap.bindVar scope n v) := by
      rw [Heap.define_eq, if_pos hname]
    exact ⟨_, Eval.bindName_ok hdefine, hdefined.assigned hn .here,
      fun t b hsearch => hdefined.resolves_iff_of_search hsearch,
      fun t m b hsearch => hdefined.resolves_iff hsearch⟩

/-- A scope binds `x` and another one inside it does so, too; the third is inside the second, the last
inside the first. -/
def shadowingScopes : Store Scope :=
  let outer : Scope := { vars := ⟨[("x", .int 1)]⟩ }
  let inner : Scope := { vars := ⟨[("x", .int 2)]⟩, parent := some 0 }
  (((Store.push {} outer).push inner).push { parent := some 1 }).push { parent := some 0 }

/-- The engine with these scopes. -/
def shadowing : EngineState := { EngineState.initial with heap := { scopes := shadowingScopes } }

theorem nested_shadowing : shadowing.heap.Nested := by
  have hempty : Heap.Nested {} := fun _ _ hp => nomatch hp
  have houter := hempty.push (x := { vars := ⟨[("x", .int 1)]⟩ }) nofun
  have hinner := houter.push (x := { vars := ⟨[("x", .int 2)]⟩, parent := some 0 })
    (by rintro p ⟨⟩; decide)
  have hthird := hinner.push (x := { parent := some 1 }) (by rintro p ⟨⟩; decide)
  exact hthird.push (x := { parent := some 0 }) (by rintro p ⟨⟩; decide)

/-- In the third scope, `x` is the one that the second binds; the last scope does not notice. -/
theorem assignment_writes_nearest_shadowing :
    ∃ h', Eval.assign 2 "x" (.int 7) shadowing = .done { shadowing with heap := h' } (.ok ()) ∧
      Heap.Assigned 2 "x" (.int 7) 1 shadowing.heap h' ∧ h'.lookup? 3 "x" = some (.int 1) := by
  have hthere : shadowing.heap.Resolves "x" 2 1 := ⟨rfl, .around rfl rfl .here⟩
  have hscope : (shadowing.heap.scopes.get? 2).isSome = true := rfl
  obtain ⟨⟨hfree, -⟩ | ⟨b, h', hb | ⟨hfree, -⟩, hassign, hassigned⟩, -⟩ :=
    assignment_writes_nearest nested_shadowing hscope "x" (.int 7)
  · exact absurd (hfree 1 (.single rfl)) (by decide)
  · obtain rfl := hb.unique hthere
    refine ⟨h', hassign, hassigned, ?_⟩
    cases hassign
    rfl
  · exact absurd (hfree 1 (.single rfl)) (by decide)

end ScriptEngine
