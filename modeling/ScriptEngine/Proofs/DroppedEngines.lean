import ScriptEngine.Engine
import ScriptEngine.Proofs.Heap.Clearing

/-! # Engines that end

An engine that owns its root scope clears it in the end, and with it every package that the scope holds at any
depth.  Packages may be shared: the host may hold one, and other engines may have registered it.  They all lose
it (`drop_empties_shared_package`).  Whoever asks a scope whose way out passes no such package, or the root
scope itself, gets the same answers as before (`drop_clears_packages`).
-/
namespace ScriptEngine

theorem List.findSome?_congr {α β : Type} {f g : α → Option β} {l : List α} (hfg : ∀ a ∈ l, f a = g a) :
    l.findSome? f = l.findSome? g := by
  induction l with
  | nil => rfl
  | cons a l ih =>
    rw [List.findSome?_cons, List.findSome?_cons, hfg a List.mem_cons_self,
      ih fun b hb => hfg b (List.mem_cons_of_mem a hb)]

namespace Heap
variable {h h' : Heap} {S : Set ScopeId} {x : ScopeId}

/-- **The scope answers as before**, whatever variable, type or package it is asked for. -/
structure AnswersAlike (h : Heap) (x : ScopeId) (h' : Heap) : Prop where
  value : ∀ name, h'.lookup? x name = h.lookup? x name
  type : ∀ name, h'.typeNamed? x name = h.typeNamed? x name
  package : ∀ name, h'.packageNamed? x name = h.packageNamed? x name

/-- **The scope has no answers**: no name stands for anything in it. -/
structure Silent (h : Heap) (x : ScopeId) : Prop where
  value : ∀ name, h.lookup? x name = none
  type : ∀ name, h.typeNamed? x name = none
  package : ∀ name, h.packageNamed? x name = none

theorem Cleared.answersAlike (hc : Cleared S h h') (hx : ∀ t ∈ h.chain x, t ∉ S) :
    h.AnswersAlike x h' := by
  have hsame : ∀ t ∈ h.chain x, h'.scope t = h.scope t := fun t ht => hc.scope_of_notMem (hx t ht)
  constructor <;> intro name
  · rw [lookup?, lookup?, hc.chain]
    exact List.findSome?_congr fun t ht => by rw [hsame t ht]
  · rw [typeNamed?, typeNamed?, hc.chain]
    exact List.findSome?_congr fun t ht => by rw [hsame t ht]
  · rw [packageNamed?, packageNamed?, hc.chain]
    exact List.findSome?_congr fun t ht => by rw [hsame t ht]

theorem Cleared.silent (hc : Cleared S h h') (hx : ∀ t ∈ h.chain x, t ∈ S) : h'.Silent x := by
  have hempty : ∀ t ∈ h.chain x, h'.scope t = (h.scope t).cleared :=
    fun t ht => hc.scope_of_mem (hx t ht)
  constructor <;> intro name
  · rw [lookup?, hc.chain, List.findSome?_eq_none_iff]
    exact fun t ht => by rw [hempty t ht]; rfl
  · rw [typeNamed?, hc.chain, List.findSome?_eq_none_iff]
    exact fun t ht => by rw [hempty t ht]; rfl
  · rw [packageNamed?, hc.chain, List.findSome?_eq_none_iff]
    exact fun t ht => by rw [hempty t ht]; rfl

end Heap

namespace Engine
variable {s : EngineState} {e : Engine}

theorem heap_drop_of_owns (howns : e.ownsScope = true) : (e.drop s).heap = s.heap.clear e.scope := by
  rw [drop, if_pos howns]
  rfl

theorem heap_drop_of_not_owns (howns : e.ownsScope = false) : (e.drop s).heap = s.heap := by
  rw [drop, if_neg (Bool.eq_false_iff.mp howns)]
  rfl

/-- **What ends with an engine.**  If the engine does not own its scope, nothing changes.  In any case a scope
answers as before if no scope on the way out of it is the engine's own scope or a package at some depth inside.
But these are cleared, whoever else holds them: what asks nobody else has no answers, provided that no package
stands inside itself. -/
theorem drop_clears_packages (s : EngineState) (e : Engine) :
    (e.ownsScope = false → (e.drop s).heap = s.heap) ∧
    (∀ x, (e.ownsScope = true → ∀ t ∈ s.heap.chain x, ¬s.heap.PacksWithin e.scope t) →
      s.heap.AnswersAlike x (e.drop s).heap) ∧
    (e.ownsScope = true → s.heap.Acyclic e.scope →
      Heap.Cleared (s.heap.packedWithin e.scope) s.heap (e.drop s).heap ∧
      ∀ x, (∀ t ∈ s.heap.chain x, s.heap.PacksWithin e.scope t) → (e.drop s).heap.Silent x) := by
  refine ⟨heap_drop_of_not_owns, fun x hx => ?_, fun howns hacyclic => ?_⟩
  · cases howns : e.ownsScope with
    | false =>
      rw [heap_drop_of_not_owns howns]
      exact ⟨fun _ => rfl, fun _ => rfl, fun _ => rfl⟩
    | true =>
      obtain ⟨S, hS, hcleared⟩ := Heap.exists_cleared_clear s.heap e.scope
      rw [heap_drop_of_owns howns]
      exact hcleared.answersAlike fun t ht hmem => hx howns t ht (hS hmem)
  · rw [heap_drop_of_owns howns]
    have hcleared := Heap.cleared_clear hacyclic
    exact ⟨hcleared, fun x hx => hcleared.silent hx⟩

/-! ## A shared package -/

def withoutBuiltins : Config := { coreBuiltins := false }

def firstEngine : Engine × EngineState := new {} withoutBuiltins

def secondEngine : Engine × EngineState := new firstEngine.2 withoutBuiltins

/-- Two engines, over the scopes 0 and 1.  Both have registered the package 2, in which `x` is 1; the second one
also has the package 3, in which `y` is 2. -/
def sharing : EngineState :=
  let (p, s) := secondEngine.2.addRoot firstEngine.1.governor
  let (q, s) := s.addRoot secondEngine.1.governor
  let filled : Result Heap := do
    let h ← ofOutcome (s.heap.define p "x" (.int 1))
    let h ← ofOutcome (h.define q "y" (.int 2))
    let h ← definePackage h firstEngine.1 "p" p
    let h ← definePackage h secondEngine.1 "p" p
    definePackage h secondEngine.1 "q" q
  s.modifyHeap fun h => filled.toOption.getD h

theorem packs_sharing_root {p : ScopeId} : sharing.heap.Packs 0 p ↔ p = 2 := by
  have hvalues : (sharing.heap.scope 0).packages.values = [2] := by decide
  rw [Heap.Packs, hvalues, List.mem_singleton]

theorem not_packs_sharing_package {p : ScopeId} : ¬sharing.heap.Packs 2 p := by
  have hvalues : (sharing.heap.scope 2).packages.values = [] := by decide
  rw [Heap.Packs, hvalues]
  exact List.not_mem_nil

theorem packsWithin_sharing {t : ScopeId} (ht : sharing.heap.PacksWithin 0 t) : t = 0 ∨ t = 2 := by
  have hclosed : sharing.heap.PackClosed {0, 2} := by
    rintro t (rfl | rfl) p hp
    · exact .inr (packs_sharing_root.mp hp)
    · exact absurd hp not_packs_sharing_package
  exact hclosed.packedWithin_subset (Set.mem_insert 0 _) ht

/-- Once the first engine has ended, the second one and its own package answer as before; the shared package
and the root scope of the first engine do not answer any more. -/
theorem drop_clears_packages_sharing :
    sharing.heap.AnswersAlike 1 (firstEngine.1.drop sharing).heap ∧
    sharing.heap.AnswersAlike 3 (firstEngine.1.drop sharing).heap ∧
    (firstEngine.1.drop sharing).heap.Silent 2 ∧ (firstEngine.1.drop sharing).heap.Silent 0 := by
  obtain ⟨-, halike, hsilent⟩ := drop_clears_packages sharing firstEngine.1
  have halone : ∀ x < 4, ∀ t ∈ sharing.heap.chain x, t = x := by decide
  have hacyclic : sharing.heap.Acyclic 0 := by
    intro t ht hself
    obtain ⟨p, hp, hback⟩ := Relation.TransGen.head'_iff.mp hself
    obtain rfl | rfl := packsWithin_sharing ht
    · obtain rfl := packs_sharing_root.mp hp
      obtain heq | ⟨q, hq, -⟩ := Relation.ReflTransGen.cases_head hback
      · cases heq
      · exact not_packs_sharing_package hq
    · exact not_packs_sharing_package hp
  obtain ⟨-, hsilent⟩ := hsilent rfl hacyclic
  refine ⟨halike 1 fun _ t ht hpacks => ?_, halike 3 fun _ t ht hpacks => ?_, hsilent 2 fun t ht => ?_,
    hsilent 0 fun t ht => ?_⟩
  · obtain rfl := halone 1 (by decide) t ht
    exact absurd (packsWithin_sharing hpacks) (by decide)
  · obtain rfl := halone 3 (by decide) t ht
    exact absurd (packsWithin_sharing hpacks) (by decide)
  · obtain rfl := halone 2 (by decide) t ht
    exact .single (packs_sharing_root.mpr rfl)
  · obtain rfl := halone 0 (by decide) t ht
    exact .refl

/-- **A package is emptied with the first engine that ends**, though another engine has registered it too: its
answers are not the same as before. -/
theorem drop_empties_shared_package :
    ¬∀ (s : EngineState) (a b : Engine) (p : ScopeId), a.ownsScope = true → a.scope ≠ b.scope →
      Relation.TransGen s.heap.Packs a.scope p → Relation.TransGen s.heap.Packs b.scope p →
      s.heap.AnswersAlike p (a.drop s).heap := by
  intro hclaim
  have hfirst : sharing.heap.Packs firstEngine.1.scope 2 := packs_sharing_root.mpr rfl
  have hsecond : sharing.heap.Packs secondEngine.1.scope 2 := by
    rw [Heap.Packs]
    decide
  have halike := hclaim sharing firstEngine.1 secondEngine.1 2 rfl (by decide) (.single hfirst)
    (.single hsecond)
  exact absurd (halike.value "x") (by decide)

end Engine
end ScriptEngine
