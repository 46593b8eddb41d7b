import Mathlib.Data.Set.Insert
import ScriptEngine.Proofs.Heap.Chains
import ScriptEngine.Proofs.Heap.Contents

/-! # Cleared scopes

Clearing a scope takes everything out of it, and out of the packages it holds.  A scope **packs** its
packages (`Heap.Packs`), and **packs within** itself all scopes one comes to in this way, itself included
(`Heap.PacksWithin`).  Who else holds a package plays no role: all that a scope packs within is cleared, and
nothing else is (`Heap.cleared_clear`).  This needs that no package stands inside itself; that nothing else is
cleared does not (`Heap.exists_cleared_clear`).

Clearing works on a heap in which some packages may already be cleared, since packages may share packages.
So the lemmas compare with a heap from before, and add to the set of scopes that have been cleared since.
-/
namespace ScriptEngine

/-- What clearing leaves of a scope. -/
def Scope.cleared (c : Scope) : Scope := { c with vars := .empty, types := .empty, packages := .empty }

@[simp] theorem Scope.cleared_parent (c : Scope) : c.cleared.parent = c.parent := rfl

@[simp] theorem Scope.cleared_packages_values (c : Scope) : c.cleared.packages.values = [] := rfl

namespace Heap
variable {h h' source : Heap} {S T : Set ScopeId} {id p t : ScopeId} {fuel : Nat}

/-- The scope holds the other one as a package. -/
def Packs (h : Heap) (id p : ScopeId) : Prop := p ∈ (h.scope id).packages.values

/-- One comes from the scope to the other one by packages of packages. -/
def PacksWithin (h : Heap) : ScopeId → ScopeId → Prop := Relation.ReflTransGen h.Packs

/-- The scopes that a scope packs within. -/
def packedWithin (h : Heap) (id : ScopeId) : Set ScopeId := {t | h.PacksWithin id t}

/-- **The scopes of a set are cleared**, and nothing else has changed. -/
structure Cleared (S : Set ScopeId) (h h' : Heap) : Prop where
  inside : ∀ t ∈ S, h'.scopes.get? t = (h.scopes.get? t).map Scope.cleared
  outside : ∀ t ∉ S, h'.scopes.get? t = h.scopes.get? t
  objects : { h' with scopes := h.scopes } = h

namespace Cleared

theorem refl (h : Heap) : Cleared ∅ h h := ⟨fun _ ht => ht.elim, fun _ _ => rfl, rfl⟩

/-- A scope more, which may have been cleared before. -/
theorem clearScope (hc : Cleared S h h') (id : ScopeId) :
    Cleared (insert id S) h (h'.modifyScope id Scope.cleared) where
  inside t ht := by
    have hmodify := Store.get?_modify_eq h'.scopes id Scope.cleared t
    by_cases hS : t ∈ S
    · have hinside := hc.inside t hS
      refine hmodify.trans ?_
      split
      · rename_i heq
        rw [← heq, hinside, Option.map_map]
        rfl
      · exact hinside
    · obtain rfl : t = id := ht.resolve_right hS
      refine hmodify.trans ?_
      rw [if_pos rfl, hc.outside t hS]
  outside t ht := by
    obtain ⟨hne, hS⟩ := not_or.mp ht
    exact (Store.get?_modify_of_ne hne).trans (hc.outside t hS)
  objects := hc.objects

variable (hc : Cleared S h h')
include hc

theorem scope_of_mem (ht : t ∈ S) : h'.scope t = (h.scope t).cleared := by
  rw [scope, scope, hc.inside t ht]
  cases h.scopes.get? t <;> rfl

theorem scope_of_notMem (ht : t ∉ S) : h'.scope t = h.scope t := by rw [scope, scope, hc.outside t ht]

theorem parent (t : ScopeId) : (h'.scope t).parent = (h.scope t).parent := by
  by_cases ht : t ∈ S
  · rw [hc.scope_of_mem ht, Scope.cleared_parent]
  · rw [hc.scope_of_notMem ht]

theorem chain (x : ScopeId) : h'.chain x = h.chain x := chainUpTo_congr hc.parent _ x

/-- Clearing never adds packages. -/
theorem packs (hp : h'.Packs t p) : h.Packs t p := by
  by_cases ht : t ∈ S
  · rw [Packs, hc.scope_of_mem ht] at hp
    cases hp
  · rwa [Packs, hc.scope_of_notMem ht] at hp

end Cleared

/-! ## Nothing else is cleared -/

/-- Whatever has been cleared, clearing a scope clears nothing but what the scope packs within. -/
theorem exists_cleared_clearUpTo (fuel : Nat) (id : ScopeId) (hc : Cleared S source h) :
    ∃ T ⊆ source.packedWithin id, Cleared (S ∪ T) source (clearUpTo fuel h id) := by
  induction fuel generalizing h S id with
  | zero => exact ⟨∅, Set.empty_subset _, by rwa [Set.union_empty]⟩
  | succ fuel ih =>
    have hpackages (ps : List ScopeId) (hps : ∀ p ∈ ps, source.Packs id p) :
        ∃ T ⊆ source.packedWithin id, Cleared (S ∪ T) source (ps.foldl (clearUpTo fuel) h) := by
      induction ps using List.reverseRecOn with
      | nil => exact ⟨∅, Set.empty_subset _, by rwa [Set.union_empty]⟩
      | append_singleton ps p ihps =>
        obtain ⟨T, hT, hcleared⟩ := ihps fun q hq => hps q (List.mem_append_left _ hq)
        obtain ⟨U, hU, hcleared⟩ := ih p hcleared
        have hp : source.Packs id p := hps p (List.mem_append_right _ (List.mem_singleton_self p))
        refine ⟨T ∪ U, Set.union_subset hT fun t ht => .head hp (hU ht), ?_⟩
        rwa [List.foldl_append, ← Set.union_assoc]
    obtain ⟨T, hT, hcleared⟩ := hpackages _ fun p hp => hc.packs hp
    refine ⟨insert id T, Set.insert_subset .refl hT, ?_⟩
    rw [Set.union_insert]
    exact hcleared.clearScope id

/-! ## All that is packed is cleared -/

/-- All that the scopes of a set pack is in the set. -/
def PackClosed (h : Heap) (S : Set ScopeId) : Prop := ∀ t ∈ S, ∀ p, h.Packs t p → p ∈ S

theorem packClosed_packedWithin (h : Heap) (id : ScopeId) : h.PackClosed (h.packedWithin id) :=
  fun _ ht _ hp => Relation.ReflTransGen.tail ht hp

theorem PackClosed.union (hS : h.PackClosed S) (hT : h.PackClosed T) : h.PackClosed (S ∪ T) :=
  fun t ht p hp => ht.imp (hS t · p hp) (hT t · p hp)

theorem PackClosed.packedWithin_subset (hS : h.PackClosed S) (hid : id ∈ S) : h.packedWithin id ⊆ S := by
  intro t ht
  induction ht with
  | refl => exact hid
  | tail _ hp ih => exact hS _ ih _ hp

/-- **No package stands inside itself**, wherever one comes to from the scope. -/
def Acyclic (h : Heap) (id : ScopeId) : Prop :=
  ∀ t, h.PacksWithin id t → ¬Relation.TransGen h.Packs t t

theorem Acyclic.package (ha : h.Acyclic id) (hp : h.Packs id p) : h.Acyclic p :=
  fun t ht => ha t (.head hp ht)

/-- Only scopes that have been made pack anything. -/
theorem Packs.lt (hp : h.Packs id p) : id < h.scopes.next := by
  by_contra hid
  rw [Packs, scope, Store.get?_eq_none (Nat.le_of_not_lt hid)] at hp
  cases hp

/-- Clearing one scope after the other clears all that they pack within, if it is so for each of them. -/
theorem Cleared.foldl {clearOne : Heap → ScopeId → Heap} {ps : List ScopeId}
    (hone : ∀ p ∈ ps, ∀ {S : Set ScopeId} {h : Heap}, source.PackClosed S → Cleared S source h →
      Cleared (S ∪ source.packedWithin p) source (clearOne h p))
    (hS : source.PackClosed S) (hc : Cleared S source h) :
    Cleared (S ∪ {t | ∃ p ∈ ps, source.PacksWithin p t}) source (ps.foldl clearOne h) := by
  induction ps generalizing S h with
  | nil => simpa using hc
  | cons p ps ih =>
    have hrest := ih (fun q hq => hone q (List.mem_cons_of_mem p hq))
      (hS.union (packClosed_packedWithin source p)) (hone p List.mem_cons_self hS hc)
    have hset : S ∪ source.packedWithin p ∪ {t | ∃ q ∈ ps, source.PacksWithin q t} =
        S ∪ {t | ∃ q ∈ p :: ps, source.PacksWithin q t} := by
      ext t
      simp [packedWithin, or_assoc]
    rwa [hset] at hrest

/-- **All that the scope packs within is cleared**, if there is fuel for the scopes that are not on the path
by which one came to it. -/
theorem cleared_clearUpTo {path : Finset ScopeId} (ha : source.Acyclic id)
    (hpath : path ⊆ Finset.range source.scopes.next)
    (habove : ∀ q ∈ path, Relation.TransGen source.Packs q id) (hfuel : source.scopes.next - path.card < fuel)
    (hS : source.PackClosed S) (hc : Cleared S source h) :
    Cleared (S ∪ source.packedWithin id) source (clearUpTo fuel h id) := by
  induction fuel generalizing h S id path with
  | zero => exact absurd hfuel (Nat.not_lt_zero _)
  | succ fuel ih =>
    by_cases hid : id ∈ S
    · have hnone : (h.scope id).packages.values = [] := by
        rw [hc.scope_of_mem hid, Scope.cleared_packages_values]
      have hcleared := hc.clearScope id
      rw [Set.insert_eq_of_mem hid] at hcleared
      rw [Set.union_eq_self_of_subset_right (hS.packedWithin_subset hid), clearUpTo, hnone]
      exact hcleared
    have hsame := hc.scope_of_notMem hid
    have hpackage {p : ScopeId} (hp : source.Packs id p) {S : Set ScopeId} {h : Heap}
        (hS : source.PackClosed S) (hc : Cleared S source h) :
        Cleared (S ∪ source.packedWithin p) source (clearUpTo fuel h p) := by
      have hnew : id ∉ path := fun hmem => ha id .refl (habove id hmem)
      have hmade : insert id path ⊆ Finset.range source.scopes.next :=
        Finset.insert_subset (Finset.mem_range.mpr hp.lt) hpath
      refine ih (ha.package hp) hmade (fun q hq => ?_) ?_ hS hc
      · obtain rfl | hq := Finset.mem_insert.mp hq
        · exact .single hp
        · exact (habove q hq).tail hp
      · have hcard := Finset.card_le_card hmade
        rw [Finset.card_range] at hcard
        rw [Finset.card_insert_of_notMem hnew] at hcard ⊢
        omega
    have hwithin : source.packedWithin id =
        insert id {t | ∃ p ∈ (source.scope id).packages.values, source.PacksWithin p t} := by
      ext t
      exact Relation.ReflTransGen.cases_head_iff.trans (or_congr eq_comm (by rfl))
    have hcleared := hc.foldl (fun _ hp => hpackage hp) hS
    rw [hwithin, Set.union_insert, clearUpTo, hsame]
    exact hcleared.clearScope id

variable (h id)

/-- **Clearing a scope clears nothing but what it packs within.** -/
theorem exists_cleared_clear : ∃ S ⊆ h.packedWithin id, Cleared S h (h.clear id) := by
  obtain ⟨S, hS, hcleared⟩ := exists_cleared_clearUpTo (h.scopes.next + 1) id (Cleared.refl h)
  exact ⟨S, hS, by rwa [Set.empty_union] at hcleared⟩

variable {h id} in
/-- **Clearing a scope clears all that it packs within.** -/
theorem cleared_clear (ha : h.Acyclic id) : Cleared (h.packedWithin id) h (h.clear id) := by
  have hclosed : h.PackClosed ∅ := fun _ ht => ht.elim
  have hcleared : Cleared (∅ ∪ h.packedWithin id) h (clearUpTo (h.scopes.next + 1) h id) :=
    cleared_clearUpTo ha (Finset.empty_subset _) (by simp) (by simp) hclosed (Cleared.refl h)
  rwa [Set.empty_union] at hcleared

end Heap

end ScriptEngine
