import Mathlib.Logic.Relation
import ScriptEngine.Proofs.Heap.Growth
import ScriptEngine.Scope

/-! # Scopes around scopes

The scope around another one is older than it, so scopes form trees (`Heap.Nested`).  A search for a
name goes from a scope to the one around it for as long as the name is not bound (`Heap.Search`); it
resolves the name to the scope in which it ends (`Heap.Resolves`), and that is what the engine finds
(`Heap.binder?_eq_some_iff`).

Where one name gets a value in one scope and nothing else is different (`Heap.Rebound`), a search that
comes to this scope ends there (`Heap.Rebound.resolves_iff_of_search`), and all others end where they did
(`Heap.Rebound.resolves_iff`).
-/
namespace ScriptEngine

/-- What is first found in a list does not change unless the changed element comes first. -/
theorem List.findSome?_ite {α β : Type} [DecidableEq α] (f : α → Option β) (a : α) (b : β) :
    ∀ l : List α, l.findSome? (fun x => if x = a then some b else f x) =
      if l.find? (fun x => (if x = a then some b else f x).isSome) = some a then some b
      else l.findSome? f
  | [] => rfl
  | x :: l => by
    by_cases hx : x = a
    · subst x
      simp
    · cases hf : f x with
      | none => simp [hx, hf, findSome?_ite f a b l]
      | some y => simp [hx, hf]

namespace Heap
variable {h h' : Heap} {s t p b c : ScopeId} {n m : String} {v : Value}

/-- **Scopes form trees**: the scope around another one is older. -/
def Nested (h : Heap) : Prop := ∀ ⦃s p : ScopeId⦄, (h.scope s).parent = some p → p < s

/-- The scope `s` is on the way out of `t`: it is `t` itself, or somewhere around it. -/
def WayOut (h : Heap) (t s : ScopeId) : Prop :=
  Relation.ReflTransGen (fun t p => (h.scope t).parent = some p) t s

/-- **A search for the name that begins in `t` comes to `s`**: the scopes before do not bind the name. -/
inductive Search (h : Heap) (n : String) (s : ScopeId) : ScopeId → Prop where
  | here : Search h n s s
  | around {t p : ScopeId} (hfree : (h.scope t).vars.contains n = false)
    (hparent : (h.scope t).parent = some p) (hsearch : Search h n s p) : Search h n s t

/-- **In `t` the name is resolved by `b`**: it is the first scope on the way out that binds the name. -/
structure Resolves (h : Heap) (n : String) (t b : ScopeId) : Prop where
  binds : (h.scope b).vars.contains n = true
  search : h.Search n b t

/-! ## Searches -/

/-- A name is resolved by one scope at most. -/
theorem Resolves.unique (hb : h.Resolves n t b) (hc : h.Resolves n t c) : b = c := by
  obtain ⟨hbinds, hsearch⟩ := hb
  induction hsearch with
  | here =>
    cases hc.search with
    | here => rfl
    | around hfree =>
      rw [hbinds] at hfree
      cases hfree
  | around hfree hparent _ ih =>
    cases hc.search with
    | here =>
      rw [hc.binds] at hfree
      cases hfree
    | around _ hparent' hsearch' =>
      obtain rfl := Option.some.inj (hparent.symm.trans hparent')
      exact ih ⟨hc.binds, hsearch'⟩

/-! ## Chains -/

theorem chainUpTo_congr (hparent : ∀ t, (h'.scope t).parent = (h.scope t).parent) (fuel : Nat)
    (t : ScopeId) : h'.chainUpTo fuel t = h.chainUpTo fuel t := by
  induction fuel generalizing t with
  | zero => rfl
  | succ fuel ih =>
    simp only [chainUpTo, hparent]
    cases (h.scope t).parent with
    | none => rfl
    | some p => exact congrArg _ (ih p)

theorem chainUpTo_of_lt (hn : h.Nested) {fuel fuel' : Nat} (ht : t < fuel) (ht' : t < fuel') :
    h.chainUpTo fuel t = h.chainUpTo fuel' t := by
  induction fuel generalizing t fuel' with
  | zero => exact absurd ht (Nat.not_lt_zero t)
  | succ fuel ih =>
    cases fuel' with
    | zero => exact absurd ht' (Nat.not_lt_zero t)
    | succ fuel' =>
      simp only [chainUpTo]
      cases hp : (h.scope t).parent with
      | none => rfl
      | some p =>
        exact congrArg _ (ih (Nat.lt_of_lt_of_le (hn hp) (Nat.le_of_lt_succ ht))
          (Nat.lt_of_lt_of_le (hn hp) (Nat.le_of_lt_succ ht')))

theorem chain_of_root (ht : (h.scope t).parent = none) : h.chain t = [t] := by
  simp only [chain, chainUpTo, ht]

theorem chain_of_parent (hn : h.Nested) (ht : (h.scope t).parent = some p) :
    h.chain t = t :: h.chain p := by
  have hlt := hn ht
  simp only [chain, chainUpTo, ht, List.cons.injEq, true_and]
  exact chainUpTo_of_lt hn hlt (Nat.lt_succ_self p)

theorem mem_chain_iff (hn : h.Nested) : s ∈ h.chain t ↔ h.WayOut t s := by
  induction t using Nat.strongRecOn with
  | ind t ih =>
    cases ht : (h.scope t).parent with
    | none =>
      rw [chain_of_root ht, List.mem_singleton]
      constructor
      · rintro rfl
        exact .refl
      · intro haround
        obtain rfl | ⟨p, hp, -⟩ := Relation.ReflTransGen.cases_head haround
        · rfl
        · cases ht.symm.trans hp
    | some p =>
      rw [chain_of_parent hn ht, List.mem_cons, ih p (hn ht)]
      constructor
      · rintro (rfl | haround)
        · exact .refl
        · exact .head ht haround
      · intro haround
        obtain rfl | ⟨q, hq, hrest⟩ := Relation.ReflTransGen.cases_head haround
        · exact .inl rfl
        · obtain rfl := Option.some.inj (ht.symm.trans hq)
          exact .inr hrest

theorem head_mem_chain (h : Heap) (t : ScopeId) : t ∈ h.chain t := List.mem_cons_self

/-! ## What the engine finds -/

theorem lookup?_eq (h : Heap) (t : ScopeId) (n : String) :
    h.lookup? t n = (h.binder? t n).bind fun b => (h.scope b).vars.find? n := by
  unfold lookup? binder?
  induction h.chain t with
  | nil => rfl
  | cons s rest ih =>
    cases hs : (h.scope s).vars.find? n <;> simp [Bindings.contains, hs, ih]

theorem binder?_of_contains (ht : (h.scope t).vars.contains n = true) : h.binder? t n = some t := by
  exact List.find?_cons_of_pos ht

theorem binder?_of_parent (hn : h.Nested) (hfree : (h.scope t).vars.contains n = false)
    (hp : (h.scope t).parent = some p) : h.binder? t n = h.binder? p n := by
  unfold binder?
  rw [chain_of_parent hn hp]
  exact List.find?_cons_of_neg (Bool.not_eq_true _ ▸ hfree)

theorem contains_of_binder? (hb : h.binder? t n = some b) : (h.scope b).vars.contains n = true :=
  List.find?_some (p := fun s => (h.scope s).vars.contains n) hb

/-- **The engine resolves names** as they are resolved on the way out. -/
theorem binder?_eq_some_iff (hn : h.Nested) : h.binder? t n = some b ↔ h.Resolves n t b := by
  constructor
  · intro hb
    refine ⟨contains_of_binder? hb, ?_⟩
    induction t using Nat.strongRecOn with
    | ind t ih =>
      cases ht : (h.scope t).vars.contains n with
      | true =>
        obtain rfl := Option.some.inj ((binder?_of_contains ht).symm.trans hb)
        exact .here
      | false =>
        cases hp : (h.scope t).parent with
        | none =>
          have hmem := List.mem_of_find?_eq_some hb
          rw [chain_of_root hp, List.mem_singleton] at hmem
          subst hmem
          exact .here
        | some p =>
          rw [binder?_of_parent hn ht hp] at hb
          exact .around ht hp (ih p (hn hp) hb)
  · rintro ⟨hbinds, hsearch⟩
    induction hsearch with
    | here => exact binder?_of_contains hbinds
    | around hfree hparent _ ih => exact (binder?_of_parent hn hfree hparent).trans ih

theorem binder?_eq_none_iff (hn : h.Nested) :
    h.binder? t n = none ↔ ∀ s, h.WayOut t s → (h.scope s).vars.contains n = false := by
  simp only [binder?, List.find?_eq_none, mem_chain_iff hn, Bool.not_eq_true]

/-! ## One more value -/

/-- The scopes are there that were, and are the same apart from their variables. -/
def SameFrames (h h' : Heap) : Prop :=
  ∀ t, (h'.scopes.get? t).map ({ · with vars := .empty }) =
    (h.scopes.get? t).map ({ · with vars := .empty })

/-- **One name gets a value in one scope**, and nothing else is different. -/
structure Rebound (b : ScopeId) (n : String) (v : Value) (h h' : Heap) : Prop where
  value : ∀ t m, (h'.scope t).vars.find? m =
    if t = b ∧ m = n then some v else (h.scope t).vars.find? m
  frames : SameFrames h h'
  objects : { h' with scopes := h.scopes } = h

theorem SameFrames.parent (hf : SameFrames h h') (t : ScopeId) :
    (h'.scope t).parent = (h.scope t).parent := by
  have hframe := hf t
  unfold scope
  cases hx : h.scopes.get? t with
  | none =>
    rw [hx, Option.map_none, Option.map_eq_none_iff] at hframe
    rw [hframe]
  | some x =>
    rw [hx] at hframe
    obtain ⟨y, hy, hsame⟩ := Option.map_eq_some_iff.mp hframe
    have hparent := congrArg Scope.parent hsame
    rw [hy]
    exact hparent

/-- What a name means, where one scope has got a value for it. -/
theorem lookup?_of_find? (hf : SameFrames h h')
    (hfind : ∀ c, (h'.scope c).vars.find? n =
      if c = b then some v else (h.scope c).vars.find? n) :
    h'.lookup? t n = if h'.binder? t n = some b then some v else h.lookup? t n := by
  unfold lookup? binder? chain
  rw [chainUpTo_congr hf.parent]
  simp only [Bindings.contains, hfind]
  exact List.findSome?_ite _ _ _ _

/-- What a name means, where no scope has got a value for it. -/
theorem lookup?_congr (hf : SameFrames h h')
    (hfind : ∀ c, (h'.scope c).vars.find? n = (h.scope c).vars.find? n) :
    h'.lookup? t n = h.lookup? t n := by
  unfold lookup? chain
  rw [chainUpTo_congr hf.parent]
  simp only [hfind]

/-- What binds a name is there. -/
theorem isSome_of_contains (hb : (h.scope b).vars.contains n = true) :
    (h.scopes.get? b).isSome = true := by
  unfold scope at hb
  cases hget : h.scopes.get? b with
  | none =>
    rw [hget] at hb
    cases hb
  | some x => rfl

theorem rebound_bindVar (hb : (h.scopes.get? b).isSome = true) (n : String) (v : Value) :
    Rebound b n v h (h.bindVar b n v) := by
  obtain ⟨x, hx⟩ := Option.isSome_iff_exists.mp hb
  have hself : (h.bindVar b n v).scopes.get? b = some { x with vars := x.vars.insert n v } := by
    show (h.scopes.modify b _).get? b = _
    rw [Store.get?_modify_self, hx]
    rfl
  have hother {t : ScopeId} (ht : t ≠ b) : (h.bindVar b n v).scopes.get? t = h.scopes.get? t :=
    Store.get?_modify_of_ne ht
  refine ⟨fun t m => ?_, fun t => ?_, rfl⟩
  · by_cases ht : t = b
    · subst t
      by_cases hm : m = n
      · subst m
        simp [Heap.scope, hself]
      · simp [Heap.scope, hself, hx, hm, Bindings.find?_insert_of_ne]
    · simp [Heap.scope, hother ht, ht]
  · by_cases ht : t = b
    · subst t
      rw [hself, hx]
      rfl
    · rw [hother ht]

namespace Rebound
variable (hb : Rebound b n v h h')
include hb

theorem nested (hn : h.Nested) : h'.Nested := by
  intro s p hp
  rw [hb.frames.parent] at hp
  exact hn hp

theorem contains (t : ScopeId) (m : String) : (h'.scope t).vars.contains m =
    (decide (t = b ∧ m = n) || (h.scope t).vars.contains m) := by
  unfold Bindings.contains
  rw [hb.value]
  by_cases hself : t = b ∧ m = n
  · simp [hself]
  · simp [hself]

theorem contains_of_free (hfree : (h'.scope t).vars.contains m = false) :
    (h.scope t).vars.contains m = false := by
  rw [hb.contains, Bool.or_eq_false_iff] at hfree
  exact hfree.2

/-- **What a name means changes where it is resolved by the scope**, and nowhere else. -/
theorem lookup? (t : ScopeId) (m : String) : h'.lookup? t m =
    if m = n ∧ h'.binder? t m = some b then some v else h.lookup? t m := by
  by_cases hm : m = n
  · subst m
    simp only [true_and]
    exact lookup?_of_find? hb.frames fun c => by simp only [hb.value, and_true]
  · rw [if_neg fun h => hm h.1]
    exact lookup?_congr hb.frames fun c => by simp only [hb.value, hm, and_false, if_false]

/-- Where the name was resolved by the scope, or by none, the scope resolves it. -/
theorem binder? (ht : h.binder? t n = some b ∨ h.binder? t n = none ∧ t = b) :
    h'.binder? t n = some b := by
  have hbinds : (h'.scope b).vars.contains n = true := by
    rw [hb.contains]
    simp
  rcases ht with ht | ⟨-, rfl⟩
  · rw [← ht]
    unfold Heap.binder? chain
    rw [chainUpTo_congr hb.frames.parent]
    congr 1
    funext c
    by_cases hc : c = b
    · subst c
      rw [hbinds, contains_of_binder? ht]
    · rw [hb.contains]
      simp [hc]
  · exact binder?_of_contains hbinds

/-- A search that comes to a scope comes to it still, unless it comes to the changed one. -/
theorem search (hsearch : h.Search m s t) : h'.Search m s t ∨ m = n ∧ h'.Search n b t := by
  induction hsearch with
  | here => exact .inl .here
  | @around t p hfree hparent _ ih =>
    by_cases ht : t = b ∧ m = n
    · obtain ⟨rfl, rfl⟩ := ht
      exact .inr ⟨rfl, .here⟩
    · have hfree' : (h'.scope t).vars.contains m = false := by
        rw [hb.contains, hfree]
        simp [ht]
      have hparent' := (hb.frames.parent t).trans hparent
      obtain hs | ⟨rfl, hs⟩ := ih
      · exact .inl (.around hfree' hparent' hs)
      · exact .inr ⟨rfl, .around hfree' hparent' hs⟩

theorem search_of (hsearch : h'.Search m s t) : h.Search m s t := by
  induction hsearch with
  | here => exact .here
  | around hfree hparent _ ih =>
    exact .around (hb.contains_of_free hfree) ((hb.frames.parent _).symm.trans hparent) ih

/-- **A search that comes to the changed scope ends there now.** -/
theorem resolves_iff_of_search (hcomes : h.Search n b t) : h'.Resolves n t c ↔ c = b := by
  have hbinds : (h'.scope b).vars.contains n = true := by
    rw [hb.contains]
    simp
  have hthere : h'.Resolves n t b := ⟨hbinds, (hb.search hcomes).elim id (·.2)⟩
  constructor
  · exact fun hc => hc.unique hthere
  · rintro rfl
    exact hthere

/-- **Any other search ends where it did.** -/
theorem resolves_iff (hcomes : ¬ (m = n ∧ h.Search n b t)) :
    h'.Resolves m t c ↔ h.Resolves m t c := by
  constructor
  · rintro ⟨hbinds, hsearch⟩
    have hsearch := hb.search_of hsearch
    refine ⟨?_, hsearch⟩
    rw [hb.contains, Bool.or_eq_true, decide_eq_true_eq] at hbinds
    rcases hbinds with ⟨rfl, rfl⟩ | hbinds
    · exact absurd ⟨rfl, hsearch⟩ hcomes
    · exact hbinds
  · rintro ⟨hbinds, hsearch⟩
    rcases hb.search hsearch with hsearch | ⟨rfl, hsearch⟩
    · refine ⟨?_, hsearch⟩
      rw [hb.contains, hbinds, Bool.or_true]
    · exact absurd ⟨rfl, hb.search_of hsearch⟩ hcomes

end Rebound

end Heap

end ScriptEngine

/-! ## Binding names

A name can be bound in a scope exactly if it is an identifier, and that is all that may be wrong about
binding it.  A name that is bound already somewhere around can always be given another value. -/
namespace ScriptEngine.Heap

variable {h : Heap} {id : ScopeId} {name : String} {v : Value} {e : Failure}

theorem checkIdentifier_eq (name : String) : checkIdentifier name =
    if isIdentifier name then .ok () else .error (.fault (.invalidOperation (Misfit.name name).message)) :=
  rfl

/-- Only identifiers can be bound. -/
theorem define_eq (h : Heap) (id : ScopeId) (name : String) (v : Value) :
    h.define id name v = if isIdentifier name then .ok (h.bindVar id name v) else
      .error (.fault (.invalidOperation (Misfit.name name).message)) := by
  rw [define, checkIdentifier_eq]
  split <;> rfl

theorem definePackage_eq (h : Heap) (id : ScopeId) (name : String) (package : ScopeId) :
    h.definePackage id name package =
      if isIdentifier name then
        .ok (h.modifyScope id fun s => { s with packages := s.packages.insert name package })
      else .error (.fault (.invalidOperation (Misfit.name name).message)) := by
  rw [definePackage, checkIdentifier_eq]
  split <;> rfl

theorem name_of_define_error (hd : h.define id name v = .error e) : isIdentifier name = false := by
  rw [define_eq] at hd
  split at hd
  · cases hd
  · exact Bool.not_eq_true _ ▸ ‹_›

theorem name_of_assign_error (ha : h.assign id name v = .error e) : isIdentifier name = false := by
  unfold assign at ha
  split at ha
  · cases ha
  · exact name_of_define_error ha

theorem name_of_definePackage_error {package : ScopeId}
    (hd : h.definePackage id name package = .error e) : isIdentifier name = false := by
  rw [definePackage_eq] at hd
  split at hd
  · cases hd
  · exact Bool.not_eq_true _ ▸ ‹_›

/-- What has a value is bound by some scope. -/
theorem binder?_of_get {old : Value} (hold : h.get id name = .ok old) :
    ∃ binder, h.binder? id name = some binder := by
  refine Option.isSome_iff_exists.mp ?_
  unfold get lookup? at hold
  split at hold
  · rename_i value hfound
    obtain ⟨s, hs, hvalue⟩ := List.exists_of_findSome?_eq_some hfound
    refine List.find?_isSome.mpr ⟨s, hs, ?_⟩
    rw [Bindings.contains, hvalue, Option.isSome_some]
  · cases hold

theorem assign_ne_error {old : Value} (hold : h.get id name = .ok old) :
    h.assign id name v ≠ .error e := by
  obtain ⟨binder, hbinder⟩ := binder?_of_get hold
  intro ha
  rw [assign, hbinder] at ha
  cases ha

end ScriptEngine.Heap
