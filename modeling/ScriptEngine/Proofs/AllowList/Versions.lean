import ScriptEngine.Proofs.AllowList.Walk
import ScriptEngine.Proofs.EngineState.Agreement
import ScriptEngine.Proofs.EngineState.Garbage
import ScriptEngine.Proofs.Heap.Blindness
import ScriptEngine.Proofs.Heap.Chains
import ScriptEngine.Proofs.Heap.Scopes
import ScriptEngine.Proofs.Tree.Fragment

/-! # Two versions of a root scope

An allow list names what a script may touch of its root scope.  To say that nothing else matters, the
state is taken together with another **version** of it, in which the root scope binds the same names to
other values (`Versions`): to the same ones where a name is allowed, and elsewhere to values whose objects
the host holds in any event (`AllowList.Alike`), so that what is garbage is garbage in both.

A name that is allowed means the same in both versions.  Any other name means the same in a scope in
which it is **settled** (`AllowList.Settled`): looking for it, one comes to a scope that binds it before
one comes to the root scope, or the root scope itself has got its value from the script.  What is settled
stays settled whatever the script does, since scopes lose names only where they end.
-/
namespace ScriptEngine

namespace Heap
variable {h h' : Heap} {s : ScopeId}

theorem scope_eq_of_get? {c : Scope} (hc : h.scopes.get? s = some c) : h.scope s = c := by
  rw [scope, hc]
  rfl

theorem scope_eq_of_none (hs : h.scopes.get? s = none) : h.scope s = {} := by
  rw [scope, hs]
  rfl

theorem chain_congr (hparent : ∀ t, (h'.scope t).parent = (h.scope t).parent) (s : ScopeId) :
    h'.chain s = h.chain s := chainUpTo_congr hparent _ _

end Heap

/-! ## Entries and their counterparts -/

namespace Bindings
variable {α : Type} {R : String × α → String × α → Prop} {xs ys : List (String × α)} {n : String}

theorem findEntry_congr (hR : ∀ x y, R x y → y.1 = x.1 ∧ (x.1 = n → y.2 = x.2))
    (h : List.Forall₂ R xs ys) : findEntry n ys = findEntry n xs := by
  induction h with
  | nil => rfl
  | @cons x y _ _ hxy _ ih =>
    obtain ⟨hname, hvalue⟩ := hR x y hxy
    simp only [findEntry, hname, ih]
    by_cases hn : x.1 = n
    · simp [hn, hvalue hn]
    · simp [hn]

theorem isSome_findEntry_congr (hR : ∀ x y, R x y → y.1 = x.1) (h : List.Forall₂ R xs ys) :
    (findEntry n ys).isSome = (findEntry n xs).isSome := by
  induction h with
  | nil => rfl
  | @cons x y _ _ hxy _ ih =>
    simp only [findEntry, hR x y hxy]
    split
    · rfl
    · exact ih

theorem forall₂_insertEntry (hR : ∀ x y, R x y → y.1 = x.1) (h : List.Forall₂ R xs ys) {a b : α}
    (hab : ∀ x y, R x y → x.1 = n → R (x.1, a) (y.1, b)) (hnew : R (n, a) (n, b)) :
    List.Forall₂ R (insertEntry n a xs) (insertEntry n b ys) := by
  induction h with
  | nil => exact .cons hnew .nil
  | @cons x y _ _ hxy hrest ih =>
    simp only [insertEntry, hR x y hxy]
    split
    · have hkept := hab x y hxy (eq_of_beq ‹_›)
      rw [hR x y hxy] at hkept
      exact .cons hkept hrest
    · obtain ⟨m, b⟩ := y
      obtain rfl : m = x.1 := hR x _ hxy
      exact .cons hxy ih

theorem mem_insertEntry {x : String × α} {a : α} (hx : x ∈ insertEntry n a xs) : x ∈ xs ∨ x = (n, a) := by
  induction xs with
  | nil => exact .inr (List.mem_singleton.mp hx)
  | cons y rest ih =>
    simp only [insertEntry] at hx
    split at hx
    · obtain rfl | hx := List.mem_cons.mp hx
      · exact .inr (Prod.ext (eq_of_beq ‹_›) rfl)
      · exact .inl (List.mem_cons_of_mem y hx)
    · obtain rfl | hx := List.mem_cons.mp hx
      · exact .inl List.mem_cons_self
      · exact (ih hx).imp_left (List.mem_cons_of_mem y)

theorem find?_eq_some {b : Bindings α} {a : α} (hb : b.find? n = some a) : (n, a) ∈ b.entries := by
  unfold find? at hb
  generalize b.entries = xs at hb
  induction xs with
  | nil => cases hb
  | cons x rest ih =>
    simp only [findEntry] at hb
    split at hb
    · cases hb
      exact List.mem_cons.mpr (.inl (Prod.ext (eq_of_beq ‹_›).symm rfl))
    · exact List.mem_cons_of_mem x (ih hb)

end Bindings

/-! ## Versions -/

/-- What a script may touch of its root scope. -/
structure AllowList where
  root : ScopeId
  allows : String → Prop
  /-- The names of the script's own modules, inside which the root scope can be reached. -/
  modules : String → Prop

/-- A state, and what the root scope binds in the other version of it. -/
structure Versions where
  left : EngineState
  vars : Bindings Value
  packages : Bindings ScopeId

/-- The number that the next scope will have. -/
abbrev Versions.next (p : Versions) : ScopeId := p.left.heap.scopes.next

/-- The scope with this number, if there is one. -/
abbrev Versions.cell? (p : Versions) (id : ScopeId) : Option Scope := p.left.heap.scopes.get? id

/-- The state with other scopes. -/
def EngineState.onScopes (g : Store Scope → Store Scope) (s : EngineState) : EngineState :=
  s.modifyHeap (·.onScopes g)

/-- The host holds the object, whatever happens to scopes and tasks. -/
def EngineState.Secures (s : EngineState) (o : Object) : Prop :=
  o ∈ s.pinned.map .scope ∨ o ∈ s.reports.flatMap reportObjects

namespace AllowList
variable (A : AllowList)

/-- The scopes, where the root scope binds these names. -/
def swap (vars : Bindings Value) (packages : Bindings ScopeId) (scopes : Store Scope) : Store Scope :=
  scopes.modify A.root fun c => { c with vars, packages }

/-- The other version of the state. -/
def right (p : Versions) : EngineState := p.left.onScopes (A.swap p.vars p.packages)

/-- The entries are of the same name.  They are the same if the name is allowed; if not, the host holds
what they refer to. -/
structure Counterpart {α : Type} (objects : α → List Object) (s : EngineState) (x y : String × α) :
    Prop where
  name : y.1 = x.1
  value : y.2 = x.2 ∨ ¬ A.allows x.1 ∧ ∀ o ∈ objects x.2 ++ objects y.2, s.Secures o

/-- What a variable refers to. -/
abbrev varObjects (v : Value) : List Object := Value.objects [v]

/-- What a package refers to. -/
abbrev packageObjects (package : ScopeId) : List Object := [.scope package]

/-- **The versions are alike**: in both the root scope binds the same names. -/
structure Alike (p : Versions) : Prop where
  root_lt : A.root < p.next
  vars : ∀ {c}, p.cell? A.root = some c →
    List.Forall₂ (A.Counterpart varObjects p.left) c.vars.entries p.vars.entries
  packages : ∀ {c}, p.cell? A.root = some c →
    List.Forall₂ (A.Counterpart packageObjects p.left) c.packages.entries p.packages.entries

section
variable {A} {p : Versions} {id : ScopeId} {n : String}

theorem right_get? (p : Versions) (id : ScopeId) : (A.right p).heap.scopes.get? id =
    if id = A.root then
      (p.cell? A.root).map fun c => { c with vars := p.vars, packages := p.packages }
    else p.cell? id :=
  Store.get?_modify_eq _ _ _ _

theorem right_scope_cases (p : Versions) (id : ScopeId) :
    (A.right p).heap.scope id = p.left.heap.scope id ∨
      ∃ c, id = A.root ∧ p.cell? A.root = some c ∧ p.left.heap.scope id = c ∧
        (A.right p).heap.scope id = { c with vars := p.vars, packages := p.packages } := by
  have hget := right_get? (A := A) p id
  unfold Heap.scope
  rw [hget]
  split
  · subst id
    cases hc : p.cell? A.root with
    | none =>
      rw [Versions.cell?] at hc
      rw [hc]
      exact .inl rfl
    | some c =>
      rw [Versions.cell?] at hc
      rw [hc]
      exact .inr ⟨c, rfl, rfl, rfl, rfl⟩
  · exact .inl rfl

/-- Scopes are the same apart from what the root scope binds. -/
theorem right_scope {β : Type} (f : Scope → β)
    (hf : ∀ c vars packages, f { c with vars, packages } = f c) (p : Versions) (id : ScopeId) :
    f ((A.right p).heap.scope id) = f (p.left.heap.scope id) := by
  obtain hsame | ⟨c, -, -, hl, hr⟩ := right_scope_cases (A := A) p id
  · rw [hsame]
  · rw [hl, hr, hf]

theorem right_scope_of_ne (hid : id ≠ A.root) :
    (A.right p).heap.scope id = p.left.heap.scope id :=
  (right_scope_cases p id).resolve_right fun ⟨_, hroot, _⟩ => hid hroot

theorem right_scope_of_none (hc : p.cell? id = none) :
    (A.right p).heap.scope id = p.left.heap.scope id := by
  refine (right_scope_cases p id).resolve_right ?_
  rintro ⟨c, rfl, hroot, -⟩
  cases hc.symm.trans hroot

theorem right_parent (p : Versions) (id : ScopeId) :
    ((A.right p).heap.scope id).parent = (p.left.heap.scope id).parent :=
  right_scope Scope.parent (fun _ _ _ => rfl) p id

theorem right_chain (p : Versions) (id : ScopeId) :
    (A.right p).heap.chain id = p.left.heap.chain id :=
  Heap.chain_congr (right_parent p) id

theorem right_typeNamed? (p : Versions) (id : ScopeId) (n : String) :
    (A.right p).heap.typeNamed? id n = p.left.heap.typeNamed? id n := by
  have htypes (t : ScopeId) := right_scope (A := A) (fun c => c.types.find? n) (fun _ _ _ => rfl) p t
  simp only [Heap.typeNamed?, right_chain, htypes]

namespace Alike
variable (hp : A.Alike p)
include hp

/-- The same names are bound. -/
theorem contains_eq (id : ScopeId) (n : String) :
    ((A.right p).heap.scope id).vars.contains n = (p.left.heap.scope id).vars.contains n := by
  obtain hsame | ⟨c, -, hc, hl, hr⟩ := right_scope_cases (A := A) p id
  · rw [hsame]
  · rw [hl, hr]
    exact Bindings.isSome_findEntry_congr (fun _ _ h => h.name) (hp.vars hc)

theorem binder?_eq (id : ScopeId) (n : String) :
    (A.right p).heap.binder? id n = p.left.heap.binder? id n := by
  simp only [Heap.binder?, right_chain, hp.contains_eq]

theorem isSome_lookup? (id : ScopeId) (n : String) :
    ((A.right p).heap.lookup? id n).isSome = (p.left.heap.lookup? id n).isSome := by
  have hfind (t : ScopeId) : (((A.right p).heap.scope t).vars.find? n).isSome =
      ((p.left.heap.scope t).vars.find? n).isSome := hp.contains_eq t n
  simp only [Heap.lookup?, List.isSome_findSome?, right_chain, hfind]

variable (hn : A.allows n)
include hn

omit hp in
theorem value_eq {α : Type} {objects : α → List Object} {s : EngineState} (x y : String × α)
    (h : A.Counterpart objects s x y) : y.1 = x.1 ∧ (x.1 = n → y.2 = x.2) := by
  refine ⟨h.name, ?_⟩
  rintro rfl
  exact h.value.elim id fun h => absurd hn h.1

/-- **A name that is allowed means the same.** -/
theorem lookup?_of_allows (id : ScopeId) :
    (A.right p).heap.lookup? id n = p.left.heap.lookup? id n := by
  have hfind (t : ScopeId) :
      ((A.right p).heap.scope t).vars.find? n = (p.left.heap.scope t).vars.find? n := by
    obtain hsame | ⟨c, -, hc, hl, hr⟩ := right_scope_cases (A := A) p t
    · rw [hsame]
    · rw [hl, hr]
      exact Bindings.findEntry_congr (value_eq hn) (hp.vars hc)
  simp only [Heap.lookup?, right_chain, hfind]

theorem packageNamed?_of_allows (id : ScopeId) :
    (A.right p).heap.packageNamed? id n = p.left.heap.packageNamed? id n := by
  have hfind (t : ScopeId) :
      ((A.right p).heap.scope t).packages.find? n = (p.left.heap.scope t).packages.find? n := by
    obtain hsame | ⟨c, -, hc, hl, hr⟩ := right_scope_cases (A := A) p t
    · rw [hsame]
    · rw [hl, hr]
      exact Bindings.findEntry_congr (value_eq hn) (hp.packages hc)
  simp only [Heap.packageNamed?, right_chain, hfind]

end Alike
end

/-! ## What is settled -/

/-- **The name is settled in the scope**: whoever looks for it from there comes to no root scope that
might bind it to something else in the other version. -/
inductive Settled (p : Versions) (n : String) : ScopeId → Prop where
  /-- The scope has ended. -/
  | gone {id : ScopeId} (hc : p.cell? id = none) : Settled p n id
  /-- The scope binds the name; if it is the root scope, then to the same value in both versions. -/
  | here {id : ScopeId} {c : Scope} (hc : p.cell? id = some c) (hn : c.vars.contains n = true)
      (hroot : id = A.root → p.vars.find? n = c.vars.find? n) : Settled p n id
  | around {id parent : ScopeId} {c : Scope} (hid : id ≠ A.root) (hc : p.cell? id = some c)
      (hparent : c.parent = some parent) (hrest : Settled p n parent) : Settled p n id
  | outermost {id : ScopeId} {c : Scope} (hid : id ≠ A.root) (hc : p.cell? id = some c)
      (hparent : c.parent = none) : Settled p n id

section
variable {A} {p : Versions} {id : ScopeId} {n : String}

namespace Settled
variable (hs : A.Settled p n id) (hn : p.left.heap.Nested)
include hs hn

/-- The name is bound to the same value in both versions, or it is not bound, and the root scope is not on
the way out. -/
theorem bound_or_free :
    (∃ b, p.left.heap.binder? id n = some b ∧
      ((A.right p).heap.scope b).vars.find? n = (p.left.heap.scope b).vars.find? n) ∨
    p.left.heap.binder? id n = none ∧
      ∀ t ∈ p.left.heap.chain id, (A.right p).heap.scope t = p.left.heap.scope t := by
  have hend {id : ScopeId} (hsame : (A.right p).heap.scope id = p.left.heap.scope id)
      (hparent : (p.left.heap.scope id).parent = none)
      (hfree : (p.left.heap.scope id).vars.contains n = false) :
      p.left.heap.binder? id n = none ∧
        ∀ t ∈ p.left.heap.chain id, (A.right p).heap.scope t = p.left.heap.scope t := by
    rw [Heap.binder?, Heap.chain_of_root hparent]
    exact ⟨List.find?_eq_none.mpr (List.forall_mem_singleton.mpr (Bool.eq_false_iff.mp hfree)),
      List.forall_mem_singleton.mpr hsame⟩
  induction hs with
  | @gone id hc =>
    have hempty := Heap.scope_eq_of_none hc
    exact .inr (hend (right_scope_of_none hc) (by rw [hempty]) (by rw [hempty]; rfl))
  | @here id c hc hcontains hroot =>
    have hleft := Heap.scope_eq_of_get? hc
    refine .inl ⟨id, Heap.binder?_of_contains (by rwa [hleft]), ?_⟩
    obtain hsame | ⟨d, hid, -, hl, hr⟩ := right_scope_cases (A := A) p id
    · rw [hsame]
    · rw [hr, hleft]
      exact hroot hid
  | @around id parent c hid hc hparent _ ih =>
    have hsame := right_scope_of_ne (p := p) hid
    have hleft : (p.left.heap.scope id).parent = some parent := by
      rw [Heap.scope_eq_of_get? hc, hparent]
    cases hcontains : (p.left.heap.scope id).vars.contains n with
    | true => exact .inl ⟨id, Heap.binder?_of_contains hcontains, by rw [hsame]⟩
    | false =>
      rw [Heap.binder?_of_parent hn hcontains hleft, Heap.chain_of_parent hn hleft]
      exact ih.imp_right fun hfree => ⟨hfree.1, List.forall_mem_cons.mpr ⟨hsame, hfree.2⟩⟩
  | @outermost id c hid hc hparent =>
    have hsame := right_scope_of_ne (p := p) hid
    cases hcontains : (p.left.heap.scope id).vars.contains n with
    | true => exact .inl ⟨id, Heap.binder?_of_contains hcontains, by rw [hsame]⟩
    | false => exact .inr (hend hsame (by rw [Heap.scope_eq_of_get? hc, hparent]) hcontains)

/-- **A name that is settled means the same.** -/
theorem lookup?_eq (hp : A.Alike p) :
    (A.right p).heap.lookup? id n = p.left.heap.lookup? id n := by
  rw [Heap.lookup?_eq, Heap.lookup?_eq, hp.binder?_eq]
  obtain ⟨b, hb, hsame⟩ | ⟨hfree, -⟩ := hs.bound_or_free hn
  · rw [hb]
    exact hsame
  · rw [hfree]
    rfl

/-- Where nothing binds the settled name, a package of this name is the same. -/
theorem packageNamed?_eq (hfree : p.left.heap.lookup? id n = none) :
    (A.right p).heap.packageNamed? id n = p.left.heap.packageNamed? id n := by
  obtain ⟨b, hb, -⟩ | ⟨-, hchain⟩ := hs.bound_or_free hn
  · obtain ⟨v, hv⟩ := Option.isSome_iff_exists.mp (Heap.contains_of_binder? hb)
    rw [Heap.lookup?_eq, hb, Option.bind_some, hv] at hfree
    cases hfree
  · unfold Heap.packageNamed?
    rw [right_chain]
    generalize p.left.heap.chain id = chain at hchain
    induction chain with
    | nil => rfl
    | cons t rest ih =>
      obtain ⟨ht, hrest⟩ := List.forall_mem_cons.mp hchain
      rw [List.findSome?_cons, List.findSome?_cons, ht, ih hrest]

end Settled

end

end AllowList
end ScriptEngine

/-! ## What is known of the scopes that a script works in

What the walk for free names takes for bound, the evaluator need not have bound yet: a function or a
module that is declared further down in the block, and what the last clause of a loop assigns to.  The
rules for a script (`AllowList.covers`) are that such names are allowed too; and that a name is allowed if
it is looked up in a module of the script, since whoever looks for a variable of a module goes on to the
scopes around it.

Then a scope is **ready** for a piece of a script (`AllowList.Ready`): what the walk takes for bound there
is allowed or settled.  All closures in the heap are known to be ready for their bodies, and all packages
to be modules of the script or to have no way out to the root scope (`AllowList.Valid`).  Whatever the
script does, nothing of this is lost (`AllowList.Later`).
-/
namespace ScriptEngine
namespace AllowList
variable (A : AllowList)

/-- The rules for the nodes of a script. -/
def covers : Fragment
  | .stmt (.func definition) => A.allows definition.displayName
  | .stmt (.module name _) => A.allows name ∧ A.modules name
  | .stmt (.forClause _ _ (some post) _) => ∀ n ∈ post.kind.bound, A.allows n
  | .expr (.member (.mk (.ident m) _) n) => A.modules m → A.allows n
  | _ => True

/-- What has been found is allowed. -/
abbrev Finds (st : FreeNames.State) : Prop := st.Finds A.allows

/-- **What the walk takes for bound is allowed or settled.** -/
structure Ready (p : Versions) (scope : ScopeId) (st : FreeNames.State) : Prop where
  lt_next : scope < p.next
  bound : ∀ {n}, st.isBound n = true → A.allows n ∨ A.Settled p n scope

/-- The closure follows the rules, and the scope around it is ready for it. -/
structure ClosureKnown (p : Versions) (definition : FuncDef) (scope : ScopeId) (selfBound : Bool) :
    Prop where
  code : definition.In A.covers
  named : selfBound = false → ∀ n ∈ definition.name, A.allows n
  walked : ∃ st, A.Ready p scope st ∧ A.Finds (FreeNames.func definition st)

/-- The package is a module of the script, or all is settled in it. -/
structure PackageKnown (p : Versions) (name : String) (package : ScopeId) : Prop where
  lt_next : package < p.next
  settled : A.modules name ∨ ∀ n, A.Settled p n package

/-- **All closures and packages are known.** -/
structure Valid (p : Versions) : Prop extends A.Alike p where
  nested : p.left.heap.Nested
  outermost : (p.left.heap.scope A.root).parent = none
  packagesKnown : ∀ {id c}, p.cell? id = some c →
    ∀ e ∈ c.packages.entries, A.PackageKnown p e.1 e.2
  closuresKnown : ∀ {id definition scope selfBound},
    (p.left.heap.func id).closure? = some (definition, scope, selfBound) →
    A.ClosureKnown p definition scope selfBound

/-- What is settled in `k` is settled in `p`. -/
structure Knows (k p : Versions) : Prop where
  next_le : k.next ≤ p.next
  settled : ∀ {n id}, id < k.next → A.Settled k n id → A.Settled p n id

/-- **`p` is valid, and nothing known in `k` has been lost.** -/
structure Later (k p : Versions) : Prop extends A.Knows k p where
  valid : A.Valid p

/-- Scopes stay where they are and keep their names until they end, and where the root scope binds a name
to the same value in both versions, it still does. -/
structure Evolves (p q : Versions) : Prop where
  next_le : p.next ≤ q.next
  cell : ∀ {id}, id < p.next → q.cell? id = none ∨ ∃ c d, p.cell? id = some c ∧ q.cell? id = some d ∧
    d.parent = c.parent ∧ ∀ n, c.vars.contains n = true → d.vars.contains n = true
  root : ∀ {c d n}, p.cell? A.root = some c → q.cell? A.root = some d →
    p.vars.find? n = c.vars.find? n → q.vars.find? n = d.vars.find? n

variable {A} {k p q r : Versions} {n name : String} {id scope : ScopeId} {st : FreeNames.State}

/-! ## Nothing is lost -/

/-- **What is settled stays settled.**  The induction is on the way out of the scope: if a scope on it has
ended, the search for the name ends there too. -/
theorem Settled.mono (hs : A.Settled p n id) (he : A.Evolves p q) (hn : p.left.heap.Nested)
    (hid : id < p.next) : A.Settled q n id := by
  induction hs with
  | gone hc =>
    obtain hgone | ⟨c, d, hc', -⟩ := he.cell hid
    · exact .gone hgone
    · cases hc.symm.trans hc'
  | here hc hcontains hroot =>
    obtain hgone | ⟨c, d, hc', hd, -, hnames⟩ := he.cell hid
    · exact .gone hgone
    · cases hc.symm.trans hc'
      refine .here hd (hnames n hcontains) fun hroot' => ?_
      subst hroot'
      exact he.root hc hd (hroot rfl)
  | @around id parent c hne hc hparent _ ih =>
    obtain hgone | ⟨c', d, hc', hd, hsame, -⟩ := he.cell hid
    · exact .gone hgone
    · cases hc.symm.trans hc'
      have hlt : parent < id := hn (by rw [Heap.scope_eq_of_get? hc, hparent])
      exact .around hne hd (hsame.trans hparent) (ih (Nat.lt_trans hlt hid))
  | outermost hne hc hparent =>
    obtain hgone | ⟨c', d, hc', hd, hsame, -⟩ := he.cell hid
    · exact .gone hgone
    · cases hc.symm.trans hc'
      exact .outermost hne hd (hsame.trans hparent)

theorem Evolves.knows (he : A.Evolves p q) (hn : p.left.heap.Nested) : A.Knows p q :=
  ⟨he.next_le, fun hid hs => hs.mono he hn hid⟩

theorem Knows.trans (h : A.Knows p q) (h' : A.Knows q r) : A.Knows p r :=
  ⟨Nat.le_trans h.next_le h'.next_le, fun hid hs =>
    h'.settled (Nat.lt_of_lt_of_le hid h.next_le) (h.settled hid hs)⟩

theorem Valid.refl (hp : A.Valid p) : A.Later p p := ⟨⟨Nat.le_refl _, fun _ => id⟩, hp⟩

theorem Later.trans (h : A.Later p q) (h' : A.Later q r) : A.Later p r :=
  ⟨h.toKnows.trans h'.toKnows, h'.valid⟩

theorem Ready.mono (hs : A.Ready p scope st) (h : A.Knows p q) : A.Ready q scope st :=
  ⟨Nat.lt_of_lt_of_le hs.lt_next h.next_le,
    fun hn => (hs.bound hn).imp_right (h.settled hs.lt_next)⟩

theorem Ready.notes {st' : FreeNames.State} (hs : A.Ready p scope st) (h : st.Notes st') :
    A.Ready p scope st' := ⟨hs.lt_next, fun hn => hs.bound (h.isBound _ ▸ hn)⟩

theorem ClosureKnown.mono {definition : FuncDef} {selfBound : Bool}
    (hc : A.ClosureKnown p definition scope selfBound) (h : A.Knows p q) :
    A.ClosureKnown q definition scope selfBound :=
  ⟨hc.code, hc.named, hc.walked.imp fun _ hst => ⟨hst.1.mono h, hst.2⟩⟩

theorem PackageKnown.mono {package : ScopeId} (hc : A.PackageKnown p name package)
    (h : A.Knows p q) : A.PackageKnown q name package :=
  ⟨Nat.lt_of_lt_of_le hc.lt_next h.next_le,
    hc.settled.imp_right fun hs n => h.settled hc.lt_next (hs n)⟩

/-- A block declares only names that are allowed. -/
theorem allows_of_hoisted {body : Block} (hbody : body.In A.covers)
    (hn : n ∈ body.filterMap FreeNames.hoisted?) : A.allows n := by
  induction body with
  | nil => cases hn
  | cons x rest ih =>
    obtain ⟨hx, hrest⟩ := Block.in_cons hbody
    obtain ⟨y, hy, hyn⟩ := List.mem_filterMap.mp hn
    obtain rfl | hy := List.mem_cons.mp hy
    · obtain ⟨kind, pos⟩ := y
      have hnode : A.covers (.stmt kind) := hx.parts.1
      cases kind with
      | func definition => exact Option.some.inj hyn ▸ hnode
      | module name body => exact Option.some.inj hyn ▸ hnode.1
      | _ => cases hyn
    · exact ih hrest (List.mem_filterMap.mpr ⟨y, hy, hyn⟩)

/-- A scope is ready for a block of its own if it is ready for what is around, and the names are settled
that are bound at the beginning. -/
theorem Ready.opened {bound : List String} {body : Block} (hs : A.Ready p scope st)
    (hbody : body.In A.covers) (hbound : ∀ n ∈ bound, A.allows n ∨ A.Settled p n scope) :
    A.Ready p scope (st.opened bound body) := by
  refine ⟨hs.lt_next, fun hn => ?_⟩
  obtain hn | hn | hn := FreeNames.State.isBound_opened hn
  · exact hbound _ hn
  · exact hs.bound hn
  · exact .inl (allows_of_hoisted hbody hn)

/-! ## Names -/

theorem Valid.lookup?_eq (hp : A.Valid p) (hn : A.allows n ∨ A.Settled p n id) :
    (A.right p).heap.lookup? id n = p.left.heap.lookup? id n :=
  hn.elim (hp.toAlike.lookup?_of_allows · id) fun hs => hs.lookup?_eq hp.nested hp.toAlike

/-- A name that the walk has come across means the same. -/
theorem Ready.allowed_or_settled (hs : A.Ready p scope st) (hfound : A.Finds (st.use n)) :
    A.allows n ∨ A.Settled p n scope :=
  (st.isBound_or_found n).elim hs.bound fun hn => .inl (hfound n hn)

/-! ## Valid versions -/

/-- Where nothing has become of versions but what is known of scopes. -/
theorem Valid.later (hp : A.Valid p) (he : A.Evolves p q) (halike : A.Alike q)
    (hnested : q.left.heap.Nested) (houtermost : (q.left.heap.scope A.root).parent = none)
    (hpackages : ∀ {id c}, q.cell? id = some c → ∀ e ∈ c.packages.entries,
      (∃ id' c', p.cell? id' = some c' ∧ e ∈ c'.packages.entries) ∨ A.PackageKnown q e.1 e.2)
    (hclosures : ∀ {id definition scope selfBound},
      (q.left.heap.func id).closure? = some (definition, scope, selfBound) →
      (p.left.heap.func id).closure? = some (definition, scope, selfBound) ∨
        A.ClosureKnown q definition scope selfBound) : A.Later p q := by
  have hknows := he.knows hp.nested
  refine ⟨hknows, halike, hnested, houtermost, fun hc e hmem => ?_, fun hf => ?_⟩
  · exact (hpackages hc e hmem).elim
      (fun ⟨_, _, hc', hmem'⟩ => (hp.packagesKnown hc' e hmem').mono hknows) id
  · exact (hclosures hf).elim (fun hf' => (hp.closuresKnown hf').mono hknows) id

theorem Counterpart.mono {α : Type} {objects : α → List Object} {s s' : EngineState}
    {x y : String × α} (h : A.Counterpart objects s x y) (hheld : ∀ o, s.Secures o → s'.Secures o) :
    A.Counterpart objects s' x y :=
  ⟨h.name, h.value.imp_right fun hv => ⟨hv.1, fun o ho => hheld o (hv.2 o ho)⟩⟩

/-- The state where scopes may have ended or changed, but not in what they bind, and closures may have
ended. -/
structure Thins (s s' : EngineState) : Prop where
  next_eq : s'.heap.scopes.next = s.heap.scopes.next
  cell : ∀ id, s'.heap.scopes.get? id = none ∨ ∃ c d, s.heap.scopes.get? id = some c ∧
    s'.heap.scopes.get? id = some d ∧ d.parent = c.parent ∧ d.vars = c.vars ∧ d.packages = c.packages
  closure : ∀ id x, (s'.heap.func id).closure? = some x → (s.heap.func id).closure? = some x
  held : ∀ o, s.Secures o → s'.Secures o

theorem Thins.trans {s s' s'' : EngineState} (h : Thins s s') (h' : Thins s' s'') : Thins s s'' where
  next_eq := h'.next_eq.trans h.next_eq
  cell id := by
    obtain hgone | ⟨d, e, hd, he, hparent', hvars', hpackages'⟩ := h'.cell id
    · exact .inl hgone
    · obtain hgone | ⟨c, d', hc, hd', hparent, hvars, hpackages⟩ := h.cell id
      · cases hgone.symm.trans hd
      · cases hd.symm.trans hd'
        exact .inr ⟨c, e, hc, he, hparent'.trans hparent, hvars'.trans hvars,
          hpackages'.trans hpackages⟩
  closure id x hx := h.closure id x (h'.closure id x hx)
  held o ho := h'.held o (h.held o ho)

/-- Where scopes and closures are the same. -/
theorem thins_of_fabric {s s' : EngineState} (hfabric : s'.heap.fabric = s.heap.fabric)
    (hheld : ∀ o, s.Secures o → s'.Secures o) : Thins s s' where
  next_eq := by rw [Heap.scopes_of_fabric hfabric]
  cell id := by
    rw [Heap.scopes_of_fabric hfabric]
    cases s.heap.scopes.get? id with
    | none => exact .inl rfl
    | some c => exact .inr ⟨c, c, rfl, rfl, rfl, rfl, rfl⟩
  closure id x hx := by rwa [Heap.closure?_of_fabric hfabric] at hx
  held := hheld

/-- **What ends or changes in this way takes nothing of what is known.** -/
theorem Valid.thins (hp : A.Valid p) {s : EngineState} (hs : Thins p.left s) :
    A.Later p { p with left := s } := by
  have hcell {id : ScopeId} {d : Scope} (hd : s.heap.scopes.get? id = some d) :
      ∃ c, p.cell? id = some c ∧ d.parent = c.parent ∧ d.vars = c.vars ∧ d.packages = c.packages := by
    obtain hgone | ⟨c, d', hc, hd', hsame⟩ := hs.cell id
    · cases hgone.symm.trans hd
    · cases hd.symm.trans hd'
      exact ⟨c, hc, hsame⟩
  have hparent {id parent : ScopeId} (h : (s.heap.scope id).parent = some parent) :
      (p.left.heap.scope id).parent = some parent := by
    cases hd : s.heap.scopes.get? id with
    | none =>
      rw [Heap.scope_eq_of_none hd] at h
      cases h
    | some d =>
      obtain ⟨c, hc, hsame, -⟩ := hcell hd
      rw [Heap.scope_eq_of_get? hd, hsame] at h
      rwa [Heap.scope_eq_of_get? hc]
  refine hp.later ⟨Nat.le_of_eq hs.next_eq.symm, fun {id} _ => ?_, fun {c d n} hc hd hfind => ?_⟩
    ⟨?_, fun {d} hd => ?_, fun {d} hd => ?_⟩ (fun id parent h => hp.nested (hparent h)) ?_
    (fun {id d} hd e he => ?_) fun hf => .inl (hs.closure _ _ hf)
  · obtain hgone | ⟨c, d, hc, hd, hsame, hvars, -⟩ := hs.cell id
    · exact .inl hgone
    · exact .inr ⟨c, d, hc, hd, hsame, fun n hn => hvars ▸ hn⟩
  · obtain ⟨c', hc', -, hvars, -⟩ := hcell hd
    cases hc.symm.trans hc'
    rw [hvars]
    exact hfind
  · exact Nat.lt_of_lt_of_le hp.root_lt (Nat.le_of_eq hs.next_eq.symm)
  · obtain ⟨c, hc, -, hvars, -⟩ := hcell hd
    rw [hvars]
    exact (hp.vars hc).imp fun _ _ h => h.mono hs.held
  · obtain ⟨c, hc, -, -, hpackages⟩ := hcell hd
    rw [hpackages]
    exact (hp.packages hc).imp fun _ _ h => h.mono hs.held
  · cases h : (s.heap.scope A.root).parent with
    | none => rfl
    | some parent => exact absurd (hparent h) (by rw [hp.outermost]; nofun)
  · obtain ⟨c, hc, -, -, hpackages⟩ := hcell hd
    exact .inl ⟨id, c, hc, hpackages ▸ he⟩

end AllowList
end ScriptEngine
