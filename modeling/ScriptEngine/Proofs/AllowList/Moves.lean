import ScriptEngine.Proofs.AllowList.Garbage

/-! # Scopes, closures and names in both versions

What a script does to scopes it does in both versions of a state: it opens a scope inside another one
(`AllowList.Valid.opened`), it makes a function (`AllowList.Valid.newClosure`), it gives a variable a value
(`AllowList.Valid.bound`), and it binds a module (`AllowList.Valid.packaged`).  Nothing known is lost by
this, and a name that a script has given a value is settled.
-/
namespace ScriptEngine

theorem Bindings.contains_insert {α : Type} (b : Bindings α) (n : String) (a : α) {m : String}
    (hm : b.contains m = true) : (b.insert n a).contains m = true := by
  unfold contains
  by_cases h : m = n
  · rw [h, find?_insert_self]
    rfl
  · rwa [find?_insert_of_ne b h]

namespace AllowList
variable {A : AllowList} {k p q : Versions} {id scope : ScopeId} {n : String} {v : Value}

/-! ## Scopes inside scopes -/

/-- The scope is there in `p`, and what was settled around it in `k` is settled in it. -/
structure Inside (k p : Versions) (around scope : ScopeId) : Prop where
  lt_next : scope < p.next
  settled : ∀ {n}, A.Settled k n around → A.Settled p n scope

theorem Inside.later {around : ScopeId} (h : A.Inside k p around scope) (hq : A.Later p q) :
    A.Inside k q around scope :=
  ⟨Nat.lt_of_lt_of_le h.lt_next hq.next_le, fun hs => hq.settled h.lt_next (h.settled hs)⟩

/-- More may have been settled meanwhile. -/
theorem Inside.since {around : ScopeId} (h : A.Inside p q around scope) (hp : A.Later k p)
    (haround : around < k.next) : A.Inside k q around scope :=
  ⟨h.lt_next, fun hs => h.settled (hp.settled haround hs)⟩

theorem Ready.inside {st : FreeNames.State} (hs : A.Ready k id st) (h : A.Inside k p id scope) :
    A.Ready p scope st := ⟨h.lt_next, fun hn => (hs.bound hn).imp_right h.settled⟩

theorem opened_swap {s : EngineState} (hroot : A.root < s.heap.scopes.next) (vars : Bindings Value)
    (packages : Bindings ScopeId) (g : GovernorId) (parent : ScopeId) :
    (s.onScopes (A.swap vars packages)).opened g parent =
      (s.opened g parent).onScopes (A.swap vars packages) :=
  congrArg (fun scopes => { s with
    governors := s.governors.modify g (·.acquire)
    heap := { s.heap with scopes } }) (swap_push hroot _).symm

namespace Valid
variable (hp : A.Valid p)
include hp

theorem opened (g : GovernorId) {parent : ScopeId} (hparent : parent < p.next) :
    A.Later p { p with left := p.left.opened g parent } ∧
      A.Inside p { p with left := p.left.opened g parent } parent p.next := by
  have hget (id : ScopeId) : (p.left.opened g parent).heap.scopes.get? id =
      if id = p.next then some { parent := some parent, governor := g, counted := true }
      else p.cell? id := Store.get?_push_eq _ _ _
  have hold {id : ScopeId} {c : Scope} (hc : p.cell? id = some c) :
      (p.left.opened g parent).heap.scopes.get? id = some c := by
    rw [hget, if_neg (Nat.ne_of_lt (Store.lt_next hc)), hc]
  have hnew := (hget p.next).trans (if_pos rfl)
  have hscope (id : ScopeId) : (p.left.opened g parent).heap.scope id = p.left.heap.scope id ∨
      id = p.next ∧ ((p.left.opened g parent).heap.scope id).parent = some parent := by
    by_cases hid : id = p.next
    · subst hid
      exact .inr ⟨rfl, by rw [Heap.scope_eq_of_get? hnew]⟩
    · refine .inl ?_
      unfold Heap.scope
      rw [hget, if_neg hid]
  have hroot {c : Scope} (hc : (p.left.opened g parent).heap.scopes.get? A.root = some c) :
      p.cell? A.root = some c := by
    rwa [hget, if_neg (Nat.ne_of_lt hp.root_lt)] at hc
  have hlater : A.Later p { p with left := p.left.opened g parent } := by
    refine hp.later ⟨?_, fun {id} hid => ?_, fun {c d n} hc hd => ?_⟩
      ⟨?_, fun hc => (hp.vars (hroot hc)).imp fun _ _ h => h.mono fun _ => id,
        fun hc => (hp.packages (hroot hc)).imp fun _ _ h => h.mono fun _ => id⟩
      (fun id around h => ?_) ?_
      (fun {id c} hc e he => ?_) fun hf => .inl hf
    · exact (Nat.le_succ _).trans (Nat.le_of_eq (Store.next_push _ _).symm)
    · cases hc : p.cell? id with
      | none => exact .inl (by rw [Versions.cell?, hget, if_neg (Nat.ne_of_lt hid), hc])
      | some c => exact .inr ⟨c, c, rfl, hold hc, rfl, fun _ h => h⟩
    · cases (hold hc).symm.trans hd
      exact fun h => h
    · exact Nat.lt_of_lt_of_le hp.root_lt
        ((Nat.le_succ _).trans (Nat.le_of_eq (Store.next_push _ _).symm))
    · obtain hsame | ⟨rfl, hsame⟩ := hscope id
      · exact hp.nested (hsame ▸ h)
      · cases hsame.symm.trans h
        exact hparent
    · obtain hsame | ⟨hnext, -⟩ := hscope A.root
      · rw [hsame]
        exact hp.outermost
      · exact absurd hnext (Nat.ne_of_lt hp.root_lt)
    · rw [Versions.cell?, hget] at hc
      split at hc
      · cases hc
        cases he
      · exact .inl ⟨id, c, hc, he⟩
  refine ⟨hlater, (Nat.lt_succ_self _).trans_eq (Store.next_push _ _).symm, fun hs => ?_⟩
  exact .around (Nat.ne_of_lt hp.root_lt).symm hnew rfl (hlater.settled hparent hs)

/-- **A scope is opened in both versions or in none.** -/
theorem addChild {parent : ScopeId} (hparent : parent < p.next) {o : Outcome ScopeId} {s : EngineState}
    (hs : p.left.addChild parent = (o, s)) :
    (A.right p).addChild parent = (o, s.onScopes (A.swap p.vars p.packages)) ∧
      A.Later p { p with left := s } ∧
      ∀ scope, o = .ok scope → A.Inside p { p with left := s } parent scope := by
  have hgovernor : ((A.right p).heap.scope parent).governor =
      (p.left.heap.scope parent).governor := right_scope Scope.governor (fun _ _ _ => rfl) p parent
  have htidied {g : GovernorId} :
      (A.right p).tidied g = (p.left.tidied g).onScopes (A.swap p.vars p.packages) ∧
        A.Later p { p with left := p.left.tidied g } := by
    unfold EngineState.tidied
    rw [show (A.right p).governor g = p.left.governor g from rfl]
    split
    · exact ⟨hp.right_collect, hp.collect⟩
    · exact ⟨rfl, hp.refl⟩
  rw [EngineState.addChild_eq rfl rfl] at hs
  generalize (p.left.heap.scope parent).governor = g at hgovernor hs
  obtain ⟨hright, hlater⟩ := htidied (g := g)
  rw [EngineState.addChild_eq hgovernor hright]
  have hsame : ((p.left.tidied g).onScopes (A.swap p.vars p.packages)).governor g =
      (p.left.tidied g).governor g := rfl
  rw [hsame]
  split at hs
  · cases hs
    exact ⟨if_pos ‹_›, hlater, nofun⟩
  · cases hs
    have hroot : A.root < (p.left.tidied g).heap.scopes.next := hlater.valid.root_lt
    obtain ⟨hopened, hinside⟩ := hlater.valid.opened g (Nat.lt_of_lt_of_le hparent hlater.next_le)
    refine ⟨?_, hlater.trans hopened, fun scope hscope => ?_⟩
    · rw [if_neg ‹_›, opened_swap hroot]
      exact Prod.ext (congrArg Except.ok (next_swap _)) rfl
    · cases hscope
      exact hinside.since hlater hparent

/-! ## Functions -/

/-- A function is made that is known. -/
theorem newClosure {definition : FuncDef} {selfBound : Bool}
    (hc : A.ClosureKnown p definition scope selfBound) :
    A.Later p
      { p with left := p.left.modifyHeap (·.addFunc (.script definition scope selfBound) |>.2) } := by
  have he : A.Evolves p
      { p with left := p.left.modifyHeap (·.addFunc (.script definition scope selfBound) |>.2) } := by
    refine ⟨Nat.le_refl _, fun {id} _ => ?_, fun {c d n} hc hd => ?_⟩
    · cases hc : p.cell? id with
      | none => exact .inl hc
      | some c => exact .inr ⟨c, c, rfl, hc, rfl, fun _ h => h⟩
    · cases hc.symm.trans hd
      exact fun h => h
  refine hp.later he
    ⟨hp.root_lt, fun hc => (hp.vars hc).imp fun _ _ h => h.mono fun _ => id,
      fun hc => (hp.packages hc).imp fun _ _ h => h.mono fun _ => id⟩
    hp.nested hp.outermost (fun hc e hmem => .inl ⟨_, _, hc, hmem⟩) fun {id d s b} hf => ?_
  have hfunc : (((p.left.heap.funcs.push (.script definition scope selfBound)).get? id).getD
      default).closure? = some (d, s, b) := hf
  rw [Store.get?_push_eq] at hfunc
  split at hfunc
  · cases hfunc
    exact .inr (hc.mono (he.knows hp.nested))
  · exact .inl hfunc

end Valid

/-! ## Names -/

/-- The versions, where one scope binds other names. -/
def rewrite (A : AllowList) (p : Versions) (scope : ScopeId) (onVars : Bindings Value → Bindings Value)
    (onPackages : Bindings ScopeId → Bindings ScopeId) : Versions where
  left := p.left.modifyHeap (·.modifyScope scope fun c =>
    { c with vars := onVars c.vars, packages := onPackages c.packages })
  vars := if scope = A.root then onVars p.vars else p.vars
  packages := if scope = A.root then onPackages p.packages else p.packages

section
variable {onVars : Bindings Value → Bindings Value} {onPackages : Bindings ScopeId → Bindings ScopeId}

/-- Names are bound in both versions alike. -/
theorem right_rewrite (p : Versions) (scope : ScopeId) :
    A.right (A.rewrite p scope onVars onPackages) =
      (A.right p).modifyHeap (·.modifyScope scope fun c =>
        { c with vars := onVars c.vars, packages := onPackages c.packages }) := by
  refine congrArg (fun scopes => { p.left with heap := { p.left.heap with scopes } })
    (Store.ext_get? ?_ fun i => ?_)
  · exact (next_swap _).trans ((Store.next_modify _ _ _).trans
      ((next_swap _).symm.trans (Store.next_modify _ _ _).symm))
  · simp only [rewrite, EngineState.modifyHeap, Heap.modifyScope, right, EngineState.onScopes,
      Heap.onScopes, swap_get?, Store.get?_modify_eq]
    by_cases hi : i = scope
    · subst i
      simp only [if_true, Option.map_map]
      congr 1
      funext c
      by_cases hroot : scope = A.root <;> simp [hroot]
    · by_cases hroot : i = A.root
      · subst i
        simp only [hi, Ne.symm hi, if_false, if_true]
      · simp only [hi, hroot, if_false]

theorem rewrite_cell? (p : Versions) (scope id : ScopeId) :
    (A.rewrite p scope onVars onPackages).cell? id =
      (p.cell? id).map fun c => if id = scope then
        { c with vars := onVars c.vars, packages := onPackages c.packages } else c := by
  refine (Store.get?_modify_eq _ _ _ _).trans ?_
  by_cases hid : id = scope
  · subst id
    simp only [if_true]
  · simp only [hid, if_false, Option.map_id']

variable (hnames : ∀ {vars : Bindings Value} {m}, vars.contains m = true →
  (onVars vars).contains m = true)
  (hsame : ∀ {vars vars' : Bindings Value} {m}, vars'.find? m = vars.find? m →
    (onVars vars').find? m = (onVars vars).find? m)
include hnames hsame

theorem evolves_rewrite (p : Versions) (scope : ScopeId) :
    A.Evolves p (A.rewrite p scope onVars onPackages) where
  next_le := Nat.le_of_eq (Store.next_modify _ _ _).symm
  cell {id} _ := by
    rw [rewrite_cell?]
    cases p.cell? id with
    | none => exact .inl rfl
    | some c =>
      refine .inr ⟨c, _, rfl, rfl, ?_, fun n hn => ?_⟩
      · split <;> rfl
      · split
        · exact hnames hn
        · exact hn
  root {c d n} hc hd hfind := by
    rw [rewrite_cell?, hc] at hd
    cases hd
    by_cases hroot : scope = A.root
    · simp only [rewrite, hroot, if_true]
      exact hsame hfind
    · simp only [rewrite, hroot, Ne.symm hroot, if_false]
      exact hfind

/-- **Nothing known is lost where names are bound.** -/
theorem Valid.rewrite (hp : A.Valid p) (scope : ScopeId)
    (hvars : ∀ {xs ys : Bindings Value},
      List.Forall₂ (A.Counterpart varObjects p.left) xs.entries ys.entries →
      List.Forall₂ (A.Counterpart varObjects p.left) (onVars xs).entries (onVars ys).entries)
    (hpackages : ∀ {xs ys : Bindings ScopeId},
      List.Forall₂ (A.Counterpart packageObjects p.left) xs.entries ys.entries →
      List.Forall₂ (A.Counterpart packageObjects p.left) (onPackages xs).entries
        (onPackages ys).entries)
    (hknown : ∀ {xs : Bindings ScopeId}, ∀ e ∈ (onPackages xs).entries,
      e ∈ xs.entries ∨ A.PackageKnown p e.1 e.2) :
    A.Later p (A.rewrite p scope onVars onPackages) := by
  have he : A.Evolves p (A.rewrite p scope onVars onPackages) :=
    evolves_rewrite hnames hsame p scope
  have hparent (id : ScopeId) : ((A.rewrite p scope onVars onPackages).left.heap.scope id).parent =
      (p.left.heap.scope id).parent := by
    have hcell : (A.rewrite p scope onVars onPackages).cell? id = _ := rewrite_cell? p scope id
    unfold Heap.scope
    rw [Versions.cell?, Versions.cell?] at hcell
    rw [hcell]
    cases p.left.heap.scopes.get? id with
    | none => rfl
    | some c =>
      by_cases hid : id = scope <;> simp [hid]
  refine hp.later he ⟨Nat.lt_of_lt_of_le hp.root_lt he.next_le, fun {d} hd => ?_, fun {d} hd => ?_⟩
    (fun s t h => hp.nested (hparent s ▸ h)) ((hparent _).trans hp.outermost)
    (fun {id d} hd e hmem => ?_) fun hf => .inl hf
  · rw [rewrite_cell?] at hd
    obtain ⟨c, hc, rfl⟩ := Option.map_eq_some_iff.mp hd
    by_cases hroot : scope = A.root
    · simp only [AllowList.rewrite, hroot, if_true]
      exact (hvars (hp.vars hc)).imp fun _ _ h => h.mono fun _ => id
    · simp only [AllowList.rewrite, hroot, Ne.symm hroot, if_false]
      exact (hp.vars hc).imp fun _ _ h => h.mono fun _ => id
  · rw [rewrite_cell?] at hd
    obtain ⟨c, hc, rfl⟩ := Option.map_eq_some_iff.mp hd
    by_cases hroot : scope = A.root
    · simp only [AllowList.rewrite, hroot, if_true]
      exact (hpackages (hp.packages hc)).imp fun _ _ h => h.mono fun _ => id
    · simp only [AllowList.rewrite, hroot, Ne.symm hroot, if_false]
      exact (hp.packages hc).imp fun _ _ h => h.mono fun _ => id
  · rw [rewrite_cell?] at hd
    obtain ⟨c, hc, rfl⟩ := Option.map_eq_some_iff.mp hd
    by_cases hid : id = scope
    · simp only [hid, if_true] at hmem
      exact (hknown e hmem).imp (fun hold => ⟨id, c, hc, hold⟩) fun h => h.mono (he.knows hp.nested)
    · simp only [hid, if_false] at hmem
      exact .inl ⟨id, c, hc, hmem⟩

end

/-- The versions, where the scope has got the variable. -/
def bound (A : AllowList) (p : Versions) (scope : ScopeId) (n : String) (v : Value) : Versions :=
  A.rewrite p scope (·.insert n v) fun packages => packages

/-- The versions, where the scope has got the package. -/
def packaged (A : AllowList) (p : Versions) (scope : ScopeId) (n : String) (package : ScopeId) :
    Versions :=
  A.rewrite p scope (fun vars => vars) (·.insert n package)

theorem right_bound (p : Versions) (scope : ScopeId) (n : String) (v : Value) :
    A.right (A.bound p scope n v) = (A.right p).modifyHeap (·.bindVar scope n v) :=
  right_rewrite p scope

theorem right_packaged (p : Versions) (scope : ScopeId) (n : String) (package : ScopeId) :
    A.right (A.packaged p scope n package) = (A.right p).modifyHeap
      (·.modifyScope scope fun c => { c with packages := c.packages.insert n package }) :=
  right_rewrite p scope

theorem find?_insert_congr {vars vars' : Bindings Value} {m : String} (n : String) (v : Value)
    (h : vars'.find? m = vars.find? m) : (vars'.insert n v).find? m = (vars.insert n v).find? m := by
  by_cases hm : m = n
  · rw [hm, Bindings.find?_insert_self, Bindings.find?_insert_self]
  · rwa [Bindings.find?_insert_of_ne _ hm, Bindings.find?_insert_of_ne _ hm]

/-- The same entry is added on both sides. -/
theorem counterparts_insert {α : Type} {objects : α → List Object} {s : EngineState}
    {xs ys : Bindings α} (a : α)
    (h : List.Forall₂ (A.Counterpart objects s) xs.entries ys.entries) :
    List.Forall₂ (A.Counterpart objects s) (xs.insert n a).entries (ys.insert n a).entries :=
  Bindings.forall₂_insertEntry (fun _ _ h => h.name) h (fun _ _ h _ => ⟨h.name, .inl rfl⟩)
    ⟨rfl, .inl rfl⟩

theorem evolves_bound (p : Versions) (scope : ScopeId) (n : String) (v : Value) :
    A.Evolves p (A.bound p scope n v) :=
  evolves_rewrite (fun h => Bindings.contains_insert _ n v h) (find?_insert_congr n v) p scope

/-- **What a script has bound is settled.** -/
theorem settled_bound (p : Versions) (scope : ScopeId) (n : String) (v : Value) :
    A.Settled (A.bound p scope n v) n scope := by
  have hcell : (A.bound p scope n v).cell? scope = _ := rewrite_cell? p scope scope
  cases hc : p.cell? scope with
  | none =>
    rw [hc] at hcell
    exact .gone hcell
  | some c =>
    rw [hc] at hcell
    simp only [Option.map_some, if_true] at hcell
    refine .here hcell ?_ fun hroot => ?_
    · rw [Bindings.contains, Bindings.find?_insert_self]
      rfl
    · simp only [bound, rewrite, hroot, if_true, Bindings.find?_insert_self]

/-- A name is settled in a scope if it is settled where the search for it ends. -/
theorem Settled.of_search (he : A.Evolves p q) (hp : A.Valid p) {b : ScopeId}
    (hsearch : p.left.heap.Search n b scope) (hscope : scope < p.next) (hb : A.Settled q n b) :
    A.Settled q n scope := by
  induction hsearch with
  | here => exact hb
  | @around t parent _ hparent _ ih =>
    have hne : t ≠ A.root := by
      rintro rfl
      cases hp.outermost.symm.trans hparent
    obtain hgone | ⟨c, d, hc, hd, hsame, -⟩ := he.cell hscope
    · exact .gone hgone
    · rw [Heap.scope_eq_of_get? hc] at hparent
      exact .around hne hd (hsame.trans hparent)
        (ih (Nat.lt_trans (hp.nested (by rw [Heap.scope_eq_of_get? hc, hparent])) hscope))

namespace Valid
variable (hp : A.Valid p)
include hp

/-- **A variable gets a value in both versions.** -/
theorem bound (scope : ScopeId) (n : String) (v : Value) : A.Later p (A.bound p scope n v) :=
  hp.rewrite (fun h => Bindings.contains_insert _ n v h) (find?_insert_congr n v) scope
    (counterparts_insert v) (fun h => h) fun _ he => .inl he

/-- **A module is bound in both versions.** -/
theorem packaged (scope : ScopeId) {package : ScopeId} (hpackage : A.PackageKnown p n package) :
    A.Later p (A.packaged p scope n package) :=
  hp.rewrite (fun h => h) (fun h => h) scope (fun h => h) (counterparts_insert package)
    fun e he => (Bindings.mem_insertEntry he).imp_right fun (hnew : e = (n, package)) => by
      rw [hnew]
      exact hpackage

end Valid

end AllowList
end ScriptEngine
