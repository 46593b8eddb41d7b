import ScriptEngine.Proofs.AllowList.Indifference

/-! # Scopes and names in a computation

Opening a scope, looking up and binding names, and making functions are indifferent, as long as a name that
is looked up is allowed or settled.  A name that has been bound is settled from then on.
-/
namespace ScriptEngine
namespace AllowList

variable {α β : Type}

/-- The computation is indifferent, and nothing more is known at its end. -/
abbrev Steady (A : AllowList) (k : Versions) (m : Eval α) : Prop := A.Indifferent k (fun _ _ => True) m

variable {A : AllowList} {k p q : Versions} {P : Versions → α → Prop} {Q : Versions → β → Prop}
  {scope : ScopeId} {n : String} {st st' : FreeNames.State}

/-! ## What is ready stays ready -/

theorem Ready.later (hs : A.Ready k scope st) (hp : A.Later k p) : A.Ready p scope st :=
  hs.mono hp.toKnows

/-- Further on in the walk. -/
theorem Ready.next (hs : A.Ready k scope st) (hp : A.Later k p) (hn : st.Notes st') :
    A.Ready p scope st' := (hs.later hp).notes hn

/-- After names have been bound. -/
theorem Ready.leads {B : String → Prop} (hs : A.Ready p scope st) (hl : st.Leads B st')
    (hB : ∀ n, B n → A.allows n ∨ A.Settled p n scope) : A.Ready p scope st' :=
  ⟨hs.lt_next, fun hn => (hl.bound _ hn).elim hs.bound (hB _)⟩

theorem Settled.later (hs : A.Settled k n scope) (hscope : scope < k.next) (hp : A.Later k p) :
    A.Settled p n scope := hp.settled hscope hs

/-! ## Looking and failing -/

namespace Indifferent

theorem read {f : EngineState → α} (hf : ∀ p, A.Later k p → f (A.right p) = f p.left)
    (hP : ∀ p, A.Later k p → P p (f p.left)) : A.Indifferent k P (Eval.read f) := by
  refine ⟨fun {p} hp => ?_⟩
  rw [Eval.read_apply, Eval.read_apply, hf p hp]
  exact .ended hp.valid.refl (hP p hp)

theorem fail (f : Fault) : A.Indifferent k P (Eval.fail f) := .throw _

theorem failWith (message : String) : A.Indifferent k P (Eval.failWith message) := .throw _

theorem mismatchedCount (targets values : Nat) :
    A.Indifferent k P (Evaluator.mismatchedCount targets values) := .throw _

theorem misfit (m : Misfit) : A.Indifferent k P (Eval.misfit m) := by
  refine ⟨fun {p} hp => ?_⟩
  rw [Eval.misfit_apply, Eval.misfit_apply]
  exact .ended (hp.valid.thins (thins_elsewhere rfl rfl rfl)) trivial

theorem ofFailure (e : Failure) : A.Indifferent k P (Eval.ofFailure e) := by
  cases e with
  | fault f => exact .fail f
  | overflow => exact ⟨fun hp => .stop hp.valid.refl⟩

theorem ofOutcome {o : Outcome α} (hP : ∀ p a, A.Later k p → o = .ok a → P p a) :
    A.Indifferent k P (Eval.ofOutcome o) := by
  cases o with
  | ok a => exact .pure fun p hp => hP p a hp rfl
  | error e => exact .ofFailure e

/-- A look at values of which something is known. -/
theorem tryHeap {f : Heap → Outcome α} [hf : Heap.LooksAtValues f]
    (hP : ∀ h p a, A.Later k p → f h = .ok a → P p a) : A.Indifferent k P (Eval.tryHeap f) := by
  have hread : A.Indifferent k (fun _ o => ∃ h, o = f h) (Eval.readHeap f) :=
    .read (fun p _ => hf.onScopes_eq _ p.left.heap) fun p _ => ⟨p.left.heap, rfl⟩
  refine hread.bind fun o p hp ho => ?_
  obtain ⟨h, rfl⟩ := ho
  exact .ofOutcome fun q a hq ha => hP h q a (hp.trans hq) ha

theorem ite {c : Prop} [Decidable c] {m m' : Eval α} (hm : c → A.Indifferent k P m)
    (hm' : ¬ c → A.Indifferent k P m') : A.Indifferent k P (if c then m else m') := by
  split
  · exact hm ‹_›
  · exact hm' ‹_›

/-- A variable that has to be bound. -/
theorem lookup (hscope : scope < k.next) (hn : A.allows n ∨ A.Settled k n scope) :
    A.Steady k (Eval.lookup scope n) := by
  have hread : A.Steady k (Eval.readHeap (·.get scope n)) := by
    refine .read (fun p hp => ?_) fun _ _ => trivial
    simp only [Heap.get, hp.valid.lookup?_eq (hn.imp_right fun hs => hs.later hscope hp)]
  exact hread.bind fun o p _ _ => Neutral.indifferent p

/-! ## Scopes -/

theorem openScope (hscope : scope < k.next) :
    A.Indifferent k (fun p inner => A.Inside k p scope inner) (Eval.openScope scope) := by
  refine ⟨fun {p} hp => ?_⟩
  rw [Eval.openScope_apply, Eval.openScope_apply]
  have hgovernor : ((A.right p).heap.scope scope).governor = (p.left.heap.scope scope).governor :=
    right_scope Scope.governor (fun _ _ _ => rfl) p scope
  cases hs : p.left.addChild scope with
  | mk o s =>
    obtain ⟨hright, hlater, hinside⟩ :=
      hp.valid.addChild (Nat.lt_of_lt_of_le hscope hp.next_le) hs
    rw [hright, hgovernor]
    cases o with
    | ok inner => exact .ended hlater ((hinside inner rfl).since hp hscope)
    | error e =>
      have hrefused : A.Later p { p with
          left := s.refuse (.scope (p.left.heap.scope scope).governor) } :=
        hlater.trans (hlater.valid.thins (thins_elsewhere rfl rfl rfl))
      exact ((Indifferent.ofFailure e).together hrefused.valid.refl).later hrefused

/-- Inside a new scope. -/
theorem inChild (hscope : scope < k.next) {m : ScopeId → Eval α} {P : α → Prop}
    (hm : ∀ inner p, A.Later k p → A.Inside k p scope inner →
      A.Indifferent p (fun _ => P) (m inner)) :
    A.Indifferent k (fun _ => P) (Eval.inChild scope m) :=
  (openScope hscope).bind fun inner p hp hinside => (hm inner p hp hinside).holding _

/-! ## Binding names -/

end Indifferent

/-- **Names are changed in both versions alike**, and then `P` holds, or in none. -/
inductive Renamed (A : AllowList) (P : Versions → Prop) (p : Versions) :
    Outcome Heap → Outcome Heap → Prop where
  | failed (e : Failure) : Renamed A P p (.error e) (.error e)
  | changed {q : Versions} {h h' : Heap} (hq : A.Later p q) (hP : P q)
      (hleft : q.left = p.left.modifyHeap fun _ => h)
      (hright : A.right q = (A.right p).modifyHeap fun _ => h') : Renamed A P p (.ok h) (.ok h')

/-- A name that is no identifier is refused in both versions. -/
theorem Renamed.checked {P : Versions → Prop} {h h' : Heap} (hr : Renamed A P p (.ok h) (.ok h')) :
    Renamed A P p (do Heap.checkIdentifier n; return h) (do Heap.checkIdentifier n; return h') := by
  cases Heap.checkIdentifier n with
  | error e => exact .failed e
  | ok => exact hr

namespace Indifferent

theorem bindName {f : Heap → Outcome Heap} {P : Versions → Prop}
    (hf : ∀ p, A.Later k p → Renamed A P p (f p.left.heap) (f (A.right p).heap)) :
    A.Indifferent k (fun p _ => P p) (Eval.bindName n f) := by
  refine ⟨fun {p} hp => ?_⟩
  have hr := hf p hp
  generalize hl : f p.left.heap = x at hr
  generalize hr' : f (A.right p).heap = y at hr
  cases hr with
  | failed e =>
    rw [Eval.bindName_error hl, Eval.bindName_error hr']
    have hcomplained : A.Later p { p with left := p.left.complain (.name n) } :=
      hp.valid.thins (thins_elsewhere rfl rfl rfl)
    exact ((Indifferent.ofFailure e).together hcomplained.valid.refl).later hcomplained
  | @changed q h h' hq hP hleft hright =>
    have hdone : A.Together (Upon fun q (_ : Unit) => P q) p (.done q.left (.ok ()))
        (.done (A.right q) (.ok ())) := .done hq hP
    rw [hleft, hright] at hdone
    rw [Eval.bindName_ok hl, Eval.bindName_ok hr']
    exact hdone

/-- **What is defined is settled.** -/
theorem define (v : Value) :
    A.Indifferent k (fun p _ => A.Settled p n scope) (Eval.define scope n v) :=
  bindName fun p hp => .checked (.changed (hp.valid.bound scope n v) (settled_bound p scope n v) rfl
    (right_bound p scope n v))

theorem defineAll (hscope : scope < k.next) (bindings : List (String × Value)) :
    A.Indifferent k (fun p _ => ∀ b ∈ bindings, A.Settled p b.1 scope)
      (Eval.defineAll scope bindings) := by
  induction bindings generalizing k with
  | nil => exact .pure fun _ _ => List.forall_mem_nil _
  | cons b rest ih =>
    refine (define b.2).bind fun _ p hp hb => ?_
    have hscope' := Nat.lt_of_lt_of_le hscope hp.next_le
    exact (ih hscope').weaken fun q _ hq hrest =>
      List.forall_mem_cons.mpr ⟨hb.later hscope' hq, hrest⟩

/-- **What is assigned to is settled.** -/
theorem assign (hscope : scope < k.next) (v : Value) :
    A.Indifferent k (fun p _ => A.Settled p n scope) (Eval.assign scope n v) := by
  refine bindName fun p hp => ?_
  unfold Heap.assign
  rw [hp.valid.toAlike.binder?_eq]
  cases hb : p.left.heap.binder? scope n with
  | none =>
    exact .checked (.changed (hp.valid.bound scope n v) (settled_bound p scope n v) rfl
      (right_bound p scope n v))
  | some b =>
    have hsearch := ((Heap.binder?_eq_some_iff hp.valid.nested).mp hb).search
    refine .changed (hp.valid.bound b n v) ?_ rfl (right_bound p b n v)
    exact .of_search (evolves_bound p b n v) hp.valid hsearch
      (Nat.lt_of_lt_of_le hscope hp.next_le) (settled_bound p b n v)

theorem definePackage {package : ScopeId} (hpackage : A.PackageKnown k n package) :
    A.Steady k (Eval.definePackage scope n package) :=
  bindName fun p hp => .checked (.changed (hp.valid.packaged scope (hpackage.mono hp.toKnows)) trivial
    rfl (right_packaged p scope n package))

/-- A function is made that is known. -/
theorem closure {definition : FuncDef} {selfBound : Bool}
    (hc : A.ClosureKnown k definition scope (selfBound && definition.name.isSome)) :
    A.Steady k (Eval.closure definition scope selfBound) := by
  refine .after fun _ p hp => ⟨fun {q} hq => ?_⟩
  rw [Eval.alloc_apply, Eval.alloc_apply]
  exact .ended (hq.valid.newClosure (hc.mono (hp.trans hq).toKnows)) trivial

end Indifferent

/-! ## Packages and types -/

/-- What is found under a name is bound to it in some scope. -/
theorem exists_of_packageNamed? {h : Heap} {package : ScopeId}
    (hpackage : h.packageNamed? scope n = some package) :
    ∃ id c, h.scopes.get? id = some c ∧ (n, package) ∈ c.packages.entries := by
  obtain ⟨id, -, hid⟩ := List.exists_of_findSome?_eq_some hpackage
  cases hc : h.scopes.get? id with
  | none =>
    rw [Heap.scope_eq_of_none hc] at hid
    cases hid
  | some c =>
    rw [Heap.scope_eq_of_get? hc] at hid
    exact ⟨id, c, hc, Bindings.find?_eq_some hid⟩

/-- **A package is the same in both versions**, and it is known. -/
theorem Indifferent.packageOf? {object : Expr} (hscope : scope < k.next)
    (hobject : ∀ n, object.kind = .ident n → A.allows n ∨ A.Settled k n scope) :
    A.Indifferent k (fun p r => ∀ package, r = some package →
        ∃ n, object.kind = .ident n ∧ A.PackageKnown p n package)
      (Eval.packageOf? object scope) := by
  unfold Eval.packageOf?
  split
  · rename_i n hkind
    have hread : (do
          if (← Eval.readHeap (·.lookup? scope n)).isSome then return none
          Eval.readHeap (·.packageNamed? scope n) : Eval (Option ScopeId)) =
        Eval.read fun s => if (s.heap.lookup? scope n).isSome then none
          else s.heap.packageNamed? scope n := by
      funext s
      rw [Eval.bind_apply, Eval.readHeap_apply, Step.bind_of_done, Eval.andThen_ok, Eval.read_apply]
      split <;> rfl
    rw [hread]
    refine .read (fun p hp => ?_) fun p hp package hpackage => ?_
    · rw [hp.valid.toAlike.isSome_lookup?]
      by_cases hbound : (p.left.heap.lookup? scope n).isSome = true
      · rw [if_pos hbound, if_pos hbound]
      · rw [if_neg hbound, if_neg hbound]
        obtain hn | hn := hobject n hkind
        · exact hp.valid.toAlike.packageNamed?_of_allows hn scope
        · exact (hn.later hscope hp).packageNamed?_eq hp.valid.nested
            (Option.not_isSome_iff_eq_none.mp hbound)
    · split at hpackage
      · cases hpackage
      · obtain ⟨id, c, hc, hmem⟩ := exists_of_packageNamed? hpackage
        exact ⟨n, hkind, hp.valid.packagesKnown hc _ hmem⟩
  · exact .pure fun _ _ package hpackage => by cases hpackage

theorem resolveType_right (p : Versions) (scope : ScopeId) (type : TypeExpr) :
    (A.right p).heap.resolveType scope type = p.left.heap.resolveType scope type := by
  induction type with
  | named name => simp only [Heap.resolveType, right_typeNamed?]
  | slice elem ih | array elem len ih | chan elem ih => simp only [Heap.resolveType, ih]
  | map key value ihkey ihvalue => simp only [Heap.resolveType, ihkey, ihvalue]

instance (type : TypeExpr) (scope : ScopeId) : A.Neutral (Eval.resolve type scope) := by
  refine ⟨fun k => Indifferent.bind (P := fun _ _ => True) ?_ fun o p _ _ => Neutral.indifferent p⟩
  exact .read (fun p _ => resolveType_right p scope type) fun _ _ => trivial

end AllowList
end ScriptEngine
