import ScriptEngine.Proofs.DeepCopy
import ScriptEngine.Engine
import ScriptEngine.Tree.Builder

/-! # What a copied scope is like

A copy of a scope binds the same names, each to a copy of its value (`Heap.Replicas`).  The copies are
made name by name, and nothing is remembered from one to the next: what can be got at under two names in
the original is there twice in the copy, and a script that writes under the one name does not see it
under the other (`copied_scope_parts_names`).  If nothing can be got at under two names, and nothing in
two ways in a struct, the copied scope is the original over again, object by object
(`Heap.copied_scope_corresponds`).
-/
namespace ScriptEngine
namespace Heap
variable {h h' h'' : Heap} {R R' : Pairing} {o p x : Object} {v w : Value} {name : String}
variable {vars vars' : List (String × Value)} {host : ScopeId}

/-- Nothing but leaves can be got at under two names, and no struct, nor anything that stands in one, can
be got at in two ways. -/
structure Separate (h : Heap) (vars : List (String × Value)) : Prop where
  parted : ∀ e ∈ vars, h.Parted e.2
  apart : vars.Pairwise fun e e' => ∀ x, h.Within e.2 x → h.Within e'.2 x → h.Leaf x

/-- **The second names are bound to copies of what the first ones are bound to**, and no two of them
have anything in common but leaves. -/
structure Replicas (h h' : Heap) (R : Pairing) (vars vars' : List (String × Value)) : Prop where
  gains : h.Gains (fun _ => True) h'
  becomes : List.Forall₂ (Becomes h R) (vars.map (·.2)) (vars'.map (·.2))
  names : vars'.map (·.1) = vars.map (·.1)
  duplicate : ∀ o p, R o p → Duplicate h h' R o p
  fresh : ∀ o p, R o p → h.Unused p ∧ ¬ h'.Unused p
  met : ∀ o p, R o p → ∃ e ∈ vars, h.Within e.2 o
  injective : ∀ o o' p, R o p → R o' p → o = o'
  apart : vars'.Pairwise fun e e' => ∀ x, h'.Within e.2 x → h'.Within e'.2 x → h'.Leaf x
  /-- Unless something can be got at under two names, or in two ways in a struct, everything is copied
  once. -/
  functional : h.Separate vars → ∀ o p p', R o p → R o p' → p = p'

theorem Replicas.nil (h : Heap) : Replicas h h ⊥ [] [] where
  gains := h.encloses_all.gains
  becomes := .nil
  names := rfl
  duplicate := nofun
  fresh := nofun
  met := nofun
  injective := nofun
  apart := .nil
  functional := nofun

/-- What can be copied can still be got at where it could, and only there. -/
theorem within_of_gains {Z : Zone} (hg : h.Gains Z h') (hv : v.In h.Copyable) (hx : h'.Within v x) :
    h.Within v x := by
  obtain ⟨o, ho, hcomp⟩ := hx
  exact ⟨o, ho, (hv o ho).comprises_of_gains hg hcomp⟩

theorem made_of_within (hv : v.In h.Copyable) (hx : h.Within v x) : ¬ h.Unused x := by
  obtain ⟨o, ho, hcomp⟩ := hx
  exact (hv o ho).made x hcomp

theorem Parted.gains {Z : Zone} (hp : h.Parted v) (hg : h.Gains Z h') (hv : v.In h.Copyable) :
    h'.Parted v := by
  have hwithin {x : Object} (hx : h'.Within v x) : h.Within v x := within_of_gains hg hv hx
  have hmade {x : Object} (hx : h'.Within v x) : ¬ h.Unused x := made_of_within hv (hwithin hx)
  have hleaf {x : Object} (hx : ¬ h'.Leaf x) : ¬ h.Leaf x := fun hl => hx (hg.leaf hl)
  have hin {x : Object} (hx : h'.Enclosed (h'.Within v) x) : h.Enclosed (h.Within v) x := by
    obtain ⟨id, hid, hstruct, hcomp⟩ := hx
    obtain ⟨o, ho, hcomp'⟩ := hwithin hid
    refine ⟨id, ⟨o, ho, hcomp'⟩, ?_, ((hv o ho).comprised hcomp').comprises_of_gains hg hcomp⟩
    rwa [handle_congr (hg.kept _ (hmade hid))] at hstruct
  have hholds {o x : Object} (ho : h'.Within v o) (hx : h'.Holds o x) : h.Holds o x := by
    rwa [Holds, (hg.contents_eq (hmade ho)).1] at hx
  have helements {o : Object} (ho : h'.Within v o) : h'.elements o = h.elements o :=
    elements_congr (hg.kept o (hmade ho))
  exact {
    holder := fun x o o' hx hl ho ho' hheld hheld' =>
      hp.holder x o o' (hin hx) (hleaf hl) (hwithin ho) (hwithin ho') (hholds ho hheld)
        (hholds ho' hheld')
    place := fun x o i j hx hl ho hi hj =>
      hp.place x o i j (hin hx) (hleaf hl) (hwithin ho) (helements ho ▸ hi) (helements ho ▸ hj)
    top := fun x o hx hl hvx ho hheld =>
      hp.top x o (hin hx) (hleaf hl) hvx (hwithin ho) (hholds ho hheld) }

theorem Separate.gains {Z : Zone} (hs : h.Separate vars) (hg : h.Gains Z h')
    (hvars : ∀ e ∈ vars, e.2.In h.Copyable) : h'.Separate vars where
  parted e he := (hs.parted e he).gains hg (hvars e he)
  apart := by
    refine hs.apart.imp_of_mem fun {e e'} he he' hapart x hx hx' => ?_
    exact hg.leaf (hapart x (within_of_gains hg (hvars e he) hx)
      (within_of_gains hg (hvars e' he') hx'))

/-- One more name is copied, before the others are. -/
theorem Replicas.cons (hr : Replica h h' R v w) (hrs : Replicas h' h'' R' vars vars')
    (hvars : ∀ e ∈ vars, e.2.In h.Copyable) :
    Replicas h h'' (R ⊔ R') ((name, v) :: vars) ((name, w) :: vars') := by
  have hmade {e : String × Value} {x : Object} (he : e ∈ vars) (hx : h.Within e.2 x) :
      ¬ h.Unused x := made_of_within (hvars e he) hx
  have hmet {o p : Object} (hR : R' o p) : ∃ e ∈ vars, h.Within e.2 o := by
    obtain ⟨e, he, hx⟩ := hrs.met o p hR
    exact ⟨e, he, within_of_gains hr.gains (hvars e he) hx⟩
  have hdup (o p : Object) (hR : R o p) : Duplicate h h'' R o p :=
    (hr.duplicate o p hR).mono (hrs.gains.kept p (hr.fresh o p hR).2) le_rfl
  have hdup' (o p : Object) (hR : R' o p) : Duplicate h h'' R' o p := by
    obtain ⟨e, he, hx⟩ := hmet hR
    exact (hrs.duplicate o p hR).of_gains hr.gains (hmade he hx) fun y hy => hmade he (hx.held hy)
  have hgains := hr.gains.trans hrs.gains
  exact {
    gains := hgains
    becomes := by
      refine .cons (hr.becomes.mono le_sup_left) ((becomes_of_gains hr.gains ?_ hrs.becomes).imp
        fun _ _ hb => hb.mono le_sup_right)
      refine Value.forall_objects.mpr (List.forall_mem_map.mpr fun e he o ho => ?_)
      exact (hvars e he o ho).made o .refl
    names := congrArg (List.cons name) hrs.names
    duplicate := by
      rintro o p (hR | hR)
      · exact (hdup o p hR).mono rfl le_sup_left
      · exact (hdup' o p hR).mono rfl le_sup_right
    fresh := by
      rintro o p (hR | hR)
      · exact ⟨(hr.fresh o p hR).1, fun hp => (hr.fresh o p hR).2 (hrs.gains.unused p hp)⟩
      · exact ⟨hr.gains.unused p (hrs.fresh o p hR).1, (hrs.fresh o p hR).2⟩
    met := by
      rintro o p (hR | hR)
      · exact ⟨_, List.mem_cons_self, hr.met o p hR⟩
      · obtain ⟨e, he, hx⟩ := hmet hR
        exact ⟨e, List.mem_cons_of_mem _ he, hx⟩
    injective := by
      rintro o o' p (hR | hR) (hR' | hR')
      · exact hr.injective o o' p hR hR'
      · exact absurd (hrs.fresh o' p hR').1 (hr.fresh o p hR).2
      · exact absurd (hrs.fresh o p hR).1 (hr.fresh o' p hR').2
      · exact hrs.injective o o' p hR hR'
    -- What is copied for the first name is there before anything is copied for the others.
    apart := by
      refine List.pairwise_cons.mpr ⟨fun e' he' x hx hx' => ?_, hrs.apart⟩
      obtain ⟨v', -, hb'⟩ := exists_of_forall₂ (S := flip (Becomes h' R')) hrs.becomes.flip e'.2
        (List.mem_map_of_mem he')
      obtain hleaf | ⟨o, hR⟩ := hr.becomes.exists_original hdup hgains.leaf hx
      · exact hgains.leaf hleaf
      · obtain hleaf | ⟨o', hR'⟩ := hb'.exists_original hrs.duplicate hrs.gains.leaf hx'
        · exact hrs.gains.leaf hleaf
        · exact absurd (hrs.fresh o' x hR').1 (hr.fresh o x hR).2
    functional := by
      intro hs
      have hparted := hs.parted _ List.mem_cons_self
      obtain ⟨hfirst, hrest⟩ := List.pairwise_cons.mp hs.apart
      have hseparate : h.Separate vars :=
        ⟨fun e he => hs.parted e (List.mem_cons_of_mem _ he), hrest⟩
      have hnever {o p p' : Object} (hR : R o p) (hR' : R' o p') : False := by
        obtain ⟨e, he, hx⟩ := hmet hR'
        exact (hr.duplicate o p hR).not_leaf (hfirst e he o (hr.met o p hR) hx)
      rintro o p p' (hR | hR) (hR' | hR')
      · exact hr.functional hparted o p p' hR hR'
      · exact (hnever hR hR').elim
      · exact (hnever hR' hR).elim
      · exact hrs.functional (hseparate.gains hr.gains hvars) o p p' hR hR' }

theorem exists_replicas (hvars : ∀ e ∈ vars, e.2.In h.Copyable) :
    ∃ R, Replicas h (copyVars h vars).2 R vars (copyVars h vars).1 := by
  induction vars generalizing h with
  | nil => exact ⟨⊥, .nil h⟩
  | cons e rest ih =>
    obtain ⟨hv, hrest⟩ := List.forall_mem_cons.mp hvars
    obtain ⟨R, hr⟩ := exists_replica fun o ho => (hv o ho).founded
    obtain ⟨R', hrs⟩ := ih fun e he o ho => (hrest e he o ho).gains hr.gains
    exact ⟨R ⊔ R', .cons hr hrs hrest⟩

/-- What is read under the names is what was to be read before, list by list and map by map. -/
theorem Replicas.unfolding_eq (hr : Replicas h h' R vars vars')
    (hvars : ∀ e ∈ vars, e.2.In h.StructFree) :
    List.Forall₂ (fun v w => h'.unfolding w = h.unfolding v) (vars.map (·.2)) (vars'.map (·.2)) := by
  have hplain {id : HandleId} {p : Object} (hR : R (.handle id) p) : False := by
    obtain ⟨e, he, x, hx, hcomp⟩ := hr.met _ p hR
    have hleaf := (hvars e he x hx).plain id hcomp
    cases hr.duplicate _ p hR with
    | struct hd hc =>
      rw [hc] at hleaf
      cases hleaf
  exact hr.becomes.imp fun _ _ hb => hb.unfolding_eq hr.duplicate @hplain

/-! ## The new scope -/

/-- What can be got at from a value does not depend on scopes. -/
theorem within_scopes {scopes : Store Scope} (hx : Within { h with scopes } v x) : h.Within v x := by
  obtain ⟨o, ho, hcomp⟩ := hx
  have hkept : h.Comprises o x ∧ ∃ w : Value, w.object? = some x := by
    induction hcomp with
    | refl => exact ⟨.refl, v, ho⟩
    | @tail y z _ hz ih =>
      obtain ⟨hcomp, w, hw⟩ := ih
      have hheld : h.Holds y z := by
        cases w <;> cases hw <;> exact hz
      exact ⟨hcomp.tail hheld, exists_value_of_holds hw hheld⟩
  exact ⟨o, ho, hkept.1⟩

theorem Replicas.scopes {scopes : Store Scope} (hr : Replicas h h' R vars vars')
    (hgains : h.Gains (fun _ => True) { h' with scopes }) :
    Replicas h { h' with scopes } R vars vars' :=
  { hr with
    gains := hgains
    duplicate := fun o p hR => by
      have hd := hr.duplicate o p hR
      refine hd.mono ?_ le_rfl
      cases hd <;> rfl
    fresh := fun o p hR => by
      have hfresh := hr.fresh o p hR
      cases hr.duplicate o p hR <;> exact hfresh
    apart := hr.apart.imp fun hapart x hx hx' => hapart x (within_scopes hx) (within_scopes hx') }

/-- **What copying a scope comes to.**  The copy of a scope without packages has the same names, types
and surroundings.  Each name is bound to a copy of its value: there are pairs of a list, a map or a
struct and a copy of it, such that the copies are new, each is a copy of one object only, and each is
declared and made like its original; functions, channels and tokens stay what they are.  What two names
of the copy lead to has only leaves in common.  If there are no structs, every name unfolds as before.  If
the names of the original have only leaves in common too, and no struct, nor anything that stands in one,
can be got at in two ways, then the pairs match one by one: sharing and cycles are as in the original. -/
theorem copied_scope_corresponds {h : Heap} {host : ScopeId} (governor : GovernorId)
    (hc : h.Copyable (.scope host)) (hpackages : (h.scope host).packages = .empty) :
    (((h.copyScope host governor).2.scope (h.copyScope host governor).1).types,
        ((h.copyScope host governor).2.scope (h.copyScope host governor).1).packages,
        ((h.copyScope host governor).2.scope (h.copyScope host governor).1).parent) =
      ((h.scope host).types, .empty, (h.scope host).parent) ∧
    ∃ R, Replicas h (h.copyScope host governor).2 R (h.scope host).vars.entries
        ((h.copyScope host governor).2.scope (h.copyScope host governor).1).vars.entries ∧
      ((∀ e ∈ (h.scope host).vars.entries, e.2.In h.StructFree) →
        List.Forall₂ (fun v w => (h.copyScope host governor).2.unfolding w = h.unfolding v)
          ((h.scope host).vars.entries.map (·.2))
          (((h.copyScope host governor).2.scope
            (h.copyScope host governor).1).vars.entries.map (·.2))) := by
  have hvars : ∀ e ∈ (h.scope host).vars.entries, e.2.In h.Copyable := by
    intro e he o ho
    exact hc.held (List.mem_append_left _ (List.mem_filterMap.mpr ⟨_, List.mem_map_of_mem he, ho⟩))
  obtain ⟨R, hr⟩ := exists_replicas hvars
  have hcopy : h.copyScope host governor =
      ((copyVars h (h.scope host).vars.entries).2.scopes.next,
        { (copyVars h (h.scope host).vars.entries).2 with
          scopes := (copyVars h (h.scope host).vars.entries).2.scopes.push
            { vars := ⟨(copyVars h (h.scope host).vars.entries).1⟩, types := (h.scope host).types
              packages := .empty, parent := (h.scope host).parent, governor } }) := by
    rw [copyScope, copyScopeUpTo, hpackages]
    rfl
  have hreplicas : Replicas h (h.copyScope host governor).2 R (h.scope host).vars.entries
      ((h.copyScope host governor).2.scope (h.copyScope host governor).1).vars.entries := by
    rw [hcopy]
    simp only [scope, Store.get?_push_next, Option.getD_some]
    exact hr.scopes (hr.gains.addScope fun _ _ => trivial)
  refine ⟨?_, R, hreplicas, hreplicas.unfolding_eq⟩
  rw [hcopy]
  simp only [scope, Store.get?_push_next, Option.getD_some]

/-- Three lists, two of them in the fields of a struct. -/
def sorted : Heap where
  lists := ((Store.push {} ⟨#[.int 0], none, false⟩).push ⟨#[.int 0], none, false⟩).push
    ⟨#[.int 0], none, false⟩
  handles := Store.push {} (.struct ⟨"Pair", [("a", .any), ("b", .any)], [.list 0, .list 1]⟩)

/-- A struct may well be there, if it and what stands in it can be got at in one way only. -/
theorem sorted_separate : sorted.Separate [("x", .list 2), ("p", .handle 0)] := by
  have hlist {x : Object} (hx : sorted.Within (.list 2) x) : x = .list 2 := by
    obtain ⟨o, ho, hcomp⟩ := hx
    cases ho
    have hmem := mem_of_reflTransGen (f := sorted.contents) (S := [.list 2]) (by decide +kernel)
      (by decide) hcomp
    simpa using hmem
  have hstruct {x : Object} (hx : sorted.Within (.handle 0) x) :
      x = .handle 0 ∨ x = .list 0 ∨ x = .list 1 := by
    obtain ⟨o, ho, hcomp⟩ := hx
    cases ho
    have hmem := mem_of_reflTransGen (f := sorted.contents) (S := [.handle 0, .list 0, .list 1])
      (by decide +kernel) (by decide) hcomp
    simpa using hmem
  have hnever {x : Object} : ¬ sorted.Enclosed (sorted.Within (.list 2)) x := by
    rintro ⟨id, hid, -⟩
    cases hlist hid
  -- Only the struct holds anything, and two different lists.
  have hholder {o x : Object} (ho : sorted.Within (.handle 0) o) (hx : sorted.Holds o x) :
      o = .handle 0 ∧ x ∈ [Object.list 0, .list 1] := by
    obtain rfl | rfl | rfl := hstruct ho
    · exact ⟨rfl, hx⟩
    · cases hx
    · cases hx
  refine ⟨List.forall_mem_cons.mpr ⟨⟨fun _ _ _ hx => absurd hx hnever,
    fun _ _ _ _ hx => absurd hx hnever, fun _ _ hx => absurd hx hnever⟩,
    List.forall_mem_singleton.mpr ⟨fun x o o' _ _ ho ho' hx hx' => ?_,
      fun x o i j _ _ ho hi hj => ?_, fun x o _ _ hvx ho hx => ?_⟩⟩,
    List.pairwise_pair.mpr fun x hx hx' => ?_⟩
  · exact (hholder ho hx).1.trans (hholder ho' hx').1.symm
  · obtain ⟨rfl, -⟩ := hholder ho hi.holds
    have hfields : sorted.elements (.handle 0) = [.list 0, .list 1] := rfl
    rw [hfields] at hi hj
    obtain _ | _ | i := i
    all_goals
      obtain _ | _ | j := j
      all_goals first | rfl | cases hi <;> cases hj
  · cases hvx
    have hmem := (hholder ho hx).2
    revert hmem
    decide
  · obtain rfl := hlist hx
    obtain heq | heq | heq := hstruct hx' <;> cases heq

end Heap

/-! ## A scope whose names share -/

/-- The host holds a scope with one list under two names, and another one in two fields of a struct. -/
def entangled : EngineState :=
  let fields : List (String × HostType) := [("a", .any), ("b", .any)]
  { EngineState.initial with
    heap := {
      lists := (Store.push {} ⟨#[.int 0], none, false⟩).push ⟨#[.int 0], none, false⟩
      handles := Store.push {} (.struct ⟨"Pair", fields, [.list 1, .list 1]⟩)
      scopes := Store.push {} { vars := ⟨[("x", .list 0), ("y", .list 0), ("p", .handle 0)]⟩ } }
    governors := Store.push {} { limit := 0 }
    pinned := [0] }

theorem not_inside_itself {h : Heap} {o : Object} {S : List Object}
    (hS : ∀ x ∈ S, ∀ y ∈ h.contents x, y ∈ S) (hcontents : ∀ x ∈ h.contents o, x ∈ S)
    (ho : o ∉ S) : ¬ Relation.TransGen h.Holds o o := by
  intro hinside
  obtain ⟨x, hx, hback⟩ := Relation.TransGen.head'_iff.mp hinside
  exact ho (mem_of_reflTransGen hS (hcontents x hx) hback)

theorem entangled_copyable : entangled.heap.Copyable (.scope 0) := by
  have hmet {x : Object} (hx : entangled.heap.Comprises (.scope 0) x) :
      x = .scope 0 ∨ x = .list 0 ∨ x = .list 1 ∨ x = .handle 0 := by
    have hmem := mem_of_reflTransGen (f := entangled.heap.contents)
      (S := [.scope 0, .list 0, .list 1, .handle 0]) (by decide +kernel) (by decide) hx
    simpa using hmem
  refine ⟨fun x hx => ?_, fun x hx hinside => ?_⟩
  · obtain rfl | rfl | rfl | rfl := hmet hx <;> exact Nat.not_le_of_lt (by decide +kernel)
  · obtain rfl | rfl | rfl | rfl := hmet hx
    · exact absurd hinside (not_inside_itself (S := [.list 0, .list 1, .handle 0]) (by decide +kernel)
        (by decide +kernel) (by decide))
    · exact .inl ⟨0, rfl⟩
    · exact .inl ⟨1, rfl⟩
    · exact absurd hinside (not_inside_itself (S := [.list 1]) (by decide +kernel)
        (by decide +kernel) (by decide))

/-- In the copy each name and each field has a list of its own. -/
theorem copied_scope_corresponds_entangled :
    ((entangled.heap.copyScope 0 1).2.scope 1).vars.entries =
        [("x", .list 2), ("y", .list 3), ("p", .handle 1)] ∧
      ((entangled.heap.copyScope 0 1).2.handle 1).objects = [.list 4, .list 5] ∧
      ∃ R, Heap.Replicas entangled.heap (entangled.heap.copyScope 0 1).2 R
        [("x", .list 0), ("y", .list 0), ("p", .handle 0)]
        [("x", .list 2), ("y", .list 3), ("p", .handle 1)] := by
  obtain ⟨-, R, hr, -⟩ := Heap.copied_scope_corresponds 1 entangled_copyable rfl
  exact ⟨rfl, rfl, R, hr⟩

/-- An engine over that scope, or over a copy of it. -/
def entangledEngine (copyScope : Bool) : Engine × EngineState :=
  Engine.withScope entangled { copyScope, coreBuiltins := false } 0

/-- `x[0] = 1`, then `p.a[0] = 1`, then `return y[0] + p.b[0]`. -/
def writingThrough : Block :=
  let first (e : Expr) : Expr := .index e (.int 0)
  [.assign (first (.ident "x")) (.int 1),
    .assign (first (.member (.ident "p") "a")) (.int 1),
    .ret (.binary .add (first (.ident "y")) (first (.member (.ident "p") "b")))]

/-- The number that the script comes to on such an engine. -/
def sumWritten (copyScope : Bool) : Option Int64 :=
  let (engine, s) := entangledEngine copyScope
  match (({ state := s } : Scheduler).run 40 (engine.execute 40 0 writingThrough)).2 with
  | .done (.ok (.int n)) => some n
  | _ => none

/-- **Copying a scope parts its names.**  Over the scope itself the script sees both of its writes under
the other name and in the other field, over a copy it sees neither. -/
theorem copied_scope_parts_names : sumWritten false = some 2 ∧ sumWritten true = some 0 := by
  decide +kernel

end ScriptEngine
