import ScriptEngine.Proofs.EngineState.Confinement
import ScriptEngine.Proofs.Evaluator.Scripts
import ScriptEngine.Tree.Builder

/-! # Engines over copies of scopes

An engine over a copy of a scope leaves the scope of the host alone, and whatever only that scope leads
to.  What the copy shares with the original is no such thing: functions go on closing over the scopes
they were made in, channels and tokens are shared, and so are the scopes around.  Scripts can get at
these, at what the host hands over to the engine, and at what is made while the engine is there: such
objects are **exposed** (`Heap.Exposed`).  A scope is **isolated** from the engine in everything that is
not exposed (`copied_scope_isolated`).
-/
namespace ScriptEngine

/-! ## What is exposed -/

/-- The object can be got at from what a copy of the scope shares with the original, or from what is
lent. -/
def Heap.Common (h : Heap) (host : ScopeId) (lent : Zone) (o : Object) : Prop :=
  ∃ x, (lent x ∨ ∃ m, h.Comprises (.scope host) m ∧ x ∈ h.sharedBy m) ∧ h.Reaches x o

/-- Scripts over a copy of the scope may get at the object. -/
def Heap.Exposed (h : Heap) (host : ScopeId) (lent : Zone) : Zone :=
  fun o => h.Unused o ∨ h.Common host lent o

namespace Heap
variable {h : Heap} {host : ScopeId} {lent : Zone}

theorem encloses_exposed (h : Heap) (host : ScopeId) (lent : Zone) :
    h.Encloses (h.Exposed host lent) where
  unused _ ho := .inl ho
  closed o c ho hc o' ho' := by
    obtain hunused | ⟨x, hx, hreaches⟩ := ho
    · rw [hunused.cell?_eq_none] at hc
      cases hc
    · exact .inr ⟨x, hx, hreaches.tail (refers_iff.mpr ⟨c, hc, ho'⟩)⟩

theorem sheds_exposed (h : Heap) (host : ScopeId) (lent : Zone) :
    Sheds (h.Exposed host lent) h (.scope host) :=
  fun m hm x hx => .inr ⟨x, .inr ⟨m, hm, hx⟩, .refl⟩

theorem stays_bindFunctions {Z : Zone} (hz : h.Encloses Z) {scope : ScopeId} (hscope : Z (.scope scope))
    (fs : List HostFunction) : h.Stays Z (Engine.bindFunctions h scope fs) := by
  induction fs generalizing h with
  | nil => exact hz.stays
  | cons f rest ih =>
    unfold Engine.bindFunctions
    split
    · exact ih hz
    · obtain ⟨hadded, hv⟩ := hz.addFunc (f := .host f) nofun
      have hbound : (h.addFunc (.host f)).2.Stays Z
          ((h.addFunc (.host f)).2.bindVar scope f.name (h.addFunc (.host f)).1) :=
        stays_bindVar hadded.encloses hscope hv
      exact hadded.trans (hbound.trans (ih hbound.encloses))

end Heap

/-! ## Engines -/

/-- No task is under way: none can run or waits, and nothing is held, deferred or to be started. -/
structure Scheduler.AtRest (sch : Scheduler) : Prop where
  ready : sch.ready = []
  parked : sch.parked = []
  yielded : sch.yielded = []
  held : ∀ task xs, sch.state.held.get? task = some xs → xs = []
  deferred : ∀ frame calls, sch.state.frames.get? frame = some calls → calls = []
  started : ∀ task job, Notice.started task job ∉ sch.state.notices

namespace Scheduler.AtRest
variable {sch : Scheduler} (hrest : sch.AtRest)
include hrest

/-- Nothing is under way that could leave the zone. -/
theorem confined {Z : Zone} (hz : sch.state.heap.Encloses Z) {host : ScopeId}
    (hheld : host ∈ sch.state.pinned) : Confined Z sch.state.heap host sch.state where
  encloses := hz
  kept := fun _ _ _ => rfl
  pinned := hheld
  deferred := fun frame calls hcalls => by
    rw [hrest.deferred frame calls hcalls]
    exact nofun
  started := fun task job hj => absurd hj (hrest.started task job)
  held := fun task xs hxs => by
    rw [hrest.held task xs hxs]
    exact nofun

/-- There is no task that could break a law. -/
theorem safe {κ : Type} {view : EngineState → κ} {G : κ → κ → Prop} {s : EngineState}
    (hs : G (view s) (view s)) : Scheduler.Safe view G { sch with state := s } where
  valid := hs
  ready := by rw [hrest.ready]; exact nofun
  parked := by rw [hrest.parked]; exact nofun
  yielded := by rw [hrest.yielded]; exact nofun

end Scheduler.AtRest

/-- One thing that the host does with an engine. -/
inductive Usage (Z : Zone) (e : Engine) : Scheduler → Scheduler → Prop where
  /-- A script is run until it is over, or until the host gives it up; meanwhile other tasks run, in
  any order. -/
  | run {sch sch' : Scheduler} (fuel : Nat) (run : RunId) (script : Block)
      (hleaves : sch.MayLeave (e.execute fuel run script) sch') : Usage Z e sch sch'
  | define {sch : Scheduler} {name : String} {v : Value} {h : Heap} (hv : v.In Z)
      (hdefine : e.define sch.state.heap name v = .ok h) :
      Usage Z e sch { sch with state := { sch.state with heap := h } }
  | set {sch : Scheduler} {name : String} {v : Value} {h : Heap} (hv : v.In Z)
      (hset : e.set sch.state.heap name v = .ok h) :
      Usage Z e sch { sch with state := { sch.state with heap := h } }
  /-- The host makes objects, or changes some that it shares with the engine. -/
  | prepare {sch : Scheduler} {h : Heap} (hstays : sch.state.heap.Stays Z h) :
      Usage Z e sch { sch with state := { sch.state with heap := h } }
  /-- Runs, signals and time. -/
  | other {sch : Scheduler} {s : EngineState} (ha : sch.state.Alike s) :
      Usage Z e sch { sch with state := s }

section
variable {Z : Zone} {h₀ h : Heap} {host scope : ScopeId} {s : EngineState} {e : Engine}

theorem Confined.assemble (hs : Confined Z h₀ host s) (config : Config) (g : GovernorId)
    (hscope : Z (.scope scope)) (owns : Bool) :
    Confined Z h₀ host (Engine.assemble s config g scope owns).2 := by
  have hpin {t : EngineState} (ht : Confined Z h₀ host t) : Confined Z h₀ host (t.pin scope) :=
    { ht with pinned := List.mem_cons_of_mem _ ht.pinned }
  unfold Engine.assemble
  split
  · exact hpin (hs.heap (Heap.stays_bindFunctions hs.encloses hscope _))
  · exact hpin hs

/-- The values that an engine is given are exposed, or are copies of such. -/
theorem Heap.stays_protect (hz : h.Encloses Z) {v : Value} (hv : v.In Z) :
    h.Stays Z (Engine.protect h e v).2 ∧ (Engine.protect h e v).1.In Z := by
  unfold Engine.protect
  split
  · split
    · exact Heap.stays_deepCopy hz hv
    · exact ⟨hz.stays, hv⟩
  · exact ⟨hz.stays, hv⟩

theorem Engine.ofOutcome_eq_ok {α : Type} {o : Outcome α} {a : α} (ho : Engine.ofOutcome o = .ok a) :
    o = .ok a := by
  unfold Engine.ofOutcome at ho
  split at ho
  · cases ho
    rfl
  · cases ho
  · cases ho

theorem Heap.stays_engineDefine {h' : Heap} (hz : h.Encloses Z) (hscope : Z (.scope e.scope))
    {name : String} {v : Value} (hv : v.In Z) (hd : e.define h name v = .ok h') : h.Stays Z h' := by
  obtain ⟨hstays, hw⟩ := Heap.stays_protect (e := e) hz hv
  exact hstays.trans (Heap.stays_define hstays.encloses hscope hw (Engine.ofOutcome_eq_ok hd))

theorem Heap.stays_engineSet {h' : Heap} (hz : h.Encloses Z) (hscope : Z (.scope e.scope))
    {name : String} {v : Value} (hv : v.In Z) (hd : e.set h name v = .ok h') : h.Stays Z h' := by
  obtain ⟨hstays, hw⟩ := Heap.stays_protect (e := e) hz hv
  exact hstays.trans (Heap.stays_assign hstays.encloses hscope hw (Engine.ofOutcome_eq_ok hd))

/-- **Whatever the host does with an engine in the zone, states stay confined.** -/
theorem Usage.leads {sch sch' : Scheduler} (hu : Usage Z e sch sch') (hz : h₀.Encloses Z)
    (hscope : Z (.scope e.scope)) (hs : sch.Safe id fun _ s => Confined Z h₀ host s) :
    sch'.Safe id fun _ s => Confined Z h₀ host s := by
  have hC : Habits Z _ (fun _ s => Confined Z h₀ host s) _ := (customs_confined hz).habits
  have hvalid : Confined Z h₀ host sch.state := hs.valid
  have hheap {h : Heap} (hstays : sch.state.heap.Stays Z h) :=
    (hs.withState hC.toLaw (hvalid.heap hstays)).safe
  cases hu with
  | run fuel run script hleaves =>
    exact (hs.leaves hC.discipline
      (hC.safe_execute fuel hscope run (Block.in_all script) sch.state) hleaves).safe
  | define hv hdefine => exact hheap (Heap.stays_engineDefine hvalid.encloses hscope hv hdefine)
  | set hv hset => exact hheap (Heap.stays_engineSet hvalid.encloses hscope hv hset)
  | prepare hstays => exact hheap hstays
  | other ha =>
    have hsame := hvalid.same ha.heap ha.frames ha.held ha.pinned ha.jobs
    exact (hs.withState hC.toLaw hsame).safe

end

/-! ## Isolation -/

/-- An engine over a copy of the host's scope starts out confined. -/
theorem confined_withScope {sch : Scheduler} {config : Config} {host : ScopeId} (lent : Zone)
    (hrest : sch.AtRest) (hheld : host ∈ sch.state.pinned)
    (hends : sch.state.heap.Copyable (.scope host)) (hcopy : config.copyScope = true) :
    Confined (sch.state.heap.Exposed host lent) sch.state.heap host
        (Engine.withScope sch.state config host).2 ∧
      sch.state.heap.Exposed host lent (.scope (Engine.withScope sch.state config host).1.scope) := by
  have hz := sch.state.heap.encloses_exposed host lent
  have hs := hrest.confined hz hheld
  obtain ⟨hgains, hin⟩ := Heap.gains_copyScope sch.state.governors.next hz hends
    (sch.state.heap.sheds_exposed host lent)
  unfold Engine.withScope
  rw [if_pos hcopy]
  refine ⟨Confined.assemble ?_ config _ hin true, hin⟩
  exact (hs.gains hgains).same rfl rfl rfl rfl fun _ _ hj => hj

/-- **An engine over a copy of a scope leaves the original alone.**  Let the host hold a scope that can
be copied, and let no task be under way.  Whatever scripts are run on an engine over a copy of the scope,
in whatever order their tasks take turns, and whatever values are defined and set on it, all that the scope
led to (itself, its packages, and the lists, maps and structs that names of it lead to) is what it was,
unless it can be got at from what the copy shares with the original, or from what the host lends to the
engine. -/
theorem copied_scope_isolated {sch sch' : Scheduler} {config : Config} {host : ScopeId} {lent : Zone}
    (hrest : sch.AtRest) (hheld : host ∈ sch.state.pinned)
    (hends : sch.state.heap.Copyable (.scope host)) (hcopy : config.copyScope = true)
    (huse : Relation.ReflTransGen
      (Usage (sch.state.heap.Exposed host lent) (Engine.withScope sch.state config host).1)
      { sch with state := (Engine.withScope sch.state config host).2 } sch')
    {o : Object} {c : Cell} (ho : sch.state.heap.Reaches (.scope host) o)
    (hc : sch.state.heap.cell? o = some c) (hown : ¬ sch.state.heap.Common host lent o) :
    sch'.state.heap.cell? o = some c := by
  have hz := sch.state.heap.encloses_exposed host lent
  obtain ⟨hconfined, hscope⟩ := confined_withScope lent hrest hheld hends hcopy
  have hsafe : Scheduler.Safe id
      (fun _ s => Confined (sch.state.heap.Exposed host lent) sch.state.heap host s) sch' := by
    induction huse with
    | refl => exact hrest.safe hconfined
    | tail _ hu ih => exact hu.leads hz hscope ih
  have hkept : sch'.state.heap.cell? o = sch.state.heap.cell? o := by
    refine hsafe.valid.kept o ho fun hexposed => ?_
    obtain hunused | hcommon := hexposed
    · rw [hunused.cell?_eq_none] at hc
      cases hc
    · exact hown hcommon
  exact hkept.trans hc

/-! ## A scope inside another one -/

/-- The host holds a scope with a number, a list and a function, inside a scope with a number. -/
def hosted (raise : Function) : Scheduler :=
  let around : Scope := { vars := ⟨[("total", .int 0)]⟩ }
  let host : Scope :=
    { vars := ⟨[("limit", .int 10), ("items", .list 0), ("raise", .func 0)]⟩, parent := some 0 }
  { state := { EngineState.initial with
      heap := {
        lists := Store.push {} ⟨#[.int 1], none, false⟩
        funcs := Store.push {} raise
        scopes := (Store.push {} around).push host }
      governors := Store.push {} { limit := 0 }
      pinned := [1] } }

/-- Engines copy scopes, and bring no functions of their own. -/
def copying : Config := { copyScope := true, coreBuiltins := false }

/-- The engine over a copy of that scope, and the state with it. -/
def hostedCopy (raise : Function) : Engine × EngineState :=
  Engine.withScope (hosted raise).state copying 1

/-- The scheduler after a script on that engine. -/
def afterScript (raise : Function) (script : Block) : Scheduler :=
  (({ hosted raise with state := (hostedCopy raise).2 } : Scheduler).run 40
    ((hostedCopy raise).1.execute 40 0 script)).1

/-- `func raise() { limit = 20 }`, made in the scope itself. -/
def raiseLimit : Function :=
  .script (.mk (some "raise") [] false [.assignTo "limit" (.int 20)]) 1 false

/-- A copy shares the scopes around with the original, and a function that is copied with a scope goes
on closing over the original: scripts change either. -/
theorem copied_scope_shares :
    (hosted raiseLimit).state.heap.lookup? 1 "limit" = some (.int 10) ∧
      (hosted raiseLimit).state.heap.lookup? 1 "total" = some (.int 0) ∧
      (afterScript raiseLimit [.expr (.call (.ident "raise") [])]).state.heap.lookup? 1 "limit" =
        some (.int 20) ∧
      (afterScript raiseLimit [.assignTo "total" (.int 5)]).state.heap.lookup? 1 "total" =
        some (.int 5) := by
  decide +kernel

/-- `func raise() { total = 5 }`, made in the scope around. -/
def raiseTotal : Function :=
  .script (.mk (some "raise") [] false [.assignTo "total" (.int 5)]) 0 false

/-- `limit = 20`, then `items[0] = 9`, then `raise()`. -/
def overwriting : Block :=
  [.assignTo "limit" (.int 20), .assign (.index (.ident "items") (.int 0)) (.int 9),
    .expr (.call (.ident "raise") [])]

theorem hosted_atRest (raise : Function) : (hosted raise).AtRest where
  ready := rfl
  parked := rfl
  yielded := rfl
  held task xs hxs := by
    obtain rfl | hnone := Store.get?_push hxs
    · rfl
    · cases hnone
  deferred _ _ hcalls := by cases hcalls
  started _ _ hj := by cases Array.mem_toList_iff.mpr hj

/-- Copying the scope comes across its list and its function. -/
theorem hosted_comprises {o : Object}
    (ho : (hosted raiseTotal).state.heap.Comprises (.scope 1) o) :
    o ∈ [.scope 1, .list 0, .func 0] :=
  mem_of_reflTransGen (by decide +kernel) (by decide) ho

theorem hosted_copyable : (hosted raiseTotal).state.heap.Copyable (.scope 1) where
  made o ho := by
    obtain rfl | rfl | rfl : o = .scope 1 ∨ o = .list 0 ∨ o = .func 0 := by
      simpa using hosted_comprises ho
    all_goals exact Nat.not_le_of_lt (by decide +kernel)
  grounded o ho hinside := by
    obtain ⟨m, hm, hlast⟩ := Relation.TransGen.tail'_iff.mp hinside
    obtain ⟨next, hfirst, -⟩ := Relation.TransGen.head'_iff.mp hinside
    have hscope : ∀ m ∈ [Object.scope 1, .list 0, .func 0],
        Object.scope 1 ∉ (hosted raiseTotal).state.heap.contents m := by
      decide +kernel
    obtain rfl | rfl | rfl : o = .scope 1 ∨ o = .list 0 ∨ o = .func 0 := by
      simpa using hosted_comprises ho
    · exact absurd hlast (hscope m (hosted_comprises (ho.trans hm)))
    · exact .inl ⟨0, rfl⟩
    · cases hfirst

/-- Nothing but the scope around and the function is exposed. -/
theorem hosted_common {o : Object}
    (ho : (hosted raiseTotal).state.heap.Common 1 (fun _ => False) o) : o ∈ [.scope 0, .func 0] := by
  obtain ⟨x, hlent | ⟨m, hm, hx⟩, hreaches⟩ := ho
  · cases hlent
  · have hshared : ∀ m ∈ [Object.scope 1, .list 0, .func 0],
        ∀ x ∈ (hosted raiseTotal).state.heap.sharedBy m, x ∈ [Object.scope 0, .func 0] := by
      decide +kernel
    exact mem_of_reflTransGen (by decide +kernel) (hshared m (hosted_comprises hm) x hx) hreaches

/-- The script overwrites a number and an item of the copy, and a number of the scope around. -/
theorem copied_scope_isolated_overwriting :
    (∀ o ∈ [Object.scope 1, .list 0],
      (afterScript raiseTotal overwriting).state.heap.cell? o =
        (hosted raiseTotal).state.heap.cell? o) ∧
      (afterScript raiseTotal overwriting).state.heap.lookup? (hostedCopy raiseTotal).1.scope "limit" =
        some (.int 20) ∧
      (afterScript raiseTotal overwriting).state.heap.lookup? 1 "total" = some (.int 5) := by
  refine ⟨?_, by decide +kernel, by decide +kernel⟩
  have huse : Relation.ReflTransGen
      (Usage ((hosted raiseTotal).state.heap.Exposed 1 fun _ => False)
        (Engine.withScope (hosted raiseTotal).state copying 1).1)
      { hosted raiseTotal with state := (Engine.withScope (hosted raiseTotal).state copying 1).2 }
      (afterScript raiseTotal overwriting) :=
    .single (.run 40 0 overwriting (Scheduler.mayLeave_run _ 40 _))
  have hkept {o : Object} {c : Cell} (ho : (hosted raiseTotal).state.heap.Reaches (.scope 1) o)
      (hc : (hosted raiseTotal).state.heap.cell? o = some c) (hown : o ∉ [Object.scope 0, .func 0]) :
      (afterScript raiseTotal overwriting).state.heap.cell? o = some c :=
    copied_scope_isolated (hosted_atRest _) (List.mem_singleton_self 1) hosted_copyable rfl huse ho
      hc fun hcommon => hown (hosted_common hcommon)
  have hitems : Object.list 0 ∈ (hosted raiseTotal).state.heap.references (.scope 1) := by
    decide +kernel
  refine List.forall_mem_cons.mpr ⟨hkept .refl rfl (by decide), List.forall_mem_singleton.mpr ?_⟩
  exact hkept (.single hitems) rfl (by decide)

end ScriptEngine
