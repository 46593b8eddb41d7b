import Mathlib.Logic.Relation
import ScriptEngine.Proofs.EngineState.Collecting
import ScriptEngine.Proofs.Heap.Duplicates
import ScriptEngine.Proofs.Task.Customs

/-! # States that are confined to a zone

The host owns objects, and holds a scope that leads to them.  A state is **confined** to a zone
(`Confined`) if scripts can get only at objects of the zone, and if every object that the host's scope
led to and that is not of the zone is what it was.  Evaluation keeps states confined
(`customs_confined`): it changes objects of the zone only, and garbage does not include what the host
holds.
-/
namespace ScriptEngine

/-- What the object refers to, if it is there. -/
def Heap.references (h : Heap) (o : Object) : List Object :=
  match h.cell? o with
  | some c => c.objects
  | none => []

/-- The first object refers to the second one. -/
def Heap.Refers (h : Heap) (o o' : Object) : Prop := o' ∈ h.references o

theorem Heap.refers_iff {h : Heap} {o o' : Object} :
    h.Refers o o' ↔ ∃ c, h.cell? o = some c ∧ o' ∈ c.objects := by
  rw [Refers, references]
  cases h.cell? o <;> simp

/-- Who has the first object can get at the second one. -/
def Heap.Reaches (h : Heap) : Object → Object → Prop := Relation.ReflTransGen h.Refers

/-- **The state is confined to the zone**: scripts can get at nothing else, and what `host` led to in
the heap `h₀` is as it was there, unless it is of the zone. -/
structure Confined (Z : Zone) (h₀ : Heap) (host : ScopeId) (s : EngineState) : Prop where
  encloses : s.heap.Encloses Z
  kept : ∀ o, h₀.Reaches (.scope host) o → ¬ Z o → s.heap.cell? o = h₀.cell? o
  pinned : host ∈ s.pinned
  deferred : DeferredIn Z s.frames
  started : ∀ task job, Notice.started task job ∈ s.notices → job.In Z
  held : ∀ task xs, s.held.get? task = some xs → ∀ x ∈ xs, x.In Z

namespace Confined
variable {Z : Zone} {h₀ h : Heap} {host scope : ScopeId} {s s' : EngineState}

/-! ## Changes of single parts -/

/-- The state looks the same to those who are confined. -/
theorem same (hs : Confined Z h₀ host s) (hheap : s'.heap = s.heap) (hframes : s'.frames = s.frames)
    (hheld : s'.held = s.held) (hpinned : s'.pinned = s.pinned)
    (hjobs : ∀ task job, Notice.started task job ∈ s'.notices → Notice.started task job ∈ s.notices) :
    Confined Z h₀ host s' where
  encloses := hheap ▸ hs.encloses
  kept := hheap ▸ hs.kept
  pinned := hpinned ▸ hs.pinned
  deferred := hframes ▸ hs.deferred
  started task job hj := hs.started task job (hjobs task job hj)
  held := hheld ▸ hs.held

theorem heap (hs : Confined Z h₀ host s) (hstays : s.heap.Stays Z h) :
    Confined Z h₀ host { s with heap := h } :=
  { hs with
    encloses := hstays.encloses
    kept := fun o ho hz => (hstays.apart o hz).trans (hs.kept o ho hz) }

/-- New objects are of the zone. -/
theorem gains (hs : Confined Z h₀ host s) (hgains : s.heap.Gains Z h) :
    Confined Z h₀ host { s with heap := h } :=
  { hs with
    encloses := hgains.encloses
    kept := fun o ho hz =>
      (hgains.kept o fun hunused => hz (hs.encloses.unused o hunused)).trans (hs.kept o ho hz) }

theorem frames (hs : Confined Z h₀ host s) {frames : Store (List DeferredCall)}
    (hframes : DeferredIn Z frames) : Confined Z h₀ host { s with frames } :=
  { hs with deferred := hframes }

theorem start (hs : Confined Z h₀ host s) {job : Job} (hjob : job.In Z) :
    Confined Z h₀ host (s.start job).2 :=
  { hs with
    started := fun task other hother => by
      obtain hold | hnew := Array.mem_push.mp hother
      · exact hs.started task other hold
      · cases hnew
        exact hjob
    held := fun task xs hxs => by
      obtain rfl | hold := Store.get?_push hxs
      · exact List.forall_mem_singleton.mpr trivial
      · exact hs.held task xs hold }

theorem hold (hs : Confined Z h₀ host s) {x : Holding} (hx : x.In Z) :
    Confined Z h₀ host (s.hold x) :=
  { hs with
    held := fun task xs hxs => by
      obtain hold | ⟨rfl, old, hold, rfl⟩ := Store.get?_modify hxs
      · exact hs.held task xs hold
      · exact List.forall_mem_cons.mpr ⟨hx, hs.held _ old hold⟩ }

theorem capture (hs : Confined Z h₀ host s) (hscope : Z (.scope scope)) :
    Confined Z h₀ host (s.capture scope) := by
  have haround : ∀ id ∈ (s.heap.chain scope).takeWhile fun id => !(s.heap.scope id).captured,
      Z (.scope id) :=
    fun id hid => hs.encloses.chain hscope id ((List.takeWhile_sublist _).subset hid)
  unfold EngineState.capture
  generalize (s.heap.chain scope).takeWhile (fun id => !(s.heap.scope id).captured) = around at haround
  induction around generalizing s with
  | nil => exact hs
  | cons id rest ih =>
    obtain ⟨hid, hrest⟩ := List.forall_mem_cons.mp haround
    have hstays : s.heap.Stays Z (s.heap.modifyScope id fun c => { c with captured := true }) :=
      hs.encloses.modifyScope hid (fun _ => rfl) fun _ _ hobjects => hobjects
    exact ih ((hs.heap hstays).same rfl rfl rfl rfl fun _ _ hj => hj) hrest

/-! ## Scopes that come and go -/

/-- Objects may be taken out, as long as none of them is to be kept. -/
theorem prunes (hs : Confined Z h₀ host s) (hp : s.Prunes s')
    (hkept : ∀ o, h₀.Reaches (.scope host) o → ¬ Z o → s'.heap.cell? o = s.heap.cell? o) :
    Confined Z h₀ host s' where
  encloses :=
    { unused := fun o ho => hs.encloses.unused o ((hp.unused o).mp ho)
      closed := fun o c ho hc => hs.encloses.closed o c ho (hp.cell_of hc) }
  kept o ho hz := (hkept o ho hz).trans (hs.kept o ho hz)
  pinned := hp.pinned ▸ hs.pinned
  deferred := hp.frames ▸ hs.deferred
  started := hp.notices ▸ hs.started
  held := hp.held ▸ hs.held

/-- **What the host's scope led to is marked**, since the host holds the scope. -/
theorem covers (hs : Confined Z h₀ host s) (hz : h₀.Encloses Z) {o : Object}
    (ho : h₀.Reaches (.scope host) o) (hown : ¬ Z o) : s.marks.Covers o := by
  cases ho with
  | refl => exact EngineState.covers_pinned hs.pinned
  | tail hbefore hstep =>
    obtain ⟨c, hc, hobject⟩ := Heap.refers_iff.mp hstep
    -- Whatever leads to the object is not of the zone either, so it still refers to the object.
    have hkept := hs.kept _ hbefore fun hin => hown (hz.closed _ c hin hc o hobject)
    exact Heap.covers_of_cell (hkept.trans hc) hobject _

theorem collect (hs : Confined Z h₀ host s) (hz : h₀.Encloses Z) :
    Confined Z h₀ host s.collect :=
  EngineState.collect_induction (fun s hs => hs.prunes (EngineState.prunes_sweep s) fun _ ho hown =>
    EngineState.cell?_sweep (hs.covers hz ho hown)) hs

theorem eraseScope (hs : Confined Z h₀ host s) (hscope : Z (.scope scope)) :
    Confined Z h₀ host (s.eraseScope scope) := by
  refine hs.prunes (EngineState.prunes_eraseScope s scope) fun o _ hown => ?_
  have hne : o ≠ .scope scope := fun he => hown (he ▸ hscope)
  rw [EngineState.cell?_eraseScope, if_neg hne]

theorem opened (hs : Confined Z h₀ host s) (g : GovernorId) {parent : ScopeId}
    (hparent : Z (.scope parent)) : Confined Z h₀ host (s.opened g parent) := by
  refine (hs.gains (hs.encloses.gains.addScope ?_)).same rfl rfl rfl rfl fun _ _ hj => hj
  exact List.forall_mem_singleton.mpr hparent

/-- A scope is opened inside one of the zone, or none is. -/
theorem addChild (hs : Confined Z h₀ host s) (hz : h₀.Encloses Z) {parent : ScopeId}
    (hparent : Z (.scope parent)) :
    Confined Z h₀ host (s.addChild parent).2 ∧
      ∀ scope, (s.addChild parent).1 = .ok scope → Z (.scope scope) := by
  have htidied : Confined Z h₀ host (s.tidied (s.heap.scope parent).governor) := by
    unfold EngineState.tidied
    split
    · exact hs.collect hz
    · exact hs
  rw [EngineState.addChild_eq rfl rfl]
  split
  · exact ⟨htidied, nofun⟩
  · refine ⟨htidied.opened _ hparent, fun scope hscope => ?_⟩
    cases hscope
    exact htidied.encloses.unused _ (Nat.le_refl _)

/-! ## Letting go -/

theorem giveBack (hs : Confined Z h₀ host s) {x : Holding} (hx : x.In Z) :
    Confined Z h₀ host (s.giveBack x) := by
  cases x with
  | block id =>
    simp only [EngineState.giveBack]
    split
    · exact hs
    · exact hs.eraseScope hx
  | frame id =>
    refine hs.frames fun other calls hcalls => ?_
    by_cases hother : other = id
    · rw [hother, Store.get?_erase_self] at hcalls
      cases hcalls
    · rw [Store.get?_erase_of_ne hother] at hcalls
      exact hs.deferred other calls hcalls
  | receiver chan => exact hs.heap (hs.encloses.modifyChan hx fun _ _ hbuffer => hbuffer)
  | _ => exact hs

/-- The last thing that a task holds is taken from it. -/
theorem take (hs : Confined Z h₀ host s) {task : TaskId} {x : Holding} {rest : List Holding}
    (hxs : s.held.get? task = some (x :: rest)) :
    x.In Z ∧ Confined Z h₀ host { s with held := s.held.set task rest } := by
  obtain ⟨hx, hrest⟩ := List.forall_mem_cons.mp (hs.held task _ hxs)
  refine ⟨hx, { hs with held := fun other ys hys => ?_ }⟩
  by_cases hother : other = task
  · rw [hother, Store.get?_set_self hxs] at hys
    cases hys
    exact hrest
  · rw [Store.get?_set_of_ne hother] at hys
    exact hs.held other ys hys

theorem letGoOf (hs : Confined Z h₀ host s) (task : TaskId) : Confined Z h₀ host (s.letGoOf task) := by
  unfold EngineState.letGoOf
  split
  · obtain ⟨hx, hrest⟩ := hs.take ‹_›
    exact hrest.giveBack hx
  · exact hs

end Confined

/-- **Evaluation keeps states confined.** -/
theorem customs_confined {Z : Zone} {h₀ : Heap} {host : ScopeId} (hz : h₀.Encloses Z) :
    Customs Z (fun _ s => Confined Z h₀ host s) fun scope _ => Z (.scope scope) where
  trans _ hs := hs
  stays hs := hs
  encloses hs := hs.encloses
  deferred hs := hs.deferred
  started hs := hs.started
  elsewhere hs ha := hs.same ha.heap ha.frames ha.held ha.pinned ha.jobs
  heap hs hstays := hs.heap hstays
  frames hs hframes := hs.frames hframes
  start hs hjob := hs.start hjob
  capture hs hscope := hs.capture hscope
  hold hs hx _ := hs.hold hx
  letGo task hs := hs.letGoOf task
  opened hs hparent := hs.addChild hz hparent
  entered hs hscope := hs.hold hscope
  enterable_letGo _ _ hscope := hscope
  enterable_in _ hscope := hscope

end ScriptEngine
