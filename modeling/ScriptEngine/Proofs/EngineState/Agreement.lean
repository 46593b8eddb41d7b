import Mathlib.Data.Option.Basic
import ScriptEngine.Proofs.EngineState.Collecting
import ScriptEngine.Proofs.EngineState.Scopes

/-! # States that agree

Two states **agree** (`EngineState.Agree`) if they hold the same objects, and if governors and runs
are alike in the sense of two given relations.  Whatever is done to scopes, slots and holdings in both
states alike keeps them in agreement, as long as giving back a slot does.

What is done to scopes, slots and holdings leaves the rest of the state **apart**
(`EngineState.Apart`): signals, runs, the clock, notices and what is on record.
-/
namespace ScriptEngine

/-- The objects with the same number are alike. -/
def Store.Alike {α : Type} (ρ : Nat → α → α → Prop) (a b : Store α) : Prop :=
  ∀ id, Option.Rel (ρ id) (a.get? id) (b.get? id)

/-- What is alike on both sides, where there is something. -/
theorem Store.Alike.get?_eq {α : Type} {ρ : Nat → α → α → Prop} {a b : Store α} (hab : a.Alike ρ b)
    (id : Nat) : a.get? id = none ∧ b.get? id = none ∨
      ∃ x y, a.get? id = some x ∧ b.get? id = some y ∧ ρ id x y := by
  have hid := hab id
  generalize a.get? id = x at hid ⊢
  generalize b.get? id = y at hid ⊢
  cases hid with
  | some hxy => exact .inr ⟨_, _, rfl, rfl, hxy⟩
  | none => exact .inl ⟨rfl, rfl⟩

theorem Store.Alike.modify {α : Type} {ρ : Nat → α → α → Prop} {a b : Store α} (hab : a.Alike ρ b)
    (i : Nat) {f g : α → α}
    (hfg : ∀ x y, a.get? i = some x → ρ i x y → ρ i (f x) (g y)) :
    (a.modify i f).Alike ρ (b.modify i g) := by
  intro id
  rw [Store.get?_modify_eq, Store.get?_modify_eq]
  split
  · subst id
    obtain ⟨hx, hy⟩ | ⟨x, y, hx, hy, hxy⟩ := hab.get?_eq i
    · rw [hx, hy]
      exact .none
    · rw [hx, hy]
      exact .some (hfg x y hx hxy)
  · exact hab id

theorem Store.Alike.refl {α : Type} {ρ : Nat → α → α → Prop} (hρ : ∀ id x, ρ id x x) (a : Store α) :
    a.Alike ρ a := by
  intro id
  cases a.get? id with
  | none => exact .none
  | some x => exact .some (hρ id x)

theorem Store.Alike.symm {α : Type} {ρ : Nat → α → α → Prop} {a b : Store α}
    (hρ : ∀ id x y, ρ id x y → ρ id y x) (hab : a.Alike ρ b) : b.Alike ρ a := by
  intro id
  obtain ⟨hx, hy⟩ | ⟨x, y, hx, hy, hxy⟩ := hab.get?_eq id
  · rw [hx, hy]
    exact .none
  · rw [hx, hy]
    exact .some (hρ id x y hxy)

theorem Store.Alike.trans {α : Type} {ρ : Nat → α → α → Prop} {a b c : Store α}
    (hρ : ∀ id x y z, ρ id x y → ρ id y z → ρ id x z) (hab : a.Alike ρ b) (hbc : b.Alike ρ c) :
    a.Alike ρ c := by
  intro id
  obtain ⟨hx, hy⟩ | ⟨x, y, hx, hy, hxy⟩ := hab.get?_eq id
  · obtain ⟨-, hz⟩ | ⟨y, z, hy', -, -⟩ := hbc.get?_eq id
    · rw [hx, hz]
      exact .none
    · cases hy.symm.trans hy'
  · obtain ⟨hy', -⟩ | ⟨y', z, hy', hz, hyz⟩ := hbc.get?_eq id
    · cases hy.symm.trans hy'
    · cases hy.symm.trans hy'
      rw [hx, hz]
      exact .some (hρ id x y z hxy hyz)

/-- A store is alike to what it becomes when one object changes into one that is alike. -/
theorem Store.alike_modify {α : Type} {ρ : Nat → α → α → Prop} (hρ : ∀ id x, ρ id x x) (a : Store α)
    (i : Nat) {f : α → α} (hf : ∀ x, a.get? i = some x → ρ i x (f x)) : a.Alike ρ (a.modify i f) := by
  intro id
  rw [Store.get?_modify_eq]
  split
  · subst id
    cases hx : a.get? i with
    | none => exact .none
    | some x => exact .some (hf x hx)
  · exact Store.Alike.refl hρ a id

namespace EngineState

/-! ## What stays apart -/

/-- Nothing has changed but objects, slots, deferred calls and what is held. -/
structure Apart (s s' : EngineState) : Prop where
  signals : s'.signals = s.signals
  runs : s'.runs = s.runs
  now : s'.now = s.now
  current : s'.current = s.current
  notices : s'.notices = s.notices
  pinned : s'.pinned = s.pinned
  reports : s'.reports = s.reports
  refusals : s'.refusals = s.refusals
  overruns : s'.overruns = s.overruns
  tasks : s'.held.next = s.held.next

variable {s s' s'' : EngineState}

theorem Apart.refl (s : EngineState) : Apart s s := ⟨rfl, rfl, rfl, rfl, rfl, rfl, rfl, rfl, rfl, rfl⟩

theorem Apart.trans (ha : Apart s s') (hb : Apart s' s'') : Apart s s'' where
  signals := hb.signals.trans ha.signals
  runs := hb.runs.trans ha.runs
  now := hb.now.trans ha.now
  current := hb.current.trans ha.current
  notices := hb.notices.trans ha.notices
  pinned := hb.pinned.trans ha.pinned
  reports := hb.reports.trans ha.reports
  refusals := hb.refusals.trans ha.refusals
  overruns := hb.overruns.trans ha.overruns
  tasks := hb.tasks.trans ha.tasks

theorem apart_heap (s : EngineState) (h : Heap) : Apart s { s with heap := h } :=
  ⟨rfl, rfl, rfl, rfl, rfl, rfl, rfl, rfl, rfl, rfl⟩

theorem apart_eraseScope (s : EngineState) (id : ScopeId) : Apart s (s.eraseScope id) := by
  unfold eraseScope
  split
  · exact .refl s
  · split
    · exact ⟨rfl, rfl, rfl, rfl, rfl, rfl, rfl, rfl, rfl, rfl⟩
    · exact ⟨rfl, rfl, rfl, rfl, rfl, rfl, rfl, rfl, rfl, rfl⟩

theorem apart_sweep (s : EngineState) : Apart s s.sweep.1 := by
  have herase (ids : List ScopeId) (s : EngineState) : Apart s (ids.foldl eraseScope s) := by
    induction ids generalizing s with
    | nil => exact .refl s
    | cons id rest ih => exact (apart_eraseScope s id).trans (ih _)
  exact (apart_heap s _).trans (herase _ _)

theorem apart_collect (s : EngineState) : Apart s s.collect :=
  collect_induction (fun t ht => ht.trans (apart_sweep t)) (.refl s)

theorem apart_capture (s : EngineState) (scope : ScopeId) : Apart s (s.capture scope) := by
  unfold capture
  generalize (s.heap.chain scope).takeWhile (fun id => !(s.heap.scope id).captured) = around
  induction around generalizing s with
  | nil => exact .refl s
  | cons id rest ih =>
    refine (?_ : Apart s _).trans (ih _)
    exact ⟨rfl, rfl, rfl, rfl, rfl, rfl, rfl, rfl, rfl, rfl⟩

theorem apart_hold (s : EngineState) (x : Holding) : Apart s (s.hold x) :=
  ⟨rfl, rfl, rfl, rfl, rfl, rfl, rfl, rfl, rfl, Store.next_modify _ _ _⟩

theorem apart_frames (s : EngineState) (frames : Store (List DeferredCall)) :
    Apart s { s with frames } :=
  ⟨rfl, rfl, rfl, rfl, rfl, rfl, rfl, rfl, rfl, rfl⟩

theorem apart_defer (s : EngineState) (frame : FrameId) (call : DeferredCall) :
    Apart s (s.defer frame call) :=
  ⟨rfl, rfl, rfl, rfl, rfl, rfl, rfl, rfl, rfl, rfl⟩

theorem apart_letGoOf (s : EngineState) (task : TaskId) : Apart s (s.letGoOf task) := by
  have hback (s : EngineState) (x : Holding) : Apart s (s.giveBack x) := by
    cases x with
    | block id =>
      simp only [giveBack]
      split
      · exact .refl s
      · exact apart_eraseScope s id
    | _ => exact ⟨rfl, rfl, rfl, rfl, rfl, rfl, rfl, rfl, rfl, rfl⟩
  unfold letGoOf
  split
  · rename_i x rest _
    have htaken : Apart s { s with held := s.held.set task rest } :=
      ⟨rfl, rfl, rfl, rfl, rfl, rfl, rfl, rfl, rfl, by simp [Store.next, Store.set]⟩
    exact htaken.trans (hback _ x)
  · exact .refl s

theorem apart_unwind (s : EngineState) (task : TaskId) (keep : Nat) :
    Apart s (s.unwind task keep) := by
  unfold unwind
  induction s.holdCount task - keep with
  | zero => exact .refl s
  | succ n ih => exact ih.trans (apart_letGoOf _ task)

theorem apart_addChild (s : EngineState) (parent : ScopeId) : Apart s (s.addChild parent).2 := by
  have htidied : Apart s (s.tidied (s.heap.scope parent).governor) := by
    unfold tidied
    split
    · exact apart_collect s
    · exact .refl s
  rw [addChild_eq rfl rfl]
  split
  · exact htidied
  · exact htidied.trans ⟨rfl, rfl, rfl, rfl, rfl, rfl, rfl, rfl, rfl, rfl⟩

/-! ## Agreement -/

/-- **The states hold the same objects**, and their governors and runs are alike. -/
structure Agree (ρ : GovernorId → Governor → Governor → Prop) (σ : RunId → Run → Run → Prop)
    (s s' : EngineState) : Prop where
  heap : s'.heap = s.heap
  governors : s.governors.Alike ρ s'.governors
  signals : s'.signals = s.signals
  runs : s.runs.Alike σ s'.runs
  frames : s'.frames = s.frames
  held : s'.held = s.held
  current : s'.current = s.current
  pinned : s'.pinned = s.pinned
  lingering : s'.lingering = s.lingering
  reports : s'.reports = s.reports
  refusals : s'.refusals = s.refusals
  deferrals : s'.deferrals = s.deferrals

theorem Agree.refl {ρ : GovernorId → Governor → Governor → Prop} {σ : RunId → Run → Run → Prop}
    (hρ : ∀ g x, ρ g x x) (hσ : ∀ id x, σ id x x) (s : EngineState) : Agree ρ σ s s :=
  ⟨rfl, .refl hρ _, rfl, .refl hσ _, rfl, rfl, rfl, rfl, rfl, rfl, rfl, rfl⟩

namespace Agree
variable {ρ : GovernorId → Governor → Governor → Prop} {σ : RunId → Run → Run → Prop}
  (hs : Agree ρ σ s s')
include hs

theorem symm (hρ : ∀ g x y, ρ g x y → ρ g y x) (hσ : ∀ id x y, σ id x y → σ id y x) :
    Agree ρ σ s' s where
  heap := hs.heap.symm
  governors := hs.governors.symm hρ
  signals := hs.signals.symm
  runs := hs.runs.symm hσ
  frames := hs.frames.symm
  held := hs.held.symm
  current := hs.current.symm
  pinned := hs.pinned.symm
  lingering := hs.lingering.symm
  reports := hs.reports.symm
  refusals := hs.refusals.symm
  deferrals := hs.deferrals.symm

theorem trans (hρ : ∀ g x y z, ρ g x y → ρ g y z → ρ g x z)
    (hσ : ∀ id x y z, σ id x y → σ id y z → σ id x z) (hs' : Agree ρ σ s' s'') : Agree ρ σ s s'' where
  heap := hs'.heap.trans hs.heap
  governors := hs.governors.trans hρ hs'.governors
  signals := hs'.signals.trans hs.signals
  runs := hs.runs.trans hσ hs'.runs
  frames := hs'.frames.trans hs.frames
  held := hs'.held.trans hs.held
  current := hs'.current.trans hs.current
  pinned := hs'.pinned.trans hs.pinned
  lingering := hs'.lingering.trans hs.lingering
  reports := hs'.reports.trans hs.reports
  refusals := hs'.refusals.trans hs.refusals
  deferrals := hs'.deferrals.trans hs.deferrals

theorem withHeap (h : Heap) : Agree ρ σ { s with heap := h } { s' with heap := h } :=
  { hs with heap := rfl }

theorem withFrames (frames : Store (List DeferredCall)) :
    Agree ρ σ { s with frames } { s' with frames } :=
  { hs with frames := rfl }

theorem defer (frame : FrameId) (call : DeferredCall) :
    Agree ρ σ (s.defer frame call) (s'.defer frame call) :=
  { hs with
    frames := congrArg (·.modify frame (call :: ·)) hs.frames
    deferrals := congrArg ((frame, call) :: ·) hs.deferrals }

theorem modifyRun (run : RunId) {f g : Run → Run}
    (hfg : ∀ x y, s.runs.get? run = some x → σ run x y → σ run (f x) (g y)) :
    Agree ρ σ (s.modifyRun run f) (s'.modifyRun run g) :=
  { hs with runs := hs.runs.modify run hfg }

theorem hold (x : Holding) : Agree ρ σ (s.hold x) (s'.hold x) :=
  { hs with
    held := by
      show s'.held.modify s'.current _ = s.held.modify s.current _
      rw [hs.held, hs.current] }

theorem start (job : Job) : Agree ρ σ (s.start job).2 (s'.start job).2 :=
  { hs with
    held := by
      show s'.held.push _ = s.held.push _
      rw [hs.held] }

theorem refuse (r : Refusal) : Agree ρ σ (s.refuse r) (s'.refuse r) :=
  { hs with
    refusals := by
      show r :: s'.refusals = r :: s.refusals
      rw [hs.refusals] }

/-- What is on record of misfits need not agree. -/
theorem complain (m : Misfit) : Agree ρ σ (s.complain m) (s'.complain m) := { hs with }

/-- What is on record of checkpoints need not agree. -/
theorem pass (run run' : RunId) : Agree ρ σ (s.pass run) (s'.pass run') := by
  rw [pass_eq s, pass_eq s']
  exact { hs with }

theorem cancel (signal : SignalId) : Agree ρ σ (s.cancel signal) (s'.cancel signal) :=
  { hs with
    signals := by
      show s'.signals.modify signal _ = s.signals.modify signal _
      rw [hs.signals] }

theorem capture (scope : ScopeId) : Agree ρ σ (s.capture scope) (s'.capture scope) := by
  unfold EngineState.capture
  rw [hs.heap]
  generalize (s.heap.chain scope).takeWhile (fun id => !(s.heap.scope id).captured) = around
  induction around generalizing s s' with
  | nil => exact hs
  | cons id rest ih =>
    refine ih { hs with heap := ?_, lingering := ?_ }
    · show s'.heap.modifyScope id _ = s.heap.modifyScope id _
      rw [hs.heap]
    · show s'.lingering + _ = s.lingering + _
      rw [hs.lingering, hs.heap]

section
variable (hρ : ∀ g x y, ρ g x y → ρ g x.release y.release)
include hρ

theorem eraseScope (id : ScopeId) : Agree ρ σ (s.eraseScope id) (s'.eraseScope id) := by
  unfold EngineState.eraseScope
  rw [hs.heap]
  split
  · exact hs
  · have hheap : (s'.modifyHeap fun h => { h with scopes := h.scopes.erase id }).heap =
        (s.modifyHeap fun h => { h with scopes := h.scopes.erase id }).heap := by
      simp only [modifyHeap, hs.heap]
    split
    · refine { hs with heap := hheap, governors := hs.governors.modify _ fun x y _ => hρ _ x y, lingering := ?_ }
      show s'.lingering - _ = s.lingering - _
      rw [hs.lingering]
    · exact { hs with heap := hheap }

theorem eraseScopes (ids : List ScopeId) :
    Agree ρ σ (ids.foldl EngineState.eraseScope s) (ids.foldl EngineState.eraseScope s') := by
  induction ids generalizing s s' with
  | nil => exact hs
  | cons id rest ih => exact ih (hs.eraseScope hρ id)

omit hρ in
theorem marks_eq : s'.marks = s.marks := by
  unfold EngineState.marks
  rw [hs.heap, hs.pinned, hs.held, hs.frames, hs.reports]

theorem sweep : Agree ρ σ s.sweep.1 s'.sweep.1 ∧ s'.sweep.2 = s.sweep.2 := by
  have hpruned : Agree ρ σ s.pruned s'.pruned := by
    refine { hs with heap := ?_ }
    show s'.heap.pruned s'.marks = s.heap.pruned s.marks
    rw [hs.heap, hs.marks_eq]
  constructor
  · rw [sweep_eq, sweep_eq, hs.heap, hs.marks_eq]
    exact hpruned.eraseScopes hρ _
  · unfold EngineState.sweep
    simp only [hs.heap, hs.marks_eq]

theorem collect : Agree ρ σ s.collect s'.collect := by
  have hupTo (fuel : Nat) {s s' : EngineState} (hs : Agree ρ σ s s') :
      Agree ρ σ (collectUpTo fuel s) (collectUpTo fuel s') := by
    induction fuel generalizing s s' with
    | zero => exact hs
    | succ fuel ih =>
      obtain ⟨hswept, hfound⟩ := hs.sweep hρ
      unfold collectUpTo
      cases hx : s.sweep with
      | mk t found =>
        cases hx' : s'.sweep with
        | mk t' found' =>
          rw [hx, hx'] at hswept hfound
          cases hfound
          cases found with
          | true => exact ih hswept
          | false => exact hswept
  unfold EngineState.collect EngineState.objectCount
  rw [hs.lingering, hs.heap]
  split
  · exact hs
  · exact hupTo _ hs

theorem giveBack (x : Holding) : Agree ρ σ (s.giveBack x) (s'.giveBack x) := by
  cases x with
  | block id =>
    simp only [EngineState.giveBack, hs.heap]
    split
    · exact hs
    · exact hs.eraseScope hρ id
  | frame id =>
    refine { hs with frames := ?_ }
    show s'.frames.erase id = s.frames.erase id
    rw [hs.frames]
  | receiver chan =>
    refine { hs with heap := ?_ }
    show s'.heap.modifyChan chan _ = s.heap.modifyChan chan _
    rw [hs.heap]
  | _ => exact hs

theorem letGoOf (task : TaskId) : Agree ρ σ (s.letGoOf task) (s'.letGoOf task) := by
  unfold EngineState.letGoOf
  rw [hs.held]
  split
  · rename_i x rest _
    have htaken : Agree ρ σ { s with held := s.held.set task rest }
        { s' with held := s.held.set task rest } := { hs with held := rfl }
    exact htaken.giveBack hρ x
  · exact hs

theorem letGo : Agree ρ σ s.letGo s'.letGo := by
  unfold EngineState.letGo
  rw [hs.current]
  exact hs.letGoOf hρ s.current

theorem unwind (task : TaskId) (keep : Nat) :
    Agree ρ σ (s.unwind task keep) (s'.unwind task keep) := by
  unfold EngineState.unwind EngineState.holdCount
  rw [hs.held]
  induction ((s.held.get? task).getD []).length - keep with
  | zero => exact hs
  | succ n ih => exact ih.letGoOf hρ task

end

/-! ## Runs and slots -/

/-- A run that is not there is the same on both sides. -/
theorem run (hσ : ∀ id, σ id default default) (id : RunId) : σ id (s.run id) (s'.run id) := by
  unfold EngineState.run
  obtain ⟨hx, hy⟩ | ⟨x, y, hx, hy, hxy⟩ := hs.runs.get?_eq id
  · rw [hx, hy]
    exact hσ id
  · rw [hx, hy]
    exact hxy

/-- A governor that is not there is the same on both sides. -/
theorem governor (hρ : ∀ g, ρ g default default) (g : GovernorId) :
    ρ g (s.governor g) (s'.governor g) := by
  unfold EngineState.governor
  obtain ⟨hx, hy⟩ | ⟨x, y, hx, hy, hxy⟩ := hs.governors.get?_eq g
  · rw [hx, hy]
    exact hρ g
  · rw [hx, hy]
    exact hxy

theorem opened (g : GovernorId) (parent : ScopeId)
    (hacquire : ∀ x y, s.governors.get? g = some x → ρ g x y → ρ g x.acquire y.acquire) :
    Agree ρ σ (s.opened g parent) (s'.opened g parent) := by
  refine { hs with heap := ?_, governors := hs.governors.modify g hacquire }
  simp only [EngineState.opened, hs.heap]

end Agree
end EngineState
end ScriptEngine
