import ScriptEngine.Proofs.EngineState.Collecting
import ScriptEngine.Proofs.Task.Customs

/-! # Laws about deferred calls

A body registers calls in its frame, which it holds while it is under way.  Much of what evaluation
does has nothing to do with frames (`EngineState.SameFrames`), so a law about them needs little to be
a habit of evaluation (`FrameLaw.habits`).  Two such laws tell a frame's story.  As long as it is held,
a frame has in it what is on record as registered in it, last one first, while its body registers
calls (`FrameKept`).  And evaluation that belongs to other bodies neither registers calls in a frame nor
takes any out (`FrameSpared`).
-/
namespace ScriptEngine

namespace EngineState

/-- The calls that are on record as registered in a frame, the latest first. -/
def deferredIn (s : EngineState) (frame : FrameId) : List DeferredCall :=
  (s.deferrals.filter (·.1 = frame)).map (·.2)

theorem deferredIn_defer_self (s : EngineState) (frame : FrameId) (call : DeferredCall) :
    (s.defer frame call).deferredIn frame = call :: s.deferredIn frame := by
  simp [deferredIn, defer]

theorem deferredIn_defer_of_ne (s : EngineState) {frame other : FrameId} (hne : other ≠ frame)
    (call : DeferredCall) : (s.defer other call).deferredIn frame = s.deferredIn frame := by
  simp [deferredIn, defer, hne]

/-- Nothing has happened to frames, or to what tasks hold. -/
structure SameFrames (s s' : EngineState) : Prop where
  frames : s'.frames = s.frames
  held : s'.held = s.held
  deferrals : s'.deferrals = s.deferrals

namespace SameFrames
variable {s s' s'' : EngineState}

theorem refl (s : EngineState) : SameFrames s s := ⟨rfl, rfl, rfl⟩

theorem trans (hs : SameFrames s s') (hs' : SameFrames s' s'') : SameFrames s s'' :=
  ⟨hs'.frames.trans hs.frames, hs'.held.trans hs.held, hs'.deferrals.trans hs.deferrals⟩

theorem deferredIn (hs : SameFrames s s') (frame : FrameId) :
    s'.deferredIn frame = s.deferredIn frame := by
  rw [EngineState.deferredIn, hs.deferrals, EngineState.deferredIn]

end SameFrames

variable (s : EngineState)

theorem sameFrames_heap (h : Heap) : SameFrames s { s with heap := h } := ⟨rfl, rfl, rfl⟩

theorem sameFrames_eraseScope (id : ScopeId) : SameFrames s (s.eraseScope id) := by
  unfold eraseScope
  split
  · exact .refl s
  · split <;> exact ⟨rfl, rfl, rfl⟩

theorem sameFrames_collect : SameFrames s s.collect := by
  have herase (ids : List ScopeId) (s : EngineState) : SameFrames s (ids.foldl eraseScope s) := by
    induction ids generalizing s with
    | nil => exact .refl s
    | cons id rest ih => exact (sameFrames_eraseScope s id).trans (ih _)
  exact collect_induction
    (fun t ht => (ht.trans (sameFrames_heap t _)).trans (herase _ _)) (.refl s)

theorem sameFrames_addChild (parent : ScopeId) : SameFrames s (s.addChild parent).2 := by
  have htidied : SameFrames s (s.tidied (s.heap.scope parent).governor) := by
    unfold tidied
    split
    · exact sameFrames_collect s
    · exact .refl s
  rw [addChild_eq rfl rfl]
  split
  · exact htidied
  · exact htidied.trans ⟨rfl, rfl, rfl⟩

theorem sameFrames_capture (scope : ScopeId) : SameFrames s (s.capture scope) := by
  unfold capture
  generalize (s.heap.chain scope).takeWhile (fun id => !(s.heap.scope id).captured) = around
  induction around generalizing s with
  | nil => exact .refl s
  | cons id rest ih =>
    refine (?_ : SameFrames s _).trans (ih _)
    exact ⟨rfl, rfl, rfl⟩

end EngineState

/-! ## Laws -/

/-- **A law about frames** that evaluation observes if it registers calls in certain frames only, and
begins bodies with certain frames only. -/
structure FrameLaw (G : EngineState → EngineState → Prop) (frames bodies : FrameId → Prop) : Prop
    extends Law G where
  frames_of_bodies : ∀ {frame}, bodies frame → frames frame
  same : ∀ {k s s'}, G k s → s.SameFrames s' → G k s'
  newFrame : ∀ {k s}, G k s → bodies s.frames.next ∧
    G k ({ s with frames := s.frames.push [] }.hold (.frame s.frames.next))
  defer : ∀ {k s frame call}, G k s → frames frame → G k (s.defer frame call)
  dropDeferred : ∀ {k s frame}, G k s → bodies frame →
    G k { s with frames := s.frames.modify frame List.tail }
  start : ∀ {k s} job, G k s → G k (s.start job).2
  hold : ∀ {k s x}, G k s → (∀ frame, x ≠ .frame frame) → G k (s.hold x)
  letGo : ∀ {k s} task, G k s → G k (s.letGoOf task)

/-- A law about frames is a habit: nothing else that evaluation does matters to it. -/
theorem FrameLaw.habits {G : EngineState → EngineState → Prop} {frames bodies : FrameId → Prop}
    (hG : FrameLaw G frames bodies) :
    Habits (fun _ => True) (fun _ => True) G (fun _ _ => True) frames bodies :=
  { hG with
    zone_of_writable := fun _ => trivial
    encloses := fun _ => ⟨fun _ _ => trivial, fun _ _ _ _ _ _ => trivial⟩
    deferred := fun _ _ _ _ _ _ => ⟨fun _ _ => trivial, fun _ _ _ _ => trivial⟩
    started := fun _ _ _ _ _ _ _ _ => trivial
    callees := fun _ _ _ => Function.in_all _
    elsewhere := fun hs ha => hG.same hs ⟨ha.frames, ha.held, ha.deferrals⟩
    complain := fun hs _ => hG.same hs ⟨rfl, rfl, rfl⟩
    heap := fun hs _ _ => hG.same hs ⟨rfl, rfl, rfl⟩
    newFunc := fun hs _ _ => hG.same hs ⟨rfl, rfl, rfl⟩
    register := fun hs _ => hG.same hs ⟨rfl, rfl, rfl⟩
    define := fun hs _ _ _ => hG.same hs ⟨rfl, rfl, rfl⟩
    assign := fun hs _ _ _ => hG.same hs ⟨rfl, rfl, rfl⟩
    revise := fun hs _ _ _ _ => hG.same hs ⟨rfl, rfl, rfl⟩
    packageNamed := fun _ _ _ => trivial
    definePackage := fun hs _ _ _ _ => hG.same hs ⟨rfl, rfl, rfl⟩
    defer := fun hs hframe _ => hG.defer hs hframe
    start := fun hs _ _ => hG.start _ hs
    capture := fun hs _ _ => hG.same hs (EngineState.sameFrames_capture _ _)
    hold := fun hs hx => hG.hold hs hx.ne_frame
    turn := fun _ hs => hG.same hs ⟨rfl, rfl, rfl⟩
    opened := fun hs _ => ⟨hG.same hs (EngineState.sameFrames_addChild _ _), fun _ _ => trivial⟩
    entered := fun hs _ => hG.hold hs nofun
    enterable_letGo := fun _ _ _ => trivial
    writable_of_enterable := fun _ _ => trivial }

/-! ## Who holds a frame -/

/-- No task holds a frame that is yet to be made. -/
def EngineState.FramesMade (s : EngineState) : Prop :=
  ∀ task xs frame, s.held.get? task = some xs → .frame frame ∈ xs → frame < s.frames.next

namespace EngineState.FramesMade
variable {s : EngineState}

/-- Something more is held, and frames may have been made. -/
theorem hold {frames : Store (List DeferredCall)} {x : Holding} (hs : s.FramesMade)
    (hnext : s.frames.next ≤ frames.next) (hx : ∀ frame, x = .frame frame → frame < frames.next) :
    ({ s with frames }.hold x).FramesMade := by
  intro task xs frame hxs hmem
  obtain hold | ⟨rfl, old, hold, rfl⟩ := Store.get?_modify hxs
  · exact Nat.lt_of_lt_of_le (hs task xs frame hold hmem) hnext
  · obtain heq | hmem := List.mem_cons.mp hmem
    · exact hx frame heq.symm
    · exact Nat.lt_of_lt_of_le (hs _ old frame hold hmem) hnext

theorem letGoOf (hs : s.FramesMade) (task : TaskId) : (s.letGoOf task).FramesMade := by
  unfold EngineState.letGoOf
  split
  · rename_i x rest hxs
    have htaken : FramesMade { s with held := s.held.set task rest } := by
      intro other ys frame hys hmem
      by_cases hother : other = task
      · rw [hother, Store.get?_set_self hxs] at hys
        cases hys
        exact hs task _ frame hxs (List.mem_cons_of_mem x hmem)
      · rw [Store.get?_set_of_ne hother] at hys
        exact hs other ys frame hys hmem
    have hsame {s s' : EngineState} (hs : s.FramesMade) (hsame : s.SameFrames s') :
        s'.FramesMade := by
      rw [FramesMade, hsame.frames, hsame.held]
      exact hs
    cases x with
    | block id =>
      simp only [EngineState.giveBack]
      split
      · exact htaken
      · exact hsame htaken (sameFrames_eraseScope _ id)
    | frame id =>
      intro other ys frame hys hmem
      exact Nat.lt_of_lt_of_eq (htaken other ys frame hys hmem) (Store.next_erase _ _).symm
    | _ => exact htaken
  · exact hs

end EngineState.FramesMade

/-- **Frames are made before they are held**, whatever is evaluated. -/
theorem frameLaw_made : FrameLaw (fun _ s => s.FramesMade) (fun _ => True) (fun _ => True) where
  trans _ hs := hs
  stays hs := hs
  frames_of_bodies := id
  same hs hsame := by
    rw [EngineState.FramesMade, hsame.frames, hsame.held]
    exact hs
  newFrame {_ s} hs := by
    have hnext : s.frames.next < (s.frames.push []).next :=
      Nat.lt_of_lt_of_eq (Nat.lt_succ_self _) (Store.next_push _ _).symm
    refine ⟨trivial, hs.hold (Nat.le_of_lt hnext) fun frame heq => ?_⟩
    cases heq
    exact hnext
  defer hs _ task xs frame hxs hmem :=
    Nat.lt_of_lt_of_eq (hs task xs frame hxs hmem) (Store.next_modify _ _ _).symm
  dropDeferred hs _ task xs frame hxs hmem :=
    Nat.lt_of_lt_of_eq (hs task xs frame hxs hmem) (Store.next_modify _ _ _).symm
  start job hs task xs frame hxs hmem := by
    obtain rfl | hold := Store.get?_push hxs
    · cases List.mem_singleton.mp hmem
    · exact hs task xs frame hold hmem
  hold {_ s x} hs hx := hs.hold (Nat.le_refl _) fun frame heq => absurd heq (hx frame)
  letGo task hs := hs.letGoOf task

/-- The holding is this frame. -/
def Holding.isFrame (frame : FrameId) : Holding → Bool
  | .frame id => id = frame
  | _ => false

/-- How often a frame is among these holdings. -/
def timesHeld (frame : FrameId) (xs : List Holding) : Nat := xs.countP (·.isFrame frame)

variable {frame : FrameId}

theorem timesHeld_cons_self (xs : List Holding) :
    timesHeld frame (.frame frame :: xs) = timesHeld frame xs + 1 :=
  List.countP_cons_of_pos (by simp [Holding.isFrame])

theorem timesHeld_cons_of_ne {x : Holding} (hx : x ≠ .frame frame) (xs : List Holding) :
    timesHeld frame (x :: xs) = timesHeld frame xs := by
  refine List.countP_cons_of_neg ?_
  cases x with
  | frame id =>
    simp only [Holding.isFrame, decide_eq_true_eq]
    rintro rfl
    exact hx rfl
  | _ => simp [Holding.isFrame]

theorem timesHeld_pos {xs : List Holding} : 0 < timesHeld frame xs ↔ .frame frame ∈ xs := by
  refine List.countP_pos_iff.trans ⟨?_, fun hmem => ⟨_, hmem, by simp [Holding.isFrame]⟩⟩
  rintro ⟨x, hmem, hx⟩
  cases x with
  | frame id =>
    simp only [Holding.isFrame, decide_eq_true_eq] at hx
    exact hx ▸ hmem
  | _ => cases hx

/-- **The frame is kept**: one task holds it, once, and what is in it is what has been registered in it
since, the latest call first. -/
structure FrameKept (task : TaskId) (frame : FrameId) (before : List DeferredCall)
    (s : EngineState) : Prop where
  below : frame < s.frames.next
  held : ∀ other xs, s.held.get? other = some xs →
    timesHeld frame xs ≤ if other = task then 1 else 0
  recorded : ∀ xs, s.held.get? task = some xs → .frame frame ∈ xs →
    ∃ calls, s.frames.get? frame = some calls ∧ s.deferredIn frame = calls ++ before

namespace FrameKept
variable {task : TaskId} {before : List DeferredCall} {s s' : EngineState}

theorem same (hs : FrameKept task frame before s) (hsame : s.SameFrames s') :
    FrameKept task frame before s' where
  below := hsame.frames ▸ hs.below
  held := hsame.held ▸ hs.held
  recorded xs hxs hmem := by
    rw [hsame.frames, hsame.deferredIn]
    exact hs.recorded xs (hsame.held ▸ hxs) hmem

/-- Something happens to other frames. -/
theorem otherFrames (hs : FrameKept task frame before s) {frames : Store (List DeferredCall)}
    (hnext : s.frames.next ≤ frames.next) (hframe : frames.get? frame = s.frames.get? frame) :
    FrameKept task frame before { s with frames } where
  below := Nat.lt_of_lt_of_le hs.below hnext
  held := hs.held
  recorded xs hxs hmem := by
    rw [show frames.get? frame = _ from hframe]
    exact hs.recorded xs hxs hmem

theorem hold (hs : FrameKept task frame before s) {x : Holding} (hx : x ≠ .frame frame) :
    FrameKept task frame before (s.hold x) where
  below := hs.below
  held other xs hxs := by
    obtain hold | ⟨rfl, old, hold, rfl⟩ := Store.get?_modify hxs
    · exact hs.held other xs hold
    · rw [timesHeld_cons_of_ne hx]
      exact hs.held _ old hold
  recorded xs hxs hmem := by
    obtain hold | ⟨rfl, old, hold, rfl⟩ := Store.get?_modify hxs
    · exact hs.recorded xs hold hmem
    · obtain heq | hmem := List.mem_cons.mp hmem
      · exact absurd heq.symm hx
      · exact hs.recorded old hold hmem

theorem start (hs : FrameKept task frame before s) (job : Job) :
    FrameKept task frame before (s.start job).2 where
  below := hs.below
  held other xs hxs := by
    obtain rfl | hold := Store.get?_push hxs
    · exact Nat.zero_le _
    · exact hs.held other xs hold
  recorded xs hxs hmem := by
    obtain rfl | hold := Store.get?_push hxs
    · cases List.mem_singleton.mp hmem
    · exact hs.recorded xs hold hmem

theorem defer (hs : FrameKept task frame before s) (other : FrameId) (call : DeferredCall) :
    FrameKept task frame before (s.defer other call) where
  below := Nat.lt_of_lt_of_eq hs.below (Store.next_modify _ _ _).symm
  held := hs.held
  recorded xs hxs hmem := by
    obtain ⟨calls, hcalls, hrecorded⟩ := hs.recorded xs hxs hmem
    by_cases hother : other = frame
    · subst hother
      rw [EngineState.deferredIn_defer_self, hrecorded]
      refine ⟨call :: calls, ?_, rfl⟩
      rw [EngineState.defer, Store.get?_modify_eq, if_pos rfl, hcalls]
      rfl
    · rw [EngineState.deferredIn_defer_of_ne s hother]
      exact ⟨calls, (Store.get?_modify_of_ne (Ne.symm hother)).trans hcalls, hrecorded⟩

/-- Whoever lets go of a frame is the only one that held it. -/
theorem letGoOf (hs : FrameKept task frame before s) (other : TaskId) :
    FrameKept task frame before (s.letGoOf other) := by
  unfold EngineState.letGoOf
  split
  · rename_i x rest hxs
    have hcount := hs.held other _ hxs
    have hle : timesHeld frame rest ≤ timesHeld frame (x :: rest) :=
      (List.sublist_cons_self x rest).countP_le
    have htaken : FrameKept task frame before { s with held := s.held.set other rest } := by
      refine ⟨hs.below, fun who ys hys => ?_, fun ys hys hmem => ?_⟩
      · by_cases hwho : who = other
        · subst hwho
          rw [Store.get?_set_self hxs] at hys
          cases hys
          exact Nat.le_trans hle hcount
        · rw [Store.get?_set_of_ne hwho] at hys
          exact hs.held who ys hys
      · by_cases htask : task = other
        · subst htask
          rw [Store.get?_set_self hxs] at hys
          cases hys
          exact hs.recorded _ hxs (List.mem_cons_of_mem x hmem)
        · rw [Store.get?_set_of_ne htask] at hys
          exact hs.recorded ys hys hmem
    cases x with
    | block id =>
      simp only [EngineState.giveBack]
      split
      · exact htaken
      · exact htaken.same (EngineState.sameFrames_eraseScope _ id)
    | frame id =>
      by_cases hid : id = frame
      · -- nobody is left that holds the frame, and so nothing is claimed of it
        subst hid
        rw [timesHeld_cons_self] at hcount
        have htask : other = task := by
          by_contra hne
          rw [if_neg hne] at hcount
          omega
        subst htask
        refine ⟨Nat.lt_of_lt_of_eq htaken.below (Store.next_erase _ _).symm, htaken.held,
          fun ys hys hmem => ?_⟩
        have hrest : ys = rest := Option.some.inj (hys.symm.trans (Store.get?_set_self hxs))
        have hpos := timesHeld_pos.mpr (hrest ▸ hmem)
        rw [if_pos rfl] at hcount
        omega
      · exact htaken.otherFrames (Nat.le_of_eq (Store.next_erase _ _).symm)
          (Store.get?_erase_of_ne (Ne.symm hid))
    | _ => exact htaken.same ⟨rfl, rfl, rfl⟩
  · exact hs

end FrameKept

/-- **What is in a frame is on record**, whatever is registered in it, as long as its body holds it and
no other body begins with it. -/
theorem frameLaw_kept (task : TaskId) (frame : FrameId) (before : List DeferredCall) :
    FrameLaw (fun _ s => FrameKept task frame before s) (fun _ => True) (· ≠ frame) where
  trans _ hs := hs
  stays hs := hs
  frames_of_bodies _ := trivial
  same hs hsame := hs.same hsame
  newFrame {_ s} hs := by
    have hne : s.frames.next ≠ frame := Nat.ne_of_gt hs.below
    have hpushed : FrameKept task frame before { s with frames := s.frames.push [] } :=
      hs.otherFrames (Nat.le_trans (Nat.le_succ _) (Nat.le_of_eq (Store.next_push _ _).symm))
        (Store.get?_push_of_ne (Ne.symm hne))
    exact ⟨hne, hpushed.hold fun heq => hne (Holding.frame.inj heq)⟩
  defer hs _ := hs.defer _ _
  dropDeferred hs hne := hs.otherFrames (Nat.le_of_eq (Store.next_modify _ _ _).symm)
    (Store.get?_modify_of_ne (Ne.symm hne))
  start job hs := hs.start job
  hold hs hx := hs.hold (hx _)
  letGo other hs := hs.letGoOf other

/-- **The frame is spared**: no call has been registered in it, and it is as it was, if it is still
there. -/
structure FrameSpared (frame : FrameId) (k s : EngineState) : Prop where
  below : frame < s.frames.next
  recorded : s.deferredIn frame = k.deferredIn frame
  unchanged : ∀ calls, s.frames.get? frame = some calls → k.frames.get? frame = some calls

namespace FrameSpared
variable {k s s' : EngineState}

theorem same (hs : FrameSpared frame k s) (hsame : s.SameFrames s') : FrameSpared frame k s' where
  below := hsame.frames ▸ hs.below
  recorded := (hsame.deferredIn frame).trans hs.recorded
  unchanged := hsame.frames ▸ hs.unchanged

theorem otherFrames (hs : FrameSpared frame k s) {frames : Store (List DeferredCall)}
    (hnext : s.frames.next ≤ frames.next)
    (hframe : frames.get? frame = none ∨ frames.get? frame = s.frames.get? frame) :
    FrameSpared frame k { s with frames } where
  below := Nat.lt_of_lt_of_le hs.below hnext
  recorded := hs.recorded
  unchanged calls hcalls := by
    obtain hnone | hsame := hframe
    · cases hnone.symm.trans hcalls
    · exact hs.unchanged calls (hsame.symm.trans hcalls)

theorem letGoOf (hs : FrameSpared frame k s) (task : TaskId) :
    FrameSpared frame k (s.letGoOf task) := by
  unfold EngineState.letGoOf
  split
  · rename_i x rest hxs
    have htaken : FrameSpared frame k { s with held := s.held.set task rest } :=
      ⟨hs.below, hs.recorded, hs.unchanged⟩
    cases x with
    | block id =>
      simp only [EngineState.giveBack]
      split
      · exact htaken
      · exact htaken.same (EngineState.sameFrames_eraseScope _ id)
    | frame id =>
      refine htaken.otherFrames (Nat.le_of_eq (Store.next_erase _ _).symm) ?_
      by_cases hid : frame = id
      · subst hid
        exact .inl (Store.get?_erase_self _ _)
      · exact .inr (Store.get?_erase_of_ne hid)
    | _ => exact htaken.same ⟨rfl, rfl, rfl⟩
  · exact hs

end FrameSpared

/-- **Other bodies spare a frame.** -/
theorem frameLaw_spared (frame : FrameId) :
    FrameLaw (FrameSpared frame) (· ≠ frame) (· ≠ frame) where
  trans hs hs' := ⟨hs'.below, hs'.recorded.trans hs.recorded,
    fun calls hcalls => hs.unchanged calls (hs'.unchanged calls hcalls)⟩
  stays hs := ⟨hs.below, rfl, fun _ => id⟩
  frames_of_bodies := id
  same hs hsame := hs.same hsame
  newFrame {_ s} hs := by
    have hne : s.frames.next ≠ frame := Nat.ne_of_gt hs.below
    have hpushed : FrameSpared frame _ { s with frames := s.frames.push [] } := hs.otherFrames
      (Nat.le_trans (Nat.le_succ _) (Nat.le_of_eq (Store.next_push _ _).symm))
      (.inr (Store.get?_push_of_ne (Ne.symm hne)))
    exact ⟨hne, hpushed.below, hpushed.recorded, hpushed.unchanged⟩
  defer {_ s other call} hs hne := by
    have hmodified : FrameSpared frame _ { s with frames := s.frames.modify other (call :: ·) } :=
      hs.otherFrames (Nat.le_of_eq (Store.next_modify _ _ _).symm)
        (.inr (Store.get?_modify_of_ne (Ne.symm hne)))
    exact ⟨hmodified.below, (EngineState.deferredIn_defer_of_ne s hne call).trans hs.recorded,
      hmodified.unchanged⟩
  dropDeferred hs hne := hs.otherFrames (Nat.le_of_eq (Store.next_modify _ _ _).symm)
    (.inr (Store.get?_modify_of_ne (Ne.symm hne)))
  start _ hs := ⟨hs.below, hs.recorded, hs.unchanged⟩
  hold hs _ := ⟨hs.below, hs.recorded, hs.unchanged⟩
  letGo task hs := hs.letGoOf task

end ScriptEngine
