import Mathlib.Data.Finset.Card
import Mathlib.Data.List.Nodup
import ScriptEngine.Proofs.EngineState.Collecting
import ScriptEngine.Proofs.EngineState.Scopes

/-! # The slots of governors

Each governor counts the scopes that have taken one of its slots.  A state is **balanced**
(`EngineState.Balanced`) if every count is right and below its ceiling, and if every block that is under
way has a slot of its own.  Opening a scope, entering it as a block, letting go of it and collecting
garbage keep the state balanced, and so does everything that leaves counted scopes and blocks alone
(`EngineState.KeepsSlots`).
-/
namespace ScriptEngine

/-- The scope of the block that is held. -/
def Holding.block? : Holding → Option ScopeId
  | .block scope => some scope
  | _ => none

theorem Governor.word_natCast (n : Nat) : Governor.word n = n := by
  simp [Governor.word]

namespace EngineState
variable {s s' : EngineState} {id : ScopeId} {task : TaskId}

/-- Who counts the scope, and whether, if it is there. -/
def account? (s : EngineState) (id : ScopeId) : Option (GovernorId × Bool) :=
  (s.heap.scopes.get? id).map Scope.account

/-- The scopes that have a slot of this governor. -/
def slots (s : EngineState) (g : GovernorId) : Finset ScopeId :=
  (Finset.range s.heap.scopes.next).filter fun id => s.account? id = some (g, true)

/-- The scopes of the blocks that a task has under way, the innermost first. -/
def blocksOf (s : EngineState) (task : TaskId) : List ScopeId :=
  ((s.held.get? task).getD []).filterMap Holding.block?

/-- The scopes of the blocks that are under way, those of all tasks. -/
def blocks (s : EngineState) : List ScopeId := (List.range s.held.next).flatMap s.blocksOf

/-- How many blocks are under way whose scopes this governor counts. -/
def active (s : EngineState) (g : GovernorId) : Nat :=
  s.blocks.countP fun id => (s.heap.scope id).governor == g

theorem mem_slots {g : GovernorId} : id ∈ s.slots g ↔ s.account? id = some (g, true) := by
  rw [slots, Finset.mem_filter, Finset.mem_range, and_iff_right_iff_imp]
  intro haccount
  obtain ⟨c, hc, -⟩ := Option.map_eq_some_iff.mp haccount
  exact Store.lt_next hc

/-- There is a governor with this number. -/
def Known (s : EngineState) (g : GovernorId) : Prop := (s.governors.get? g).isSome

/-- **Every count is right and below its ceiling, and every block has a slot of its own.** -/
structure Balanced (s : EngineState) : Prop where
  engine : s.Known 0
  known : ∀ id a, s.account? id = some a → s.Known a.1
  balance : ∀ g x, s.governors.get? g = some x → x.balance = (s.slots g).card
  ceiling : ∀ g x, s.governors.get? g = some x → 0 < x.limit →
    (s.slots g).card ≤ x.limit ∧ x.peak ≤ x.limit
  counted : ∀ task, ∀ id ∈ s.blocksOf task, ∃ g, s.account? id = some (g, true)
  once : ∀ task, (s.blocksOf task).Nodup
  apart : ∀ task other id, id ∈ s.blocksOf task → id ∈ s.blocksOf other → task = other

/-- The number of live scopes is the number of slots that are taken. -/
theorem Balanced.live (hs : s.Balanced) {g : GovernorId} {x : Governor}
    (hx : s.governors.get? g = some x) : x.live = (s.slots g).card := by
  rw [Governor.live, hs.balance g x hx, Governor.word_natCast]

/-- Blocks under way are no more than the slots that are taken. -/
theorem Balanced.active_le (hs : s.Balanced) (g : GovernorId) : s.active g ≤ (s.slots g).card := by
  have hnodup : s.blocks.Nodup := by
    refine List.nodup_flatMap.mpr ⟨fun task _ => hs.once task, ?_⟩
    refine List.nodup_range.imp fun {task other} hne => ?_
    exact List.disjoint_left.mpr fun id hid hother => hne (hs.apart task other id hid hother)
  rw [active, List.countP_eq_length_filter]
  generalize hmine : s.blocks.filter (fun id => (s.heap.scope id).governor == g) = mine
  rw [← List.toFinset_card_of_nodup (hmine ▸ hnodup.filter _)]
  refine Finset.card_le_card fun id hid => ?_
  rw [List.mem_toFinset, ← hmine, List.mem_filter, beq_iff_eq] at hid
  obtain ⟨task, -, hblock⟩ := List.mem_flatMap.mp hid.1
  obtain ⟨governor, haccount⟩ := hs.counted task id hblock
  obtain ⟨c, hc, hsame⟩ := Option.map_eq_some_iff.mp haccount
  have hgovernor : c.governor = governor := congrArg Prod.fst hsame
  rw [Heap.scope, hc, Option.getD_some, hgovernor] at hid
  rw [mem_slots, haccount, hid.2]

/-! ## What leaves counted scopes alone -/

/-- **Neither governors nor counted scopes nor blocks have changed**; there may be new scopes that
are not counted. -/
structure KeepsSlots (s s' : EngineState) : Prop where
  governors : s'.governors = s.governors
  next_le : s.heap.scopes.next ≤ s'.heap.scopes.next
  accounts : ∀ id, id < s.heap.scopes.next → s'.account? id = s.account? id
  fresh : ∀ id a, s.heap.scopes.next ≤ id → s'.account? id = some a →
    s.Known a.1 ∧ a.2 = false
  blocks : ∀ task, s'.blocksOf task = s.blocksOf task

theorem KeepsSlots.slots (hk : s.KeepsSlots s') (g : GovernorId) : s'.slots g = s.slots g := by
  ext id
  rw [mem_slots, mem_slots]
  by_cases hid : id < s.heap.scopes.next
  · rw [hk.accounts id hid]
  · constructor
    · intro haccount
      have hfresh := hk.fresh id _ (Nat.le_of_not_lt hid) haccount
      cases hfresh.2
    · intro haccount
      obtain ⟨c, hc, -⟩ := Option.map_eq_some_iff.mp haccount
      exact absurd (Store.lt_next hc) hid

theorem Balanced.keepsSlots (hs : s.Balanced) (hk : s.KeepsSlots s') : s'.Balanced where
  engine := by
    rw [Known, hk.governors]
    exact hs.engine
  known id a ha := by
    rw [Known, hk.governors]
    by_cases hid : id < s.heap.scopes.next
    · exact hs.known id a (hk.accounts id hid ▸ ha)
    · exact (hk.fresh id a (Nat.le_of_not_lt hid) ha).1
  balance g x hx := by
    rw [hk.slots]
    exact hs.balance g x (hk.governors ▸ hx)
  ceiling g x hx := by
    rw [hk.slots]
    exact hs.ceiling g x (hk.governors ▸ hx)
  counted task id hid := by
    obtain ⟨g, hg⟩ := hs.counted task id (hk.blocks task ▸ hid)
    obtain ⟨c, hc, -⟩ := Option.map_eq_some_iff.mp hg
    exact ⟨g, (hk.accounts id (Store.lt_next hc)).trans hg⟩
  once task := hk.blocks task ▸ hs.once task
  apart task other id hid hother := hs.apart task other id (hk.blocks task ▸ hid)
    (hk.blocks other ▸ hother)

theorem KeepsSlots.trans {s'' : EngineState} (hk : s.KeepsSlots s') (hk' : s'.KeepsSlots s'') :
    s.KeepsSlots s'' where
  governors := hk'.governors.trans hk.governors
  next_le := Nat.le_trans hk.next_le hk'.next_le
  accounts id hid :=
    (hk'.accounts id (Nat.lt_of_lt_of_le hid hk.next_le)).trans (hk.accounts id hid)
  fresh id a hid ha := by
    by_cases hold : id < s'.heap.scopes.next
    · exact hk.fresh id a hid (hk'.accounts id hold ▸ ha)
    · have hfresh := hk'.fresh id a (Nat.le_of_not_lt hold) ha
      rwa [Known, hk.governors] at hfresh
  blocks task := (hk'.blocks task).trans (hk.blocks task)

/-- Scopes have stayed with their governors, and blocks with their tasks. -/
theorem keepsSlots (hgovernors : s'.governors = s.governors)
    (hnext : s'.heap.scopes.next = s.heap.scopes.next)
    (haccounts : ∀ id, s'.account? id = s.account? id)
    (hblocks : ∀ task, s'.blocksOf task = s.blocksOf task) : s.KeepsSlots s' where
  governors := hgovernors
  next_le := Nat.le_of_eq hnext.symm
  accounts id _ := haccounts id
  fresh id a hid ha := by
    rw [haccounts] at ha
    obtain ⟨c, hc, -⟩ := Option.map_eq_some_iff.mp ha
    exact absurd (Store.lt_next hc) (Nat.not_lt_of_le hid)
  blocks := hblocks

/-- Something else than scopes and holdings has changed. -/
theorem keepsSlots_elsewhere (hgovernors : s'.governors = s.governors)
    (hscopes : s'.heap.scopes = s.heap.scopes) (hheld : s'.held = s.held) : s.KeepsSlots s' := by
  refine keepsSlots hgovernors (by rw [hscopes]) (fun id => ?_) fun task => ?_
  · rw [account?, account?, hscopes]
  · rw [blocksOf, blocksOf, hheld]

/-- A heap in which scopes have stayed with their governors. -/
theorem keepsSlots_heap {h : Heap} (hnext : h.scopes.next = s.heap.scopes.next)
    (haccounts : ∀ id, (h.scopes.get? id).map Scope.account = s.account? id) :
    s.KeepsSlots { s with heap := h } :=
  keepsSlots rfl hnext haccounts fun _ => rfl

theorem keepsSlots_capture (s : EngineState) (scope : ScopeId) : s.KeepsSlots (s.capture scope) := by
  unfold capture
  generalize (s.heap.chain scope).takeWhile _ = around
  induction around generalizing s with
  | nil => exact keepsSlots_elsewhere rfl rfl rfl
  | cons id rest ih =>
    refine KeepsSlots.trans ?_ (ih _)
    refine keepsSlots rfl (Store.next_modify _ _ _) (fun other => ?_) fun _ => rfl
    simp only [account?, modifyHeap, Heap.modifyScope, Store.get?_modify_eq]
    split
    · subst other
      rw [Option.map_map]
      rfl
    · rfl

/-- A task is started that has no blocks yet. -/
theorem keepsSlots_start (s : EngineState) (job : Job) : s.KeepsSlots (s.start job).2 := by
  refine keepsSlots rfl rfl (fun _ => rfl) fun task => ?_
  show ((((s.held.push [.values job.values]).get? task).getD []).filterMap Holding.block?) = _
  rw [Store.get?_push_eq, blocksOf]
  split
  · subst task
    rw [Store.get?_eq_none (Nat.le_refl _)]
    rfl
  · rfl

/-! ## Scopes that end -/

theorem account?_eraseScope (s : EngineState) (id other : ScopeId) :
    (s.eraseScope id).account? other = if other = id then none else s.account? other := by
  have hcell := cell?_eraseScope s id (.scope other)
  simp only [Heap.cell?, Object.scope.injEq] at hcell
  rw [account?, account?]
  split at hcell
  · rw [if_pos ‹_›, Option.map_eq_none_iff.mp hcell]
    rfl
  · rw [if_neg ‹_›]
    cases hold : s.heap.scopes.get? other with
    | none =>
      rw [hold] at hcell
      rw [Option.map_eq_none_iff.mp hcell]
    | some c =>
      rw [hold] at hcell
      obtain ⟨d, hd, hsame⟩ := Option.map_eq_some_iff.mp hcell
      cases hsame
      rw [hd]

theorem slots_eraseScope (s : EngineState) (id : ScopeId) (g : GovernorId) :
    (s.eraseScope id).slots g = (s.slots g).erase id := by
  ext other
  rw [Finset.mem_erase, mem_slots, mem_slots, account?_eraseScope]
  split
  · rename_i heq
    exact ⟨nofun, fun h => absurd heq h.1⟩
  · rename_i hne
    exact ⟨fun h => ⟨hne, h⟩, fun h => h.2⟩

/-- The governor of a scope that ends gets its slot back. -/
theorem governors_eraseScope (s : EngineState) (id : ScopeId) (g : GovernorId) :
    (s.eraseScope id).governors.get? g =
      if id ∈ s.slots g then (s.governors.get? g).map Governor.release else s.governors.get? g := by
  cases hc : s.heap.scopes.get? id with
  | none =>
    have hmem : id ∉ s.slots g := by
      rw [mem_slots, account?, hc]
      nofun
    rw [if_neg hmem, EngineState.eraseScope, hc]
  | some c =>
    have hmem : id ∈ s.slots g ↔ c.governor = g ∧ c.counted = true := by
      rw [mem_slots, account?, hc, Option.map_some, Option.some.injEq]
      exact Prod.mk.injEq _ _ _ _ ▸ .rfl
    rw [EngineState.eraseScope, hc]
    by_cases hcounted : c.counted = true
    · simp only [hcounted, if_true, modifyHeap, Store.get?_modify_eq]
      by_cases hg : g = c.governor
      · rw [if_pos hg, if_pos (hmem.mpr ⟨hg.symm, hcounted⟩), hg]
      · rw [if_neg hg, if_neg fun h => hg (hmem.mp h).1.symm]
    · simp only [hcounted, if_false, Bool.false_eq_true, modifyHeap]
      rw [if_neg fun h => hcounted (hmem.mp h).2]

/-- There are the same governors as before. -/
theorem Prunes.known (hp : Prunes s s') (g : GovernorId) : s'.Known g ↔ s.Known g := by
  have hsame := congrArg Option.isSome (hp.governors g)
  rw [Option.isSome_map, Option.isSome_map] at hsame
  rw [Known, Known, hsame]

/-- **A scope ends that is no block any more.** -/
theorem Balanced.eraseScope (hs : s.Balanced) (hfree : ∀ task, id ∉ s.blocksOf task) :
    (s.eraseScope id).Balanced := by
  have hprunes := prunes_eraseScope s id
  have hblocks (task : TaskId) : (s.eraseScope id).blocksOf task = s.blocksOf task := by
    rw [blocksOf, hprunes.held, blocksOf]
  have hgovernor {g : GovernorId} {x : Governor}
      (hx : (s.eraseScope id).governors.get? g = some x) : ∃ y, s.governors.get? g = some y ∧
        x = if id ∈ s.slots g then y.release else y := by
    rw [governors_eraseScope] at hx
    split at hx
    · obtain ⟨y, hy, rfl⟩ := Option.map_eq_some_iff.mp hx
      exact ⟨y, hy, (if_pos ‹_›).symm⟩
    · exact ⟨x, hx, (if_neg ‹_›).symm⟩
  refine ⟨?_, fun other a ha => ?_, fun g x hx => ?_, fun g x hx hlimit => ?_,
    fun task other hother => ?_, fun task => hblocks task ▸ hs.once task,
    fun task other id hid hother => ?_⟩
  · exact (hprunes.known 0).mpr hs.engine
  · rw [account?_eraseScope] at ha
    split at ha
    · cases ha
    · exact (hprunes.known _).mpr (hs.known other a ha)
  · obtain ⟨y, hy, rfl⟩ := hgovernor hx
    rw [slots_eraseScope]
    split
    · rename_i hmem
      have hpos := Finset.card_pos.mpr ⟨id, hmem⟩
      show y.balance - 1 = _
      rw [hs.balance g y hy, Finset.card_erase_of_mem hmem]
      omega
    · rename_i hmem
      rw [Finset.erase_eq_of_notMem hmem]
      exact hs.balance g y hy
  · obtain ⟨y, hy, rfl⟩ := hgovernor hx
    have hle : ((s.slots g).erase id).card ≤ (s.slots g).card := Finset.card_erase_le
    rw [slots_eraseScope]
    split at hlimit <;> split
    all_goals
      obtain ⟨hcard, hpeak⟩ := hs.ceiling g y hy hlimit
      exact ⟨Nat.le_trans hle hcard, hpeak⟩
  · rw [hblocks] at hother
    obtain ⟨g, hg⟩ := hs.counted task other hother
    have hne : other ≠ id := fun he => hfree task (he ▸ hother)
    refine ⟨g, ?_⟩
    rw [account?_eraseScope, if_neg hne]
    exact hg
  · rw [hblocks] at hid hother
    exact hs.apart task other id hid hother

theorem blocks_eraseScopes (s : EngineState) (ids : List ScopeId) (task : TaskId) :
    (ids.foldl EngineState.eraseScope s).blocksOf task = s.blocksOf task := by
  rw [blocksOf, (prunes_eraseScopes s ids).held, blocksOf]

theorem Balanced.eraseScopes (hs : s.Balanced) {ids : List ScopeId}
    (hfree : ∀ id ∈ ids, ∀ task, id ∉ s.blocksOf task) :
    (ids.foldl EngineState.eraseScope s).Balanced := by
  induction ids generalizing s with
  | nil => exact hs
  | cons id rest ih =>
    obtain ⟨hid, hrest⟩ := List.forall_mem_cons.mp hfree
    refine ih (hs.eraseScope hid) fun other hother task => ?_
    exact blocks_eraseScopes s [id] task ▸ hrest other hother task

/-- **Garbage gives its slots back**, and no block under way is garbage. -/
theorem Balanced.collect (hs : s.Balanced) : s.collect.Balanced := by
  refine collect_induction (fun s hs => ?_) hs
  have hpruned : s.pruned.Balanced := hs.keepsSlots (keepsSlots_elsewhere rfl rfl rfl)
  rw [sweep_eq]
  refine hpruned.eraseScopes fun id hid task hblock => ?_
  obtain ⟨x, hx, hxid⟩ := List.mem_filterMap.mp hblock
  cases hheld : s.held.get? task with
  | none =>
    rw [show s.pruned.held = s.held from rfl, hheld] at hx
    cases hx
  | some xs =>
    rw [show s.pruned.held = s.held from rfl, hheld] at hx
    have hmem : Object.scope id ∈ xs.flatMap Holding.objects := by
      refine List.mem_flatMap.mpr ⟨x, hx, ?_⟩
      cases x <;> cases hxid
      exact List.mem_singleton_self _
    exact Store.notMem_unmarked (covers_held hheld hmem) hid

/-- Collecting garbage leaves no more scopes than there were. -/
theorem card_slots_collect_le (s : EngineState) (g : GovernorId) :
    (s.collect.slots g).card ≤ (s.slots g).card := by
  refine Finset.card_le_card fun id hid => ?_
  rw [mem_slots] at hid ⊢
  obtain ⟨c, hc, hsame⟩ := Option.map_eq_some_iff.mp hid
  rw [account?, (prunes_collect s).scope_of hc, Option.map_some, hsame]

/-! ## Governors -/

theorem governor_eq {g : GovernorId} {x : Governor} (hx : s.governors.get? g = some x) :
    s.governor g = x := by
  rw [governor, hx, Option.getD_some]

theorem addGovernor_cases {limit : Nat} {g : GovernorId} {x : Governor}
    (hx : (s.addGovernor limit).2.governors.get? g = some x) :
    g = s.governors.next ∧ x = { limit } ∨ s.governors.get? g = some x := by
  rw [addGovernor, Store.get?_push_eq] at hx
  split at hx
  · cases hx
    exact .inl ⟨‹_›, rfl⟩
  · exact .inr hx

theorem Known.addGovernor {g : GovernorId} (hg : s.Known g) (limit : Nat) :
    (s.addGovernor limit).2.Known g := by
  obtain ⟨x, hx⟩ := Option.isSome_iff_exists.mp hg
  have hne : g ≠ s.governors.next := Nat.ne_of_lt (Store.lt_next hx)
  rw [Known, EngineState.addGovernor, Store.get?_push_of_ne hne]
  exact hg

theorem not_known_next (s : EngineState) : ¬ s.Known s.governors.next := by
  rw [Known, Store.get?_eq_none (Nat.le_refl _)]
  nofun

/-- **A new governor has counted nothing yet.** -/
theorem Balanced.addGovernor (hs : s.Balanced) (limit : Nat) : (s.addGovernor limit).2.Balanced := by
  have hnone : s.slots s.governors.next = ∅ := by
    refine Finset.eq_empty_of_forall_notMem fun id hid => ?_
    exact s.not_known_next (hs.known id _ (mem_slots.mp hid))
  refine ⟨hs.engine.addGovernor limit, fun id a ha => (hs.known id a ha).addGovernor limit,
    fun g x hx => ?_, fun g x hx hlimit => ?_, hs.counted, hs.once, hs.apart⟩
  · obtain ⟨rfl, rfl⟩ | hold := addGovernor_cases hx
    · show _ = ((s.slots _).card : Int)
      rw [hnone]
      rfl
    · exact hs.balance g x hold
  · obtain ⟨rfl, rfl⟩ | hold := addGovernor_cases hx
    · show (s.slots _).card ≤ limit ∧ 0 ≤ limit
      rw [hnone]
      exact ⟨Nat.zero_le _, Nat.zero_le _⟩
    · exact hs.ceiling g x hold hlimit

/-! ## Scopes that are opened -/

theorem account?_opened (s : EngineState) (g : GovernorId) (parent other : ScopeId) :
    (s.opened g parent).account? other =
      if other = s.heap.scopes.next then some (g, true) else s.account? other := by
  rw [account?, account?, opened, Store.get?_push_eq]
  split <;> rfl

theorem slots_opened (s : EngineState) (g other : GovernorId) (parent : ScopeId) :
    (s.opened g parent).slots other =
      if other = g then insert s.heap.scopes.next (s.slots other) else s.slots other := by
  ext id
  rw [mem_slots, account?_opened]
  have hnew : s.account? s.heap.scopes.next = none := by
    rw [account?, Store.get?_eq_none (Nat.le_refl _)]
    rfl
  split
  · subst id
    rw [Option.some.injEq, Prod.mk.injEq, and_iff_left rfl]
    split
    · rename_i heq
      simp only [heq, Finset.mem_insert, true_or]
    · rename_i hne
      rw [mem_slots, hnew]
      exact ⟨fun he => absurd he.symm hne, nofun⟩
  · rename_i hne
    split
    · rw [Finset.mem_insert, mem_slots, or_iff_right hne]
    · rw [mem_slots]

theorem known_opened (s : EngineState) (g : GovernorId) (parent : ScopeId) (other : GovernorId) :
    (s.opened g parent).Known other ↔ s.Known other := by
  rw [Known, Known, opened, Store.get?_modify_eq]
  split
  · subst other
    rw [Option.isSome_map]
  · exact .rfl

/-- **A scope is opened where there is a slot for it.** -/
theorem Balanced.opened (hs : s.Balanced) {g : GovernorId} (hg : s.Known g)
    (hfull : (s.governor g).isFull = false) (parent : ScopeId) : (s.opened g parent).Balanced := by
  have hnew (other : GovernorId) : s.heap.scopes.next ∉ s.slots other := by
    intro hmem
    obtain ⟨c, hc, -⟩ := Option.map_eq_some_iff.mp (mem_slots.mp hmem)
    exact absurd (Store.lt_next hc) (Nat.lt_irrefl _)
  have hgovernor {other : GovernorId} {x : Governor}
      (hx : (s.opened g parent).governors.get? other = some x) : ∃ y,
        s.governors.get? other = some y ∧ x = if other = g then y.acquire else y := by
    rw [EngineState.opened, Store.get?_modify_eq] at hx
    split at hx
    · subst other
      obtain ⟨y, hy, rfl⟩ := Option.map_eq_some_iff.mp hx
      exact ⟨y, hy, (if_pos rfl).symm⟩
    · exact ⟨x, hx, (if_neg ‹_›).symm⟩
  refine ⟨?_, fun other a ha => ?_, fun other x hx => ?_, fun other x hx hlimit => ?_,
    fun task id hid => ?_, hs.once, hs.apart⟩
  · exact (s.known_opened g parent 0).mpr hs.engine
  · refine (s.known_opened g parent _).mpr ?_
    rw [account?_opened] at ha
    split at ha
    · cases ha
      exact hg
    · exact hs.known other a ha
  · obtain ⟨y, hy, rfl⟩ := hgovernor hx
    rw [slots_opened]
    split
    · rw [Finset.card_insert_of_notMem (hnew other), Governor.acquire, hs.balance other y hy]
      rfl
    · exact hs.balance other y hy
  · obtain ⟨y, hy, rfl⟩ := hgovernor hx
    rw [slots_opened]
    split
    · -- The slot that is taken is one below the ceiling.
      rename_i heq
      subst heq
      rw [if_pos rfl] at hlimit
      have hroom : ¬ y.limit < (s.slots other).card + 1 := by
        rw [governor, hy, Option.getD_some, Governor.isFull, hs.balance other y hy] at hfull
        have hword := Governor.word_natCast ((s.slots other).card + 1)
        push_cast at hword
        rw [hword, Bool.and_eq_false_iff, decide_eq_false_iff_not, decide_eq_false_iff_not] at hfull
        exact hfull.resolve_left (fun hzero => hzero hlimit)
      rw [Finset.card_insert_of_notMem (hnew other), Governor.acquire, hs.balance other y hy]
      have hword := Governor.word_natCast ((s.slots other).card + 1)
      push_cast at hword
      rw [hword]
      have hpeak := (hs.ceiling other y hy hlimit).2
      exact ⟨Nat.le_of_not_lt hroom, Nat.max_le.mpr ⟨hpeak, Nat.le_of_not_lt hroom⟩⟩
    · rw [if_neg ‹_›] at hlimit
      exact hs.ceiling other y hy hlimit
  · obtain ⟨governor, haccount⟩ := hs.counted task id hid
    refine ⟨governor, ?_⟩
    rw [account?_opened, if_neg, haccount]
    rintro rfl
    exact hnew governor (mem_slots.mpr haccount)

/-! ## Blocks -/

/-- The scope has a slot and is nobody's block yet. -/
def Enterable (id : ScopeId) (s : EngineState) : Prop :=
  (∃ g, s.account? id = some (g, true)) ∧ ∀ task, id ∉ s.blocksOf task

theorem Balanced.enterable_opened (hs : s.Balanced) (g : GovernorId) (parent : ScopeId) :
    Enterable s.heap.scopes.next (s.opened g parent) := by
  refine ⟨⟨g, by rw [account?_opened, if_pos rfl]⟩, fun task hblock => ?_⟩
  obtain ⟨governor, haccount⟩ := hs.counted task _ hblock
  obtain ⟨c, hc, -⟩ := Option.map_eq_some_iff.mp haccount
  exact absurd (Store.lt_next hc) (Nat.lt_irrefl _)

theorem blocksOf_hold (s : EngineState) (x : Holding) (task : TaskId) :
    (s.hold x).blocksOf task = s.blocksOf task ∨
      task = s.current ∧ (s.hold x).blocksOf task = x.block?.toList ++ s.blocksOf task := by
  simp only [blocksOf, hold, Store.get?_modify_eq]
  split
  · subst task
    cases s.held.get? s.current with
    | none => exact .inl rfl
    | some xs => cases x <;> exact .inr ⟨rfl, rfl⟩
  · exact .inl rfl

theorem keepsSlots_hold {x : Holding} (hx : ∀ scope, x ≠ .block scope) :
    s.KeepsSlots (s.hold x) := by
  refine keepsSlots rfl rfl (fun _ => rfl) fun task => ?_
  obtain hsame | ⟨-, hmore⟩ := blocksOf_hold s x task
  · exact hsame
  · cases x with
    | block scope => exact absurd rfl (hx scope)
    | _ => exact hmore

/-- **A scope that has just been opened becomes a block.** -/
theorem Balanced.enter (hs : s.Balanced) (he : Enterable id s) :
    (s.hold (.block id)).Balanced := by
  have hblocks (task : TaskId) : (s.hold (.block id)).blocksOf task = s.blocksOf task ∨
      task = s.current ∧ (s.hold (.block id)).blocksOf task = id :: s.blocksOf task :=
    blocksOf_hold s (.block id) task
  have hmem {task : TaskId} {other : ScopeId} (hother : other ∈ (s.hold (.block id)).blocksOf task) :
      other ∈ s.blocksOf task ∨ other = id ∧ task = s.current := by
    obtain hsame | ⟨htask, hmore⟩ := hblocks task
    · exact .inl (hsame ▸ hother)
    · rw [hmore] at hother
      exact (List.mem_cons.mp hother).symm.imp_right fun heq => ⟨heq, htask⟩
  refine ⟨hs.engine, hs.known, hs.balance, hs.ceiling, fun task other hother => ?_, fun task => ?_,
    fun task task' other hother hother' => ?_⟩
  · obtain hold | ⟨rfl, -⟩ := hmem hother
    · exact hs.counted task other hold
    · exact he.1
  · obtain hsame | ⟨-, hmore⟩ := hblocks task
    · rw [hsame]
      exact hs.once task
    · rw [hmore]
      exact List.nodup_cons.mpr ⟨he.2 task, hs.once task⟩
  · obtain hold | ⟨rfl, rfl⟩ := hmem hother <;> obtain hold' | ⟨heq, htask⟩ := hmem hother'
    · exact hs.apart task task' other hold hold'
    · exact absurd (heq ▸ hold) (he.2 task)
    · exact absurd hold' (he.2 task')
    · exact htask.symm

/-- The blocks of a task that holds something. -/
theorem blocksOf_cons {x : Holding} {xs : List Holding} (hx : s.held.get? task = some (x :: xs)) :
    s.blocksOf task = x.block?.toList ++ xs.filterMap Holding.block? := by
  rw [blocksOf, hx, Option.getD_some, List.filterMap_cons]
  cases x.block? <;> rfl

/-- The last thing that a task holds is taken from it. -/
theorem blocksOf_set {x : Holding} {xs : List Holding} (hx : s.held.get? task = some (x :: xs))
    (other : TaskId) : { s with held := s.held.set task xs }.blocksOf other =
      if other = task then xs.filterMap Holding.block? else s.blocksOf other := by
  rw [blocksOf, blocksOf]
  split
  · subst other
    rw [Store.get?_set_self hx, Option.getD_some]
  · rw [Store.get?_set_of_ne ‹_›]

/-- What letting go of something comes to: the task has one block less at most, and its scope may end
then. -/
theorem Balanced.letGoOf_cases (hs : s.Balanced) (task : TaskId) :
    ∃ t : EngineState, t.Balanced ∧ t.governors = s.governors ∧
      (∀ id, t.account? id = s.account? id) ∧ (∀ other, t.blocksOf other ⊆ s.blocksOf other) ∧
      (t.KeepsSlots (s.letGoOf task) ∨ ∃ id, id ∈ s.blocksOf task ∧
        (∀ other, id ∉ t.blocksOf other) ∧ s.letGoOf task = t.eraseScope id) := by
  by_cases hheld : ∃ x xs, s.held.get? task = some (x :: xs)
  · obtain ⟨x, xs, hx⟩ := hheld
    have hmine := blocksOf_cons hx
    have hblocks := blocksOf_set hx
    have hfewer (other : TaskId) :
        { s with held := s.held.set task xs }.blocksOf other <:+ s.blocksOf other := by
      rw [hblocks]
      split
      · subst other
        rw [hmine]
        exact List.suffix_append _ _
      · exact List.suffix_refl _
    refine ⟨{ s with held := s.held.set task xs }, ⟨hs.engine, hs.known, hs.balance, hs.ceiling,
      fun other id hid => hs.counted other id ((hfewer other).subset hid),
      fun other => (hs.once other).sublist (hfewer other).sublist,
      fun other other' id hid hid' => hs.apart other other' id ((hfewer other).subset hid)
        ((hfewer other').subset hid')⟩, rfl, fun _ => rfl, fun other => (hfewer other).subset, ?_⟩
    rw [letGoOf_eq hx]
    cases x with
    | block id =>
      have hid : id ∈ s.blocksOf task := by
        rw [hmine]
        exact List.mem_cons_self
      have hfree (other : TaskId) :
          id ∉ { s with held := s.held.set task xs }.blocksOf other := by
        intro hblock
        have htask := hs.apart other task id ((hfewer other).subset hblock) hid
        rw [hblocks, if_pos htask] at hblock
        have honce := hs.once task
        rw [hmine] at honce
        exact (List.nodup_cons.mp honce).1 hblock
      simp only [giveBack]
      split
      · exact .inl (keepsSlots_elsewhere rfl rfl rfl)
      · exact .inr ⟨id, hid, hfree, rfl⟩
    | _ => exact .inl (keepsSlots_elsewhere rfl rfl rfl)
  · refine ⟨s, hs, rfl, fun _ => rfl, fun _ => List.Subset.refl _, .inl ?_⟩
    unfold letGoOf
    split
    · rename_i x rest hx
      exact absurd ⟨x, rest, hx⟩ hheld
    · exact keepsSlots_elsewhere rfl rfl rfl

/-- **Letting go of a block gives its slot back**, unless something else refers to its scope. -/
theorem Balanced.letGoOf (hs : s.Balanced) (task : TaskId) : (s.letGoOf task).Balanced := by
  obtain ⟨t, ht, -, -, -, hkept | ⟨id, -, hfree, hgone⟩⟩ := hs.letGoOf_cases task
  · exact ht.keepsSlots hkept
  · rw [hgone]
    exact ht.eraseScope hfree

theorem Enterable.letGoOf (hs : s.Balanced) (he : Enterable id s) (task : TaskId) :
    Enterable id (s.letGoOf task) := by
  obtain ⟨t, ht, -, haccount, hfewer, hcases⟩ := hs.letGoOf_cases task
  obtain ⟨⟨g, hg⟩, hfree⟩ := he
  have hfree' (other : TaskId) : id ∉ t.blocksOf other := fun hid => hfree other (hfewer other hid)
  obtain hkept | ⟨other, hblock, -, hgone⟩ := hcases
  · refine ⟨⟨g, ?_⟩, fun other => hkept.blocks other ▸ hfree' other⟩
    rw [← haccount] at hg
    obtain ⟨c, hc, -⟩ := Option.map_eq_some_iff.mp hg
    rw [hkept.accounts id (Store.lt_next hc)]
    exact hg
  · have hne : id ≠ other := fun heq => hfree task (heq ▸ hblock)
    refine ⟨⟨g, ?_⟩, fun other => ?_⟩
    · rw [hgone, account?_eraseScope, if_neg hne, haccount, hg]
    · rw [hgone, blocksOf, (prunes_eraseScope t _).held]
      exact hfree' other

end EngineState
end ScriptEngine
