import Mathlib.Logic.Relation
import ScriptEngine.Proofs.EngineState.Slots
import ScriptEngine.Proofs.Evaluator.Scripts
import ScriptEngine.Proofs.Heap.Duplicates

/-! # The ceiling on live scopes

Every block, round of a loop, case, handler, module and call of a closure runs in a scope of its own,
which takes a slot of a governor and gives it back when nothing refers to it any more.  Whatever
scripts and hosts do, the governors' counts are right, and no more scopes are live, and no more blocks
are under way, than the ceiling allows.

What happens to scopes is a **history** of moves (`History`): a scope is opened or refused, entered as
a block, let go of, collected as garbage, or left alone.  Evaluation is such a history
(`customs_history`), and the promises of governors hold all along any history.
-/
namespace ScriptEngine

open EngineState (Enterable)

variable {s s' k : EngineState}

/-! ## Histories -/

/-- One thing that happens to scopes and blocks.  If it takes a slot, the governor is noted, and how
many of its scopes are live then; scopes that nothing refers to are not. -/
inductive Move : EngineState → Option (GovernorId × Nat) → EngineState → Prop where
  | opened {s : EngineState} {parent scope : ScopeId} {g : GovernorId}
      (hg : (s.heap.scope parent).governor = g) (hknown : s.Known g)
      (hopened : (s.addChild parent).1 = .ok scope) :
      Move s (some (g, (s.collect.governor g).live + 1)) (s.addChild parent).2
  /-- There is no slot for another scope. -/
  | refused {s : EngineState} {parent : ScopeId} {e : Failure}
      (hrefused : (s.addChild parent).1 = .error e) : Move s none (s.addChild parent).2
  /-- A scope that was opened becomes a block of the task that runs. -/
  | entered {s : EngineState} {scope : ScopeId} (he : Enterable scope s) :
      Move s none (s.hold (.block scope))
  /-- A task lets go of what it has held last. -/
  | letGo {s : EngineState} (task : TaskId) : Move s none (s.letGoOf task)
  | collected {s : EngineState} : Move s none s.collect
  | governor {s : EngineState} (limit : Nat) : Move s none (s.addGovernor limit).2
  /-- Something else happens. -/
  | elsewhere {s s' : EngineState} (hk : s.KeepsSlots s') : Move s none s'

/-- What has happened since `s₀`: the slots that were taken, the last one first. -/
inductive History (s₀ : EngineState) : List (GovernorId × Nat) → EngineState → Prop where
  | start : History s₀ [] s₀
  | next {log : List (GovernorId × Nat)} {s s' : EngineState} {taken : Option (GovernorId × Nat)}
      (hh : History s₀ log s) (hm : Move s taken s') : History s₀ (taken.toList ++ log) s'

theorem History.trans {log log' : List (GovernorId × Nat)} (hh : History k log s)
    (hh' : History s log' s') : History k (log' ++ log) s' := by
  induction hh' with
  | start => exact hh
  | next _ hm ih =>
    rw [List.append_assoc]
    exact .next ih hm

/-- The most live scopes of a governor that a scope was ever opened to. -/
def mostLive (g : GovernorId) (log : List (GovernorId × Nat)) : Nat :=
  ((log.filter (·.1 == g)).map (·.2)).foldr max 0

@[simp] theorem mostLive_cons_self (g : GovernorId) (n : Nat) (log : List (GovernorId × Nat)) :
    mostLive g ((g, n) :: log) = max n (mostLive g log) := by
  simp [mostLive]

theorem mostLive_cons_of_ne {g other : GovernorId} (hne : other ≠ g) (n : Nat)
    (log : List (GovernorId × Nat)) : mostLive g ((other, n) :: log) = mostLive g log := by
  simp [mostLive, hne]

theorem mostLive_eq_zero {g : GovernorId} {log : List (GovernorId × Nat)}
    (hlog : ∀ e ∈ log, e.1 ≠ g) : mostLive g log = 0 := by
  have hnone : log.filter (·.1 == g) = [] := by
    refine List.filter_eq_nil_iff.mpr fun e he => ?_
    simp [hlog e he]
  rw [mostLive, hnone]
  rfl

/-! ## What every move keeps -/

theorem EngineState.Balanced.tidied (hs : s.Balanced) (g : GovernorId) : (s.tidied g).Balanced := by
  unfold EngineState.tidied
  split
  · exact hs.collect
  · exact hs

/-- The governors of a state that has been tidied count as before. -/
theorem prunes_tidied (s : EngineState) (g : GovernorId) : EngineState.Prunes s (s.tidied g) := by
  unfold EngineState.tidied
  split
  · exact EngineState.prunes_collect s
  · exact .refl s

theorem Move.balanced {taken : Option (GovernorId × Nat)} (hm : Move s taken s') (hs : s.Balanced) :
    s'.Balanced := by
  cases hm with
  | opened hg hknown hopened =>
    rw [EngineState.addChild_eq hg rfl] at hopened ⊢
    split at hopened
    · cases hopened
    · rename_i hfull
      rw [if_neg hfull]
      exact (hs.tidied _).opened (((prunes_tidied _ _).known _).mpr hknown)
        (Bool.eq_false_of_not_eq_true hfull) _
  | refused hrefused =>
    rw [EngineState.addChild_eq rfl rfl] at hrefused ⊢
    split at hrefused
    · rw [if_pos ‹_›]
      exact hs.tidied _
    · cases hrefused
  | entered he => exact hs.enter he
  | letGo task => exact hs.letGoOf task
  | collected => exact hs.collect
  | governor limit => exact hs.addGovernor limit
  | elsewhere hk => exact hs.keepsSlots hk

/-- The peaks of all governors are what was noted. -/
structure Peaked (log : List (GovernorId × Nat)) (s : EngineState) : Prop where
  peak : ∀ g x, s.governors.get? g = some x → x.peak = mostLive g log
  known : ∀ e ∈ log, s.Known e.1

/-- Governors keep their peaks where no slot is taken. -/
theorem Peaked.keep {log : List (GovernorId × Nat)} (hp : Peaked log s)
    (hterms : ∀ g, (s'.governors.get? g).map Governor.terms = (s.governors.get? g).map Governor.terms) :
    Peaked log s' where
  peak g x hx := by
    have hsame := hterms g
    rw [hx] at hsame
    obtain ⟨y, hy, hpeak⟩ := Option.map_eq_some_iff.mp hsame.symm
    exact (congrArg Prod.snd hpeak).symm.trans (hp.peak g y hy)
  known e he := by
    have hsame := congrArg Option.isSome (hterms e.1)
    rw [Option.isSome_map, Option.isSome_map] at hsame
    exact hsame.trans (hp.known e he)

/-- **The peak of a governor is raised where more scopes are live than ever.** -/
theorem Peaked.opened {log : List (GovernorId × Nat)} (hp : Peaked log s) (hs : s.Balanced)
    {g : GovernorId} (hg : s.Known g) (parent : ScopeId) :
    Peaked ((g, (s.collect.governor g).live + 1) :: log) ((s.tidied g).opened g parent) := by
  have hlive {t : EngineState} (ht : t.Balanced) {x : Governor} (hx : t.governors.get? g = some x) :
      Governor.word (x.balance + 1) = x.live + 1 := by
    have hword := Governor.word_natCast ((t.slots g).card + 1)
    push_cast at hword
    rw [ht.live hx, ht.balance g x hx, hword]
  have htidied := hp.keep (prunes_tidied s g).governors
  refine ⟨fun other x hx => ?_, List.forall_mem_cons.mpr ⟨?_, fun e he => ?_⟩⟩
  · rw [EngineState.opened, Store.get?_modify_eq] at hx
    split at hx
    · subst other
      obtain ⟨y, hy, rfl⟩ := Option.map_eq_some_iff.mp hx
      have hpeak := htidied.peak g y hy
      rw [mostLive_cons_self, ← hpeak]
      show max y.peak (Governor.word (y.balance + 1)) = _
      rw [hlive (hs.tidied g) hy, Nat.max_comm]
      -- Unless garbage was collected, the new scope is no more than there ever were.
      by_cases htight : EngineState.isTight (s.governor g) = true
      · rw [EngineState.tidied, if_pos htight] at hy
        rw [EngineState.governor_eq hy]
      · rw [EngineState.tidied, if_neg htight] at hy
        obtain ⟨z, hz⟩ := Option.isSome_iff_exists.mp
          (((EngineState.prunes_collect s).known g).mpr hg)
        have hroom : y.live + 1 ≤ y.peak := by
          rw [EngineState.governor_eq hy, EngineState.isTight, Bool.or_eq_true, not_or,
            decide_eq_true_eq] at htight
          exact Nat.le_of_not_lt htight.2
        have hless : z.live ≤ y.live := by
          rw [hs.collect.live hz, hs.live hy]
          exact s.card_slots_collect_le g
        rw [EngineState.governor_eq hz]
        omega
    · rw [mostLive_cons_of_ne (Ne.symm ‹_›)]
      exact htidied.peak other x hx
  · exact ((s.tidied g).known_opened g parent g).mpr (((prunes_tidied s g).known g).mpr hg)
  · exact ((s.tidied g).known_opened g parent e.1).mpr (htidied.known e he)

theorem Move.peaked {log : List (GovernorId × Nat)} {taken : Option (GovernorId × Nat)}
    (hm : Move s taken s') (hs : s.Balanced) (hp : Peaked log s) : Peaked (taken.toList ++ log) s' := by
  cases hm with
  | opened hg hknown hopened =>
    rw [EngineState.addChild_eq hg rfl] at hopened ⊢
    split at hopened
    · cases hopened
    · rw [if_neg ‹_›]
      exact hp.opened hs hknown _
  | refused hrefused =>
    rw [EngineState.addChild_eq rfl rfl] at hrefused ⊢
    split at hrefused
    · rw [if_pos ‹_›]
      exact hp.keep (prunes_tidied s _).governors
    · cases hrefused
  | entered he => exact hp.keep fun _ => rfl
  | letGo task =>
    obtain ⟨t, -, hgovernors, -, -, hkept | ⟨id, -, -, hgone⟩⟩ := hs.letGoOf_cases task
    · exact hp.keep fun g => by rw [hkept.governors, hgovernors]
    · refine hp.keep fun g => ?_
      rw [hgone, (EngineState.prunes_eraseScope t id).governors, hgovernors]
  | collected => exact hp.keep (EngineState.prunes_collect s).governors
  | governor limit =>
    refine ⟨fun g x hx => ?_, fun e he => (hp.known e he).addGovernor limit⟩
    obtain ⟨rfl, rfl⟩ | hold := EngineState.addGovernor_cases hx
    · refine (mostLive_eq_zero fun e he heq => ?_).symm
      exact s.not_known_next (heq ▸ hp.known e he)
    · exact hp.peak g x hold
  | elsewhere hk => exact hp.keep fun g => by rw [hk.governors]

/-- **Along any history the state stays balanced and peaks are what was noted.** -/
theorem History.keeps {log : List (GovernorId × Nat)} (hh : History k log s) (hk : k.Balanced)
    (hp : Peaked [] k) : s.Balanced ∧ Peaked log s := by
  induction hh with
  | start => exact ⟨hk, hp⟩
  | next _ hm ih => exact ⟨hm.balanced ih.1, hm.peaked ih.1 ih.2⟩

/-! ## Evaluation is a history -/

/-- The second state is balanced, and there is a history that leads to it. -/
def LeadsTo (k s : EngineState) : Prop := s.Balanced ∧ ∃ log, History k log s

theorem LeadsTo.step {taken : Option (GovernorId × Nat)} (hs : LeadsTo k s) (hm : Move s taken s') :
    LeadsTo k s' := by
  obtain ⟨hbalanced, log, hh⟩ := hs
  exact ⟨hm.balanced hbalanced, _, hh.next hm⟩

theorem EngineState.Balanced.leadsTo (hs : s.Balanced) : LeadsTo s s := ⟨hs, [], .start⟩

/-- The governor of any scope is known. -/
theorem EngineState.Balanced.known_governor (hs : s.Balanced) (id : ScopeId) :
    s.Known (s.heap.scope id).governor := by
  cases hc : s.heap.scopes.get? id with
  | none =>
    rw [Heap.scope, hc]
    exact hs.engine
  | some c =>
    rw [Heap.scope, hc]
    exact hs.known id c.account (congrArg (Option.map Scope.account) hc)

/-- A scope is opened, and can be entered, or none is. -/
theorem LeadsTo.addChild (hs : LeadsTo k s) (parent : ScopeId) :
    LeadsTo k (s.addChild parent).2 ∧ ∀ scope, (s.addChild parent).1 = .ok scope →
      Enterable scope (s.addChild parent).2 := by
  cases hopened : (s.addChild parent).1 with
  | error e => exact ⟨hs.step (.refused hopened), nofun⟩
  | ok scope =>
    refine ⟨hs.step (.opened rfl (hs.1.known_governor parent) hopened), fun _ hscope => ?_⟩
    cases hscope
    rw [EngineState.addChild_eq rfl rfl] at hopened ⊢
    split at hopened
    · cases hopened
    · rw [if_neg ‹_›]
      cases hopened
      exact (hs.1.tidied _).enterable_opened _ parent

/-- **Whatever evaluation does to scopes is a history.** -/
theorem customs_history : Customs (fun _ => True) LeadsTo Enterable where
  trans := fun ⟨_, log, hh⟩ ⟨hbalanced, log', hh'⟩ => ⟨hbalanced, _, hh.trans hh'⟩
  stays hs := hs.1.leadsTo
  encloses _ := ⟨fun _ _ => trivial, fun _ _ _ _ _ _ => trivial⟩
  deferred _ := fun _ _ _ _ _ => ⟨fun _ _ => trivial, fun _ _ _ _ => trivial⟩
  started _ := fun _ _ _ _ _ _ _ => trivial
  elsewhere hs ha := hs.step (.elsewhere
    (EngineState.keepsSlots_elsewhere ha.governors (by rw [ha.heap]) ha.held))
  heap hs hstays := hs.step (.elsewhere
    (EngineState.keepsSlots_heap hstays.nextScope hstays.accounts))
  frames hs _ := hs.step (.elsewhere (EngineState.keepsSlots_elsewhere rfl rfl rfl))
  start hs _ := hs.step (.elsewhere (EngineState.keepsSlots_start _ _))
  capture hs _ := hs.step (.elsewhere (EngineState.keepsSlots_capture _ _))
  hold hs _ hne := hs.step (.elsewhere (EngineState.keepsSlots_hold hne))
  letGo task hs := hs.step (.letGo task)
  opened hs _ := hs.addChild _
  entered hs he := hs.step (.entered he)
  enterable_letGo task hs he := he.letGoOf hs.1 task
  enterable_in _ _ := trivial

/-! ## Scopes of the host -/

/-- Scopes have stayed with their governors, and new ones have this governor and are not counted. -/
structure Heap.AddsRoots (g : GovernorId) (h h' : Heap) : Prop where
  next_le : h.scopes.next ≤ h'.scopes.next
  accounts : ∀ id, id < h.scopes.next →
    (h'.scopes.get? id).map Scope.account = (h.scopes.get? id).map Scope.account
  fresh : ∀ id c, h.scopes.next ≤ id → h'.scopes.get? id = some c → c.account = (g, false)

namespace Heap.AddsRoots
variable {g : GovernorId} {h h' h'' : Heap}

theorem of_eq (hscopes : h'.scopes = h.scopes) : AddsRoots g h h' where
  next_le := Nat.le_of_eq (by rw [hscopes])
  accounts id _ := by rw [hscopes]
  fresh id c hid hc := absurd (Store.lt_next (hscopes ▸ hc)) (Nat.not_lt_of_le hid)

theorem trans (hr : AddsRoots g h h') (hr' : AddsRoots g h' h'') : AddsRoots g h h'' where
  next_le := Nat.le_trans hr.next_le hr'.next_le
  accounts id hid :=
    (hr'.accounts id (Nat.lt_of_lt_of_le hid hr.next_le)).trans (hr.accounts id hid)
  fresh id c hid hc := by
    by_cases hold : id < h'.scopes.next
    · have haccount := hr'.accounts id hold
      rw [hc] at haccount
      obtain ⟨d, hd, hsame⟩ := Option.map_eq_some_iff.mp haccount.symm
      exact hsame ▸ hr.fresh id d hid hd
    · exact hr'.fresh id c (Nat.le_of_not_lt hold) hc

theorem push {c : Scope} (hc : c.account = (g, false)) :
    AddsRoots g h { h with scopes := h.scopes.push c } where
  next_le := Nat.le_of_lt (Nat.lt_of_lt_of_eq (Nat.lt_succ_self _) (Store.next_push _ _).symm)
  accounts id hid := by rw [Store.get?_push_of_ne (Nat.ne_of_lt hid)]
  fresh id d hid hd := by
    obtain rfl | hold := Store.get?_push hd
    · exact hc
    · exact absurd (Store.lt_next hold) (Nat.not_lt_of_le hid)

theorem modifyScope (id : ScopeId) {f : Scope → Scope} (hf : ∀ c, (f c).account = c.account) :
    AddsRoots g h (h.modifyScope id f) where
  next_le := Nat.le_of_eq (Store.next_modify _ _ _).symm
  accounts other _ := by
    rw [Heap.modifyScope, Store.get?_modify_eq]
    split
    · subst other
      rw [Option.map_map]
      exact congrFun (congrArg _ (funext hf)) _
    · rfl
  fresh other c hid hc := by
    have hlt := Store.lt_next hc
    rw [Heap.modifyScope, Store.next_modify] at hlt
    exact absurd hlt (Nat.not_lt_of_le hid)

theorem bindVar (id : ScopeId) (name : String) (v : Value) : AddsRoots g h (h.bindVar id name v) := by
  unfold Heap.bindVar
  exact modifyScope id fun _ => rfl

theorem bindFunctions (scope : ScopeId) (fs : List HostFunction) :
    AddsRoots g h (Engine.bindFunctions h scope fs) := by
  induction fs generalizing h with
  | nil => exact of_eq rfl
  | cons f rest ih =>
    unfold Engine.bindFunctions
    split
    · exact ih
    · have hadded : AddsRoots g h (h.addFunc (.host f)).2 := of_eq rfl
      exact hadded.trans ((bindVar scope f.name _).trans ih)

theorem copyScopeUpTo (fuel : Nat) (id : ScopeId) :
    AddsRoots g h (Heap.copyScopeUpTo g fuel h id).2 := by
  induction fuel generalizing h id with
  | zero => exact of_eq rfl
  | succ fuel ih =>
    have hpackages (ps : List (String × ScopeId)) (h : Heap) :
        AddsRoots g h (copyPackages (Heap.copyScopeUpTo g fuel) h ps).2 := by
      induction ps generalizing h with
      | nil => exact of_eq rfl
      | cons p rest ih' => exact (ih p.2).trans (ih' _)
    have hvars : AddsRoots g h (copyVars h (h.scope id).vars.entries).2 :=
      of_eq (scopes_copyVars h _)
    exact hvars.trans ((hpackages _ _).trans (push rfl))

theorem copyScope (id : ScopeId) : AddsRoots g h (h.copyScope id g).2 := copyScopeUpTo _ id

theorem clearUpTo (fuel : Nat) (id : ScopeId) : AddsRoots g h (Heap.clearUpTo fuel h id) := by
  induction fuel generalizing h id with
  | zero => exact of_eq rfl
  | succ fuel ih =>
    have hpackages (ps : List ScopeId) (h : Heap) :
        AddsRoots g h (ps.foldl (fun h p => Heap.clearUpTo fuel h p) h) := by
      induction ps generalizing h with
      | nil => exact of_eq rfl
      | cons p rest ih' => exact (ih p).trans (ih' _)
    exact (hpackages _ _).trans (modifyScope id fun _ => rfl)

end Heap.AddsRoots

/-- New scopes that are not counted disturb nothing. -/
theorem EngineState.keepsSlots_roots {g : GovernorId} {h : Heap} (hg : s.Known g)
    (hr : s.heap.AddsRoots g h) : s.KeepsSlots { s with heap := h } where
  governors := rfl
  next_le := hr.next_le
  accounts := hr.accounts
  fresh id a hid ha := by
    obtain ⟨c, hc, rfl⟩ := Option.map_eq_some_iff.mp ha
    rw [hr.fresh id c hid hc]
    exact ⟨hg, rfl⟩
  blocks _ := rfl

theorem EngineState.known_addGovernor (s : EngineState) (limit : Nat) :
    (s.addGovernor limit).2.Known s.governors.next := by
  rw [EngineState.Known, EngineState.addGovernor, Store.get?_push_next]
  rfl

/-- Putting an engine together binds functions and holds a scope. -/
theorem LeadsTo.assemble (hs : LeadsTo k s) (config : Config) (g : GovernorId) (scope : ScopeId)
    (owns : Bool) : LeadsTo k (Engine.assemble s config g scope owns).2 := by
  have hpin {t : EngineState} (ht : LeadsTo k t) : LeadsTo k (t.pin scope) :=
    ht.step (.elsewhere (EngineState.keepsSlots_elsewhere rfl rfl rfl))
  unfold Engine.assemble
  split
  · refine hpin (hs.step (.elsewhere (EngineState.keepsSlots_roots hs.1.engine ?_)))
    exact .bindFunctions scope _
  · exact hpin hs

theorem LeadsTo.newEngine (hs : LeadsTo k s) (config : Config) :
    LeadsTo k (Engine.new s config).2 := by
  have hgovernor := hs.step (.governor config.maxScopes)
  refine LeadsTo.assemble ?_ config _ _ _
  exact hgovernor.step (.elsewhere
    (EngineState.keepsSlots_roots (s.known_addGovernor config.maxScopes) (.push rfl)))

theorem LeadsTo.engineOver (hs : LeadsTo k s) (config : Config) (scope : ScopeId) :
    LeadsTo k (Engine.withScope s config scope).2 := by
  unfold Engine.withScope
  split
  · have hgovernor := hs.step (.governor config.maxScopes)
    have hcopy : LeadsTo k { (s.addGovernor config.maxScopes).2 with
        heap := (s.heap.copyScope scope s.governors.next).2 } :=
      hgovernor.step (.elsewhere
        (EngineState.keepsSlots_roots (s.known_addGovernor config.maxScopes) (.copyScope scope)))
    exact hcopy.assemble config _ _ _
  · exact hs.assemble config _ scope _

theorem LeadsTo.dropEngine (hs : LeadsTo k s) (e : Engine) : LeadsTo k (Engine.drop s e) := by
  have hunpin : LeadsTo k (s.unpin e.scope) :=
    hs.step (.elsewhere (EngineState.keepsSlots_elsewhere rfl rfl rfl))
  unfold Engine.drop
  dsimp only
  split
  · exact hunpin.step (.elsewhere
      (EngineState.keepsSlots_roots hunpin.1.engine (.clearUpTo _ e.scope)))
  · exact hunpin

/-! ## Hosts -/

/-- One thing that a host does. -/
inductive Hosting : Scheduler → Scheduler → Prop where
  | newEngine {sch : Scheduler} (config : Config) :
      Hosting sch { sch with state := (Engine.new sch.state config).2 }
  /-- An engine over a scope of the host, or over a copy of it. -/
  | engineOver {sch : Scheduler} (config : Config) (scope : ScopeId) :
      Hosting sch { sch with state := (Engine.withScope sch.state config scope).2 }
  | dropEngine {sch : Scheduler} (e : Engine) :
      Hosting sch { sch with state := Engine.drop sch.state e }
  /-- A script is run until it is over, or until the host gives it up; meanwhile other tasks run, in
  any order. -/
  | script {sch sch' : Scheduler} (fuel : Nat) (e : Engine) (run : RunId) (script : Block)
      (hleaves : sch.MayLeave (e.execute fuel run script) sch') : Hosting sch sch'
  | call {sch sch' : Scheduler} (fuel : Nat) (run : RunId) (callee : Value) (args : List Value)
      (spread : Bool)
      (hleaves : sch.MayLeave ((Evaluator.ofFuel run fuel).call callee args spread) sch') :
      Hosting sch sch'
  | send {sch sch' : Scheduler} (fuel : Nat) (chan : ChanId) (v : Value) (signal : SignalId)
      (hleaves : sch.MayLeave (Eval.send fuel chan v signal) sch') : Hosting sch sch'
  | receive {sch sch' : Scheduler} (fuel : Nat) (chan : ChanId) (signal : SignalId)
      (hleaves : sch.MayLeave (Eval.recv fuel chan signal) sch') : Hosting sch sch'
  /-- The host opens a scope inside another one, or is refused. -/
  | child {sch : Scheduler} (parent : ScopeId) :
      Hosting sch { sch with state := (sch.state.addChild parent).2 }
  | start {sch : Scheduler} (job : Job) : Hosting sch { sch with state := (sch.state.start job).2 }
  | collect {sch : Scheduler} : Hosting sch { sch with state := sch.state.collect }
  /-- Anything that leaves counted scopes and blocks alone: names and values, scopes that are not
  counted, signals, limits and time. -/
  | other {sch : Scheduler} {s : EngineState} (hk : sch.state.KeepsSlots s) :
      Hosting sch { sch with state := s }

/-- Every task of the scheduler keeps to what a history allows. -/
abbrev Scheduler.KeepsCeiling (sch : Scheduler) : Prop := sch.Safe id LeadsTo

theorem Hosting.leads {sch sch' : Scheduler} (hstep : Hosting sch sch') (hs : sch.KeepsCeiling) :
    Scheduler.Leads id LeadsTo sch sch' := by
  have hC := customs_history.habits
  have hR := hC.rules
  have hvalid : LeadsTo sch.state sch.state := hs.valid
  have hstate {s : EngineState} (hled : LeadsTo sch.state s) :
      Scheduler.Leads id LeadsTo sch { sch with state := s } :=
    hs.withState hC.toLaw hled
  have hrun {α : Type} {P : α → Prop} {m : Eval α} (hleaves : sch.MayLeave m sch')
      (hm : Obeys (fun _ => True) LeadsTo P m) : Scheduler.Leads id LeadsTo sch sch' :=
    hs.leaves hC.discipline (fun s hs' => (hm.observes (hC.stays hs')).on hC.toLaw) hleaves
  cases hstep with
  | newEngine config => exact hstate (hvalid.newEngine config)
  | engineOver config scope => exact hstate (hvalid.engineOver config scope)
  | dropEngine e => exact hstate (hvalid.dropEngine e)
  | script fuel e run script hleaves =>
    exact hs.leaves hC.discipline
      (hC.safe_execute fuel trivial run (Block.in_all script) sch.state) hleaves
  | call fuel run callee args spread hleaves =>
    exact hrun hleaves
      ((hC.obedient run fuel).call spread (fun _ _ => trivial) fun _ _ _ _ => trivial)
  | send fuel chan v signal hleaves =>
    exact hrun hleaves (hR.send trivial trivial (fun _ _ => trivial) fuel)
  | receive fuel chan signal hleaves =>
    exact hrun hleaves (hR.recv trivial trivial fuel)
  | child parent => exact hstate (hvalid.addChild parent).1
  | start job => exact hstate (hC.start hvalid (fun _ _ _ _ => trivial) ⟨default, trivial⟩)
  | collect => exact hstate (hvalid.step .collected)
  | other hk => exact hstate (hvalid.step (.elsewhere hk))

/-- Step after step. -/
theorem leads_of_hosting {sch sch' : Scheduler} (hsteps : Relation.ReflTransGen Hosting sch sch')
    (hs : sch.KeepsCeiling) : Scheduler.Leads id LeadsTo sch sch' := by
  induction hsteps with
  | refl => exact hs.leads
  | tail _ hstep ih => exact ih.trans customs_history.toLaw (hstep.leads ih.safe)

/-! ## The law -/

/-- Nothing has been counted yet: there is a governor, none has given out a slot, and no block is
under way. -/
structure EngineState.Pristine (s : EngineState) : Prop where
  engine : s.Known 0
  roots : ∀ id a, s.account? id = some a → s.Known a.1 ∧ a.2 = false
  governors : ∀ g x, s.governors.get? g = some x → x.balance = 0 ∧ x.peak = 0
  blocks : ∀ task, s.blocksOf task = []

theorem EngineState.Pristine.slots_eq_empty (hs : s.Pristine) (g : GovernorId) : s.slots g = ∅ := by
  refine Finset.eq_empty_of_forall_notMem fun id hid => ?_
  cases (hs.roots id _ (EngineState.mem_slots.mp hid)).2

theorem EngineState.Pristine.balanced (hs : s.Pristine) : s.Balanced where
  engine := hs.engine
  known id a ha := (hs.roots id a ha).1
  balance g x hx := by
    rw [hs.slots_eq_empty, (hs.governors g x hx).1]
    rfl
  ceiling g x hx _ := by
    rw [hs.slots_eq_empty, (hs.governors g x hx).2]
    exact ⟨Nat.zero_le _, Nat.zero_le _⟩
  counted task id hid := by
    rw [hs.blocks] at hid
    cases hid
  once task := by
    rw [hs.blocks]
    exact .nil
  apart task other id hid := by
    rw [hs.blocks] at hid
    cases hid

/-- A refusal does nothing but what a census does. -/
theorem census_addChild {parent : ScopeId} {e : Failure} (he : (s.addChild parent).1 = .error e)
    (g : GovernorId) : (s.addChild parent).2.census g = s.census g := by
  rw [EngineState.addChild_eq rfl rfl] at he ⊢
  split at he
  · rename_i hfull
    rw [if_pos hfull]
    -- Who is refused is so after garbage has been collected: a full governor is tight.
    have htidied : s.tidied (s.heap.scope parent).governor = s.collect := by
      unfold EngineState.tidied at hfull ⊢
      split at hfull
      · rw [if_pos ‹_›]
      · rename_i htight
        rw [EngineState.isTight, hfull, Bool.true_or] at htight
        exact absurd rfl htight
    rw [htidied, EngineState.census, EngineState.census, EngineState.collect_collect]
  · cases he

/-- **The ceiling on live scopes.**  Take a scheduler without tasks under way in whose state nothing
has been counted yet, and whatever the host and its scripts do from there.  What happened to scopes is
a history, and in every state that a history leads to, for every governor, the live scopes are those
that have a slot of it; if it has a limit, then neither they nor its peak nor the number of blocks that
all tasks have under way in scopes of it exceed the limit; and its peak is the most live scopes that a
scope was opened to.  Who is refused a scope is told the limit, and whoever looks then finds governors
and scopes as they were. -/
theorem scopes_below_ceiling {sch sch' : Scheduler}
    (hsteps : Relation.ReflTransGen Hosting sch sch') (hstart : sch.state.Pristine)
    (hready : sch.ready = []) (hparked : sch.parked = []) (hyielded : sch.yielded = []) :
    (∃ log, History sch.state log sch'.state) ∧
      ∀ log s, History sch.state log s →
        (∀ g x, s.governors.get? g = some x →
          x.live = (s.slots g).card ∧
          (0 < x.limit → x.live ≤ x.limit ∧ x.peak ≤ x.limit ∧ s.active g ≤ x.limit) ∧
          x.peak = mostLive g log) ∧
        ∀ parent e, (s.addChild parent).1 = .error e →
          (∃ limit, e = .fault (.scopeLimit limit)) ∧
          ∀ g, (s.addChild parent).2.census g = s.census g := by
  have hsafe : sch.KeepsCeiling := {
    valid := hstart.balanced.leadsTo
    ready := by rw [hready]; exact nofun
    parked := by rw [hparked]; exact nofun
    yielded := by rw [hyielded]; exact nofun }
  refine ⟨(leads_of_hosting hsteps hsafe).develops.2, fun log s hh => ⟨fun g x hx => ?_, ?_⟩⟩
  · have hpeaked : Peaked [] sch.state := ⟨fun g x hx => (hstart.governors g x hx).2, nofun⟩
    obtain ⟨hbalanced, hpeak⟩ := hh.keeps hstart.balanced hpeaked
    have hlive := hbalanced.live hx
    refine ⟨hlive, fun hlimit => ?_, hpeak.peak g x hx⟩
    obtain ⟨hcard, hmost⟩ := hbalanced.ceiling g x hx hlimit
    exact ⟨hlive ▸ hcard, hmost, Nat.le_trans (hbalanced.active_le g) hcard⟩
  · exact fun parent e he => ⟨EngineState.addChild_error he, census_addChild he⟩

/-! ## A function that calls itself for ever -/

/-- An engine with three slots and no functions. -/
def threeSlots : Config := { maxScopes := 3, coreBuiltins := false }

/-- A scheduler with that engine and nothing else. -/
def withThreeSlots : Scheduler := { state := (Engine.new .initial threeSlots).2 }

/-- `func r() { r() }`, then `r()`. -/
def runaway : Block :=
  let call : Expr := .mk (.call (.mk (.ident "r") .unknown) [] false) .unknown
  [.mk (.func (.mk (some "r") [] false [.mk (.expr call) .unknown])) .unknown,
    .mk (.expr call) .unknown]

/-- The scheduler after the script. -/
def afterRunaway : Scheduler :=
  (withThreeSlots.run 40 (Engine.execute 40 (Engine.new .initial threeSlots).1 0 runaway)).1

theorem pristine_withThreeSlots : withThreeSlots.state.Pristine where
  engine := rfl
  roots id a ha := by
    obtain ⟨c, hc, rfl⟩ := Option.map_eq_some_iff.mp ha
    obtain rfl | hc := Store.get?_push hc
    · exact ⟨rfl, rfl⟩
    · cases hc
  governors g x hx := by
    obtain rfl | hx := Store.get?_push hx
    · exact ⟨rfl, rfl⟩
    · cases hx
  blocks task := by
    rw [EngineState.blocksOf]
    cases hheld : withThreeSlots.state.held.get? task with
    | none => rfl
    | some xs =>
      obtain rfl | hxs := Store.get?_push hheld
      · rfl
      · cases hxs

/-- Three calls are under way when the fourth is refused, and no slot is lost. -/
theorem scopes_below_ceiling_runaway :
    (∃ log, History withThreeSlots.state log afterRunaway.state) ∧
      (afterRunaway.state.governor 0).peak = 3 ∧ (afterRunaway.state.governor 0).live = 0 := by
  have hstep : Relation.ReflTransGen Hosting withThreeSlots afterRunaway :=
    .single (.script 40 _ 0 runaway (withThreeSlots.mayLeave_run 40 _))
  refine ⟨(scopes_below_ceiling hstep pristine_withThreeSlots rfl rfl rfl).1, ?_⟩
  constructor <;> decide +kernel

end ScriptEngine
