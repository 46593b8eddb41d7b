import ScriptEngine.Engine
import ScriptEngine.Proofs.Evaluator.Families
import ScriptEngine.Proofs.Task.Watching

/-! # Every script looks before it waits

Whatever evaluation does by itself, it makes known what it does to channels, and it waits for a
channel only after having looked at it (`Ingredient.watchful`); hence so do all scripts, however they
are put together (`watchful_ofFuel`), and all jobs (`watchful_program`).
-/
namespace ScriptEngine

open EngineState

variable {α β : Type}

/-! ## Building a slice -/

theorem tells_fill {item : Nat → EngineState → Outcome Value × EngineState}
    (hitem : ∀ i s, Tells none s (item i s).2) (count index : Nat) (items : Array Value)
    (s : EngineState) : Tells none s (Eval.fill item count index items s).2 := by
  induction count generalizing index items s with
  | zero => exact .refl none s
  | succ count ih =>
    have hfirst := hitem index s
    unfold Eval.fill
    split
    · rename_i v s' heq
      rw [heq] at hfirst
      exact hfirst.trans (ih _ _ s')
    · rename_i f s' heq
      rw [heq] at hfirst
      exact hfirst

namespace Watchful

theorem tick (run : RunId) : Watchful [] (Eval.tick run) := by
  refine bind (update fun s => tells_elsewhere rfl rfl rfl (.refl _)) fun pause => ?_
  cases pause with
  | none => exact .pure ()
  | some due => exact bind (read _) fun signal => .await rfl

theorem pulse (run : RunId) : Watchful [] (Eval.pulse run) := by
  refine bind (bind (read _) fun signal => bind (read _) fun on => ?_) fun _ => ?_
  · cases on with
    | true => exact throw _
    | false => exact .pure ()
  · refine bind (bind (modify fun s => tells_elsewhere rfl rfl rfl (.refl _)) fun _ => read _)
      fun _ => bind (.await rfl) fun _ => tick run

theorem buildStretches (run : RunId) (length : Nat)
    {item : Nat → EngineState → Outcome Value × EngineState}
    (hitem : ∀ i s, Tells none s (item i s).2) (stretches size : Nat) (built : List (Array Value)) :
    Watchful [] (Eval.buildStretches run length item stretches size built) := by
  induction stretches generalizing size built with
  | zero => exact .pure _
  | succ stretches ih =>
    have hnext : Watchful [] (do
        let stretch ← Eval.ofOutcome
          (← Eval.update (Eval.fill item (min turnInterval (length - size)) size #[]))
        Eval.buildStretches run length item stretches
          (size + min turnInterval (length - size)) (stretch :: built) : Eval _) := by
      refine bind (update fun s => tells_fill hitem _ _ _ s) fun o => ?_
      exact bind (ofOutcome o) fun stretch => ih _ _
    unfold Eval.buildStretches
    split
    · exact hnext
    · exact bind (holding _ [] (pulse run) (List.forall_mem_nil _)) fun _ => hnext

theorem build (run : RunId) (length : Nat)
    {item : Nat → EngineState → Outcome Value × EngineState}
    (hitem : ∀ i s, Tells none s (item i s).2) : Watchful [] (Eval.build run length item) := by
  refine bind (bind (read _) fun limit => ?_) fun _ => ?_
  · split
    · exact bind (modify fun _ => tells_elsewhere rfl rfl rfl (.refl _)) fun _ => throw _
    · exact .pure ()
  · exact bind (buildStretches run length hitem _ _ _) fun _ => .pure _

theorem make (run : RunId) (type : HostType) (args : List Value) :
    Watchful [] (Eval.make run type args) := by
  unfold Eval.make
  split
  · rename_i elem
    refine bind (bind (read _) fun o => ofOutcome o) fun length => ?_
    refine bind (build run length fun i s => ?_) fun items => onHeap Heap.spares_addSlice
    unfold Eval.zeroItem
    split
    · exact tells_heap (Heap.grows_zeroValue elem s.heap).spares
    · exact .refl none s
  · exact onHeap Heap.spares_make

end Watchful

/-! ## What evaluation does by itself -/

/-- **Everything that evaluation does by itself watches.** -/
theorem Ingredient.watchful {m : Eval α} (hm : Ingredient false m) :
    Watchful [] m := by
  induction hm with
  | pure a => exact .pure a
  | bind _ _ ihm ihk => exact .bind ihm ihk
  | holding x _ ih => exact .holding x [] ih nofun
  | located p _ ih => exact .located p ih
  | read f => exact .read f
  | ofOutcome o => exact .ofOutcome o
  | throw e => exact .throw e
  | breakDown message => exact .stop _
  | outOfFuel => exact .stop _
  | await on hp =>
    rcases hp with hp | hp
    · cases hp
    · exact .await hp
  | sleep ms => exact .sleep ms
  | spend run n => exact .modify fun _ => tells_elsewhere rfl rfl rfl (.refl _)
  | tickLimiter run => exact .update fun _ => tells_elsewhere rfl rfl rfl (.refl _)
  | cancel signal => exact .modify fun s => tells_cancel s signal
  | refuse r => exact .modify fun _ => tells_elsewhere rfl rfl rfl (.refl _)
  | complain m => exact .modify fun _ => tells_elsewhere rfl rfl rfl (.refl _)
  | pass run => exact .modify fun s => tells_pass s run
  | addChild parent => exact .update fun s => tells_addChild s parent
  | define scope name v => exact .bindName name fun hp => Heap.spares_naming (Heap.scopes_define hp)
  | assign scope name v => exact .bindName name fun hp => Heap.spares_naming (Heap.scopes_assign hp)
  | definePackage scope name package =>
    exact .bindName name fun hp => Heap.spares_naming (Heap.scopes_definePackage hp)
  | addClosure definition scope selfBound => exact .alloc fun _ => .refl _
  | capture scope => exact .modify fun s => tells_capture s scope
  | newFrame => exact .update fun _ => tells_elsewhere rfl rfl rfl (.refl _)
  | defer frame call => exact .modify fun _ => tells_elsewhere rfl rfl rfl (.refl _)
  | dropDeferred frame => exact .modify fun _ => tells_elsewhere rfl rfl rfl (.refl _)
  | start job => exact .update fun s => tells_start s job nofun
  | addPlainList items => exact .alloc fun _ => .refl _
  | addMap keyType valueType => exact .alloc fun _ => .refl _
  | typedList type items =>
    refine .onHeap fun hp => ?_
    obtain ⟨⟨ws, h₁⟩, hc, hp⟩ := Outcome.bind_eq_ok.mp hp
    cases hp
    exact (Heap.grows_convertItems (Heap.grows_convert type) hc).spares
  | zero type => exact .onHeap fun hp => (Heap.grows_zero hp).spares
  | make run type args => exact .make run type args
  | buildRange run bounds =>
    exact .bind (.build run _ fun _ s => .refl none s) fun items => .alloc fun _ => .refl _
  | binary op left right => exact .onHeap Heap.spares_binary
  | slice target start stop => exact .onHeap Heap.spares_slice
  | append target args => exact .onHeap Heap.spares_append
  | hostArguments f fixed rest => exact .onHeap Heap.spares_hostArguments
  | hostResult f results => exact .onHeap Heap.spares_hostResult
  | storeEntry map key v => exact .store Heap.spares_prepareEntry
  | storeIndex container index v => exact .store Heap.spares_prepareIndex
  | storeMember container name v => exact .store Heap.spares_prepareMember
  | delete target key => exact .changeHeap Heap.spares_delete
  | trySend chan v => exact .trySend chan v
  | tryRecv chan => exact .tryRecv chan
  | register chan => exact .modify fun s => tells_register s chan
  | close chan => exact .close chan
  | send rounds chan v signal => exact .send rounds chan v signal
  | recv _ rounds chan signal => exact .recv rounds chan signal
  | awaitCase _ ops canSkip signal rounds => exact .awaitCase ops canSkip signal rounds

/-! ## Scripts and jobs -/

/-- Whatever is put together from computations that watch does so too. -/
theorem closed_watchful :
    Closed (fun _ => True) fun {α} (m : Unit → Eval α) => Watchful [] (m ()) where
  same _ hm := hm.watchful
  bind hm hk := .bind hm hk
  holding x _ hm := .holding x [] hm nofun
  located p _ hm := .located p hm
  attempt hm := .attempt hm
  callee id k hscript hhost := by
    refine .bind (.read _) fun f => ?_
    cases f with
    | script definition scope selfBound => exact hscript definition scope selfBound
    | host f => exact hhost f trivial
  give _ _ := .onHeap Heap.spares_buildAll
  throw _ _ := .onHeap fun hb => Heap.spares_buildAll (Heap.buildAll_singleton hb)

/-- **Every evaluation watches**, with any fuel. -/
theorem watchful_ofFuel (run : RunId) (fuel : Nat) :
    ∃ rounds, Requests (fun _ => True) (fun {α} (m : Unit → Eval α) => Watchful [] (m ())) run
      rounds fun _ => Evaluator.ofFuel run fuel :=
  closed_watchful.ofFuel run fuel

/-- What a job does watches, also as it lets go first of what the job refers to. -/
theorem watches_program (fuel : Nat) (task : TaskId) (job : Job) {s : EngineState}
    {xs : List Holding} (hs : s.current = task) (hx : s.held.get? task = some xs) :
    WatchesOn task xs.tail (job.program fuel task s) s := by
  have htells : Tells (some task) s s.letGo := by
    rw [letGo, hs]
    exact tells_letGoOf s task
  have hcurrent : s.letGo.current = task := htells.current_eq.trans hs
  have hheld : s.letGo.held.get? s.letGo.current = some xs.tail := by
    rw [hcurrent, letGo, hs]
    exact held_letGoOf hx
  have hstarts {α : Type} {m : Eval α} (hm : Watchful [] m) :
      WatchesOn task xs.tail (m s.letGo) s := by
    have hm' := hm.watches s.letGo xs.tail hheld (List.forall_mem_nil _)
    rw [hcurrent] at hm'
    exact .after htells hm'
  have hreport {m : Eval (Option (Value × Bool))} (hm : Watchful [] m) :
      WatchesOn task xs.tail (Job.report task m s.letGo) s :=
    (hstarts hm).bind hs fun r s' _ hx' _ => ⟨tells_elsewhere rfl rfl rfl (.refl _), hx', trivial⟩
  cases job with
  | call run callee args spread =>
    obtain ⟨rounds, hall⟩ := watchful_ofFuel run fuel
    exact (hstarts (hall.call callee args spread)).bind hs
      fun r s' _ hx' _ => ⟨.refl _ s', hx', trivial⟩
  | send chan v signal => exact hreport (.bind (.send fuel chan v signal) fun _ => .pure _)
  | recv chan signal => exact hreport (.bind (.recv fuel chan signal) fun _ => .pure _)

/-- A script watches, also if it breaks down. -/
theorem watchful_execute (fuel : Nat) (e : Engine) (run : RunId) (script : Block) :
    Watchful [] (e.execute fuel run script) := by
  obtain ⟨rounds, hall⟩ := watchful_ofFuel run fuel
  refine ⟨fun s keep hx _ => ?_⟩
  have hprogram := (hall.program script e.scope).watches s keep hx (List.forall_mem_nil _)
  have hguarded := hprogram.catchBreakDown rfl
  have hcount : s.holdCount s.current = keep.length := by
    rw [holdCount, hx]
    rfl
  rw [← hcount] at hguarded
  refine Watches.bind hguarded rfl fun r s' _ hx' _ => ?_
  cases r with
  | error message => exact ⟨.refl _ s', hx', trivial⟩
  | ok outcome => cases outcome <;> exact ⟨.refl _ s', hx', trivial⟩

end ScriptEngine
