import Mathlib.Logic.Relation
import ScriptEngine.Engine
import ScriptEngine.Proofs.Evaluator.Families
import ScriptEngine.Proofs.Heap.Building
import ScriptEngine.Proofs.Heap.Copying
import ScriptEngine.Proofs.Scheduler.Turns
import ScriptEngine.Proofs.Task.Keeping

/-! # Typed containers stay well typed

Whatever scripts and hosts do, a list keeps to its element type, a map to its key and value types, a
struct to the types of its fields and a channel to its element type, and a fixed list keeps its
length.  Scripts keep the heap sound, also while they take turns, and in between the host works on
the same heap (`HostStep`).
-/

/-! ## Evaluation keeps the heap sound

Everything that evaluation does by itself keeps a sound heap sound (`Elementary.keeping`), hence so
does the evaluation of every script, however it is put together (`keeping_ofFuel`).  Host functions
that the script finds in the heap are honest, so what they build is well typed too.
-/
namespace ScriptEngine

/-! ## What evaluation does by itself -/

/-- **Everything that evaluation does by itself keeps the heap sound.** -/
theorem Elementary.keeping {α : Type} {m : Eval α} (hm : Elementary m) : Keeping m := by
  induction hm with
  | pure a => exact .pure a
  | bind _ _ ihm ihk => exact .bind ihm ihk
  | holding x _ ih => exact .holding x ih
  | located p _ ih => exact .located p ih
  | read f => exact .read f
  | ofOutcome o => exact .ofOutcome o
  | throw e => exact ⟨fun _ hs => ⟨hs.follows, trivial⟩⟩
  | breakDown message => exact ⟨fun _ hs => hs.follows⟩
  | outOfFuel => exact ⟨fun _ hs => hs.follows⟩
  | await on _ => exact .await on
  | sleep ms =>
    refine ⟨fun s hs => ?_⟩
    show KeepsOn (Step.bind (fun a s => .done s (Except.ok a)) (Task.sleepUntil (s.now + ms) s)) _
    unfold Task.sleepUntil
    split
    · exact ⟨hs.follows, trivial⟩
    · exact ⟨hs.follows, fun s' hs' => ⟨hs'.sound.follows, trivial⟩⟩
  | spend run n => exact .modify fun _ hs => hs.follows
  | tickLimiter run => exact .update fun _ hs => hs.follows
  | cancel signal => exact .modify fun _ hs => hs.follows
  | refuse r => exact .modify fun _ hs => hs.follows
  | pass run => exact .modify fun s hs => s.pass_eq run ▸ hs.follows
  | complain m => exact .modify fun _ hs => hs.follows
  | addChild parent => exact .update fun _ hs => EngineState.follows_addChild hs parent
  | define scope name v => exact .bindName name fun hs hp => hs.naming (Heap.scopes_define hp)
  | assign scope name v => exact .bindName name fun hs hp => hs.naming (Heap.scopes_assign hp)
  | definePackage scope name package =>
    exact .bindName name fun hs hp => hs.naming (Heap.scopes_definePackage hp)
  | addClosure definition scope selfBound => exact .alloc fun _ hs => hs.addFunc trivial
  | capture scope => exact .modify fun _ hs => EngineState.follows_capture hs scope
  | newFrame => exact .update fun _ hs => hs.follows
  | defer frame call => exact .modify fun _ hs => hs.follows
  | dropDeferred frame => exact .modify fun _ hs => hs.follows
  | start job => exact .update fun _ hs => hs.follows
  | addPlainList items => exact .alloc fun _ hs => hs.addPlainList items
  | addMap keyType valueType => exact .alloc fun _ hs => hs.addMap fun e he => by cases he
  | typedList type items =>
    refine .onHeap fun hs hp => ?_
    obtain ⟨⟨ws, h₁⟩, hc, hp⟩ := Outcome.bind_eq_ok.mp hp
    cases hp
    exact Heap.follows_typedItems hs hc
  | zero type => exact .onHeap fun hs hp => Heap.follows_zero hs hp
  | make run type args => exact .make run type args
  | buildRange run bounds =>
    have hitem : GoodItems (fun _ _ => True) fun i s =>
        (.ok (.int (Int64.ofInt (bounds.item i))), s) :=
      ⟨fun _ _ hs => hs.follows, fun _ _ _ _ => trivial, fun _ _ _ _ _ => trivial⟩
    refine .bind ⟨fun s hs => (keeps_build hitem run _ hs).on Heap.law_follows⟩ fun items => ?_
    exact .alloc fun _ hs => hs.addPlainList items
  | binary op left right => exact .onHeap fun hs hp => Heap.follows_binary hs hp
  | slice target start stop => exact .onHeap fun hs hp => Heap.follows_slice hs hp
  | append target args => exact .onHeap fun hs hp => Heap.follows_append hs hp
  | hostArguments f fixed rest => exact .onHeap fun hs hp => Heap.follows_hostArguments hs hp
  | hostResult f results => exact .onHeap fun hs hp => Heap.follows_hostResult hs hp
  | storeEntry map key v => exact .store fun hs hp => Heap.prepared_prepareEntry hs hp
  | storeIndex container index v => exact .store fun hs hp => Heap.prepared_prepareIndex hs hp
  | storeMember container name v => exact .store fun hs hp => Heap.prepared_prepareMember hs hp
  | delete target key => exact .changeHeap fun hs hp => Heap.follows_delete hs hp
  | trySend chan v =>
    refine .bind (.onHeap fun hs hp => Heap.follows_trySend hs hp) fun sent => ?_
    cases sent with
    | true => exact .bind (.modify fun _ hs => hs.follows) fun _ => .pure _
    | false => exact .pure _
  | tryRecv chan =>
    refine .bind (.onHeap fun hs hp => Heap.follows_tryRecv hs hp) fun received => ?_
    match received with
    | some (_, true) => exact .bind (.modify fun _ hs => hs.follows) fun _ => .pure _
    | some (_, false) | none => exact .pure _
  | register chan =>
    exact .modify fun _ hs => hs.modifyChan (fun _ _ => rfl) fun _ _ ht => ht
  | close chan =>
    refine .bind (.changeHeap fun hs hp => Heap.follows_closeChan hs hp) fun _ => ?_
    exact .modify fun _ hs => hs.follows
  | send rounds chan v signal => exact .send rounds chan v signal
  | recv hp => cases hp
  | awaitCase hp => cases hp

/-! ## Scripts -/

/-- Whatever is put together from computations that keep the heap sound does so too, as long as host
functions are honest. -/
theorem closed_keeping :
    Closed HostFunction.Honest fun {α} (m : Unit → Eval α) => Keeping (m ()) where
  same m hm := Elementary.keeping (Ingredient.elementary hm)
  attempt hm := .attempt hm
  bind hm hk := .bind hm hk
  holding x _ hm := .holding x hm
  located p _ hm := .located p hm
  callee id k hscript hhost := by
    refine ⟨fun s hs => ?_⟩
    show KeepsOn ((Eval.readHeap (·.func id) >>= k ()) s) s.heap
    rw [Eval.bind_apply, Eval.readHeap_apply, Step.bind_of_done, Eval.andThen_ok]
    cases hf : s.heap.funcs.get? id with
    | none =>
      have hfunc : s.heap.func id = default := by rw [Heap.func, hf]; rfl
      rw [hfunc]
      -- The function that stands for a missing one builds nothing.
      have hhonest : HostFunction.Honest (.fixed "" [] [] .echo) :=
        .intro (fun h vs h' ht hb => by cases hb; exact ht) (List.forall_mem_nil _)
      exact (hhost _ hhonest).keeps s hs
    | some f =>
      have hfunc : s.heap.func id = f := by rw [Heap.func, hf]; rfl
      have hhonest := hs.honest id f hf
      rw [hfunc]
      cases f with
      | script definition scope selfBound => exact (hscript definition scope selfBound).keeps s hs
      | host f => exact (hhost f hhonest).keeps s hs
  give {f results} hf ha := .onHeap fun hs hp => by
    have hbuilt : f.action.built = results := by rw [ha]; rfl
    exact Heap.follows_buildAll hs hf (hbuilt ▸ hp)
  throw {f value} hf ha := .onHeap fun hs hp => by
    have hbuilt : f.action.built = [value] := by rw [ha]; rfl
    exact Heap.follows_buildAll hs hf (hbuilt ▸ Heap.buildAll_singleton hp)

/-- Everything that the evaluator can be asked keeps the heap sound. -/
abbrev KeepingAll (run : RunId) (rounds : Nat) (ev : Evaluator) : Prop :=
  Requests HostFunction.Honest (fun {α} (m : Unit → Eval α) => Keeping (m ())) run rounds
    fun _ => ev

/-- **Every evaluation keeps the heap sound**, with any fuel. -/
theorem keeping_ofFuel (run : RunId) (fuel : Nat) :
    ∃ rounds, KeepingAll run rounds (Evaluator.ofFuel run fuel) :=
  closed_keeping.ofFuel run fuel

end ScriptEngine

namespace ScriptEngine
variable {α : Type} {h h' : Heap}

/-! ## Scripts -/

theorem Keeping.safe {m : Eval α} (hm : Keeping m) :
    SafeToResume EngineState.heap Heap.Follows h m :=
  fun s hs => hm.keeps s hs.sound

/-- What a job does keeps the heap sound. -/
theorem keepsOn_program {s : EngineState} (fuel : Nat) (task : TaskId) (job : Job)
    (hs : s.heap.Sound) : KeepsOn (job.program fuel task s) s.heap := by
  have hgo := EngineState.follows_letGoOf hs s.current
  have hreport {m : Eval (Option (Value × Bool))} (hm : Keeping m) :
      KeepsOn (Job.report task m s.letGo) s.heap :=
    Keeps.after hgo ((hm.keeps s.letGo hgo.sound).bind fun r s' _ hs' _ => ⟨hs'.follows, trivial⟩)
  cases job with
  | call run callee args spread =>
    obtain ⟨rounds, hall⟩ := keeping_ofFuel run fuel
    exact Keeps.after hgo (((hall.call callee args spread).keeps s.letGo hgo.sound).bind
      fun r s' _ hs' _ => ⟨hs'.follows, trivial⟩)
  | send chan v signal => exact hreport (.bind (.send fuel chan v signal) fun _ => .pure _)
  | recv chan signal => exact hreport (.bind (Elementary.keeping inferInstance) fun _ => .pure _)

/-- Keeping the heap sound is something that tasks can do while they take turns. -/
theorem discipline_follows : Discipline EngineState.heap Heap.Follows where
  toLaw := Heap.law_follows
  current _ hs := hs
  notices hs := hs
  now _ hs := hs
  letGo task hs := hs.trans (EngineState.follows_letGoOf hs.sound task)
  program fuel task job _ _ := fun _ hs => keepsOn_program fuel task job hs.sound

/-- Every task of the scheduler keeps the heap sound. -/
abbrev Scheduler.KeepsSound (sch : Scheduler) : Prop := sch.Safe EngineState.heap Heap.Follows

/-- The scheduler keeps the heap sound, and the heap advances. -/
abbrev Scheduler.Advances (sch sch' : Scheduler) : Prop :=
  Leads EngineState.heap Heap.Follows sch sch'

/-! ## The host -/

/-- Scripts keep the heap sound, also if they break down. -/
theorem safe_execute (fuel : Nat) (e : Engine) (run : RunId) (script : Block) :
    SafeToResume EngineState.heap Heap.Follows h (e.execute fuel run script) := by
  intro s hs
  obtain ⟨rounds, hall⟩ := keeping_ofFuel run fuel
  have hprogram := (hall.program script e.scope).keeps s hs.sound
  have hguarded := Observes.catchBreakDown discipline_follows.letGo (s.holdCount s.current) hprogram
  refine Keeps.bind hguarded fun r s' _ hs' _ => ?_
  match r with
  | .ok (.ok v) | .ok (.error error) | .error message => exact ⟨hs'.follows, trivial⟩

/-- What a host can do with the heap: everything that reads or writes containers, makes new ones, or
changes what names are bound to. -/
inductive Heap.Operation : Heap → Heap → Prop where
  | storeItem {h h' : Heap} {id : ListId} {index : Int} {v : Value}
      (ho : h.storeItem id index v = .ok h') : Operation h h'
  | pushItem {h h' : Heap} {id : ListId} {v : Value} (ho : h.pushItem id v = .ok h') :
      Operation h h'
  | storeEntry {h h' : Heap} {id : MapId} {key v : Value} (ho : h.storeEntry id key v = .ok h') :
      Operation h h'
  | removeEntry {h h' : Heap} {id : MapId} {key : Value} {old : Option Value}
      (ho : h.removeEntry id key = .ok (old, h')) : Operation h h'
  | storeField {h h' : Heap} {id : HandleId} {name : String} {v : Value}
      (ho : h.storeField id name v = .ok h') : Operation h h'
  | trySend {h h' : Heap} {id : ChanId} {v : Value} {sent : Bool}
      (ho : h.trySend id v = .ok (sent, h')) : Operation h h'
  | tryRecv {h h' : Heap} {id : ChanId} {r : Option (Value × Bool)}
      (ho : h.tryRecv id = .ok (r, h')) : Operation h h'
  | close {h h' : Heap} {id : ChanId} (ho : h.closeChan id = .ok h') : Operation h h'
  | slice {h h' : Heap} {target v : Value} {start stop : Option Value}
      (ho : h.slice target start stop = .ok (v, h')) : Operation h h'
  | binary {h h' : Heap} {op : BinaryOp} {left right v : Value}
      (ho : h.binary op left right = .ok (v, h')) : Operation h h'
  | append {h h' : Heap} {target v : Value} {items : List Value}
      (ho : h.append target items = .ok (v, h')) : Operation h h'
  | convert {h h' : Heap} {v w : Value} {type : HostType} (ho : h.convert v type = .ok (w, h')) :
      Operation h h'
  | zero {h h' : Heap} {type : HostType} {v : Value} (ho : h.zero type = .ok (v, h')) :
      Operation h h'
  | make {h h' : Heap} {type : HostType} {args : List Value} {v : Value}
      (ho : h.make type args = .ok (v, h')) : Operation h h'
  | deepCopy {h : Heap} (v : Value) : Operation h (h.deepCopy v).2
  | copyScope {h : Heap} (id : ScopeId) (governor : GovernorId) :
      Operation h (h.copyScope id governor).2
  /-- The host builds values, as one of its functions would. -/
  | build {h h' : Heap} {f : HostFunction} {vs : List Value} (hf : f.Honest)
      (ho : h.buildAll f.action.built = .ok (vs, h')) : Operation h h'
  | addFunc {h : Heap} {f : HostFunction} (hf : f.Honest) : Operation h (h.addFunc (.host f)).2
  | scopes {h : Heap} (scopes : Store Scope) : Operation h { h with scopes }

theorem Heap.Operation.follows (ho : h.Operation h') (hs : h.Sound) : h.Follows h' := by
  cases ho with
  | storeItem ho => exact follows_storeItem hs ho
  | pushItem ho => exact follows_pushItem hs ho
  | storeEntry ho => exact follows_storeEntry hs ho
  | removeEntry ho => exact follows_removeEntry hs ho
  | storeField ho => exact follows_storeField hs ho
  | trySend ho => exact follows_trySend hs ho
  | tryRecv ho => exact follows_tryRecv hs ho
  | close ho => exact follows_closeChan hs ho
  | slice ho => exact follows_slice hs ho
  | binary ho => exact follows_binary hs ho
  | append ho => exact follows_append hs ho
  | convert ho => exact hs.convert ho
  | zero ho => exact follows_zero hs ho
  | make ho => exact follows_make hs ho
  | deepCopy v => exact follows_deepCopy hs v
  | copyScope id governor => exact follows_copyScope hs id governor
  | build hf ho => exact follows_buildAll hs hf ho
  | addFunc hf => exact hs.addFunc hf
  | scopes scopes => exact hs.scopes scopes

/-- One thing that happens from the host's point of view. -/
inductive HostStep : Scheduler → Scheduler → Prop where
  /-- A script is run until it is over, or until the host gives it up; meanwhile other tasks run, in
  any order. -/
  | script {sch sch' : Scheduler} (fuel : Nat) (e : Engine) (run : RunId) (script : Block)
      (hleaves : sch.MayLeave (e.execute fuel run script) sch') : HostStep sch sch'
  /-- A function is called. -/
  | call {sch sch' : Scheduler} (fuel : Nat) (run : RunId) (callee : Value) (args : List Value)
      (spread : Bool)
      (hleaves : sch.MayLeave ((Evaluator.ofFuel run fuel).call callee args spread) sch') :
      HostStep sch sch'
  /-- Something of what evaluation is made of: a send, a receive, a write, a pause. -/
  | evaluate {α : Type} {sch sch' : Scheduler} {m : Eval α} (hm : Elementary m)
      (hleaves : sch.MayLeave m sch') : HostStep sch sch'
  | operate {sch : Scheduler} {h' : Heap} (ho : sch.state.heap.Operation h') :
      HostStep sch { sch with state := { sch.state with heap := h' } }
  /-- Garbage is collected. -/
  | collect {sch : Scheduler} : HostStep sch { sch with state := sch.state.collect }
  /-- Anything that does not change the heap: signals, limits, tasks that are started. -/
  | other {sch : Scheduler} {s : EngineState} (hs : s.heap = sch.state.heap) :
      HostStep sch { sch with state := s }

/-- One step of the host keeps the scheduler safe. -/
theorem HostStep.leads {sch sch' : Scheduler} (hstep : HostStep sch sch') (hs : sch.KeepsSound) :
    sch.Advances sch' := by
  have hsound : sch.state.heap.Sound := hs.valid.sound
  cases hstep with
  | script fuel e run script hleaves =>
    exact hs.leaves discipline_follows (safe_execute fuel e run script) hleaves
  | call fuel run callee args spread hleaves =>
    obtain ⟨rounds, hall⟩ := keeping_ofFuel run fuel
    exact hs.leaves discipline_follows (hall.call callee args spread).safe hleaves
  | evaluate hm hleaves => exact hs.leaves discipline_follows hm.keeping.safe hleaves
  | operate ho => exact hs.withState Heap.law_follows (ho.follows hsound)
  | collect => exact hs.withState Heap.law_follows (EngineState.follows_collect hsound)
  | @other _ s hheap =>
    have hf : sch.state.heap.Follows s.heap := hheap ▸ hsound.follows
    exact hs.withState Heap.law_follows hf

theorem leads_of_steps {sch sch' : Scheduler} (hsteps : Relation.ReflTransGen HostStep sch sch')
    (hs : sch.KeepsSound) : sch.Advances sch' := by
  induction hsteps with
  | refl => exact hs.leads
  | tail _ hstep ih => exact ih.trans Heap.law_follows (hstep.leads ih.safe)

/-! ## The law -/

/-- **Typed containers stay well typed.**  Take a scheduler without tasks under way whose heap is
well typed and has only honest host functions, and whatever the host and its scripts do from there, in
whatever order tasks take their turns.
Then the heap is well typed at any time, and every fixed list keeps its length from any time to any
later one, as long as it is there. -/
theorem containers_stay_typed {sch mid sch' : Scheduler}
    (hbefore : Relation.ReflTransGen HostStep sch mid)
    (hafter : Relation.ReflTransGen HostStep mid sch')
    (htyped : sch.state.heap.WellTyped)
    (hhonest : ∀ id f, sch.state.heap.funcs.get? id = some (.host f) → f.Honest)
    (hready : sch.ready = []) (hparked : sch.parked = []) (hyielded : sch.yielded = []) :
    sch'.state.heap.WellTyped ∧
      ∀ id c c', mid.state.heap.lists.get? id = some c → c.fixed = true →
        sch'.state.heap.lists.get? id = some c' →
        c'.fixed = true ∧ c'.elemType = c.elemType ∧ c'.items.size = c.items.size := by
  have hsound : sch.state.heap.Sound := ⟨htyped, fun id f hf => by
    cases f with
    | script definition scope selfBound => trivial
    | host f => exact hhonest id f hf⟩
  have hsafe : sch.KeepsSound := {
    valid := hsound.follows
    ready := by rw [hready]; exact nofun
    parked := by rw [hparked]; exact nofun
    yielded := by rw [hyielded]; exact nofun }
  have hmid := (leads_of_steps hbefore hsafe).safe
  obtain ⟨-, hadvances, hsound'⟩ := leads_of_steps hafter hmid
  refine ⟨hsound'.wellTyped, fun id c c' hc hfixed hc' => ?_⟩
  -- A list is either gone by then or has the shape it had, and a fixed one has its length in its shape.
  obtain hnone | hsame := hadvances.lists.kept id (Store.lt_next hc)
  · rw [hnone] at hc'
    cases hc'
  · rw [hc, hc'] at hsame
    obtain ⟨helem, hfix, hsize⟩ := ListShape.mk.inj (Option.some.inj hsame)
    rw [hfixed] at hfix hsize
    rw [hfix] at hsize
    exact ⟨hfix, helem, hsize⟩

/-! ## A script that writes into a typed array -/

/-- `bytes()` gives a new slice of one byte. -/
def bytes : HostFunction :=
  .fixed "bytes" [] [] (.give [.list [.int 7] (some (.int .uint8)) false])

/-- The array `a` of two bytes, and the function `bytes`. -/
def twoBytes : Scheduler where
  state := { EngineState.initial with
    heap := {
      lists := ({} : Store ListCell).push ⟨#[.int 1, .int 2], some (.int .uint8), true⟩
      funcs := ({} : Store Function).push (.host bytes)
      scopes := ({} : Store Scope).push
        { vars := (Bindings.empty.insert "a" (.list 0)).insert "bytes" (.func 0) } }
    runs := ({} : Store Run).push ⟨0, ⟨0, 0, 0, 0⟩, 0, 0⟩ }

/-- `a[0] = 300`, then `bytes()`. -/
def overflowing : Block :=
  let ident (name : String) : Expr := .mk (.ident name) .unknown
  let number (n : Int64) : Expr := .mk (.literal (.int n)) .unknown
  [.mk (.assign [.mk (.index (ident "a") (number 0)) .unknown] [number 300]) .unknown,
    .mk (.expr (.mk (.call (ident "bytes") [] false) .unknown)) .unknown]

/-- The scheduler after the script. -/
def afterOverflowing : Scheduler :=
  (twoBytes.run 20 (Engine.execute 20 ⟨{}, 0, 0, false, none, none⟩ 0 overflowing)).1

theorem honest_bytes : bytes.Honest := by
  refine .intro (fun h vs h' ht hb => ?_) fun g hg => by cases hg
  have hbuild : h.buildAll bytes.action.built =
      .ok ([.list h.lists.next], (h.addList ⟨#[.int 7], some (.int .uint8), false⟩).2) := rfl
  rw [hbuild] at hb
  cases hb
  refine ht.addList fun v hv => ?_
  cases List.mem_singleton.mp hv
  exact (Conforms.int (k := .uint8) ⟨by decide, by decide⟩).to

theorem wellTyped_twoBytes : twoBytes.state.heap.WellTyped where
  lists id c hc := by
    obtain rfl | hc := Store.get?_push hc
    · intro v hv
      refine Conforms.to ?_
      obtain rfl | hv := List.mem_cons.mp hv
      · exact .int ⟨by decide, by decide⟩
      · cases List.mem_singleton.mp hv
        exact .int ⟨by decide, by decide⟩
    · cases hc
  maps id c hc := by cases hc
  handles id c hc := by cases hc
  chans id c hc := by cases hc

/-- The number in an item of a list. -/
def intAt (sch : Scheduler) (id : ListId) (i : Nat) : Option Int64 :=
  match (sch.state.heap.list id).items[i]? with
  | some (.int n) => some n
  | _ => none

/-- 300 is cut to a byte, the new slice is there, and all is well typed. -/
theorem containers_stay_typed_bytes :
    afterOverflowing.state.heap.WellTyped ∧ intAt afterOverflowing 0 0 = some 44 ∧
      intAt afterOverflowing 1 0 = some 7 := by
  have hstep : Relation.ReflTransGen HostStep twoBytes afterOverflowing :=
    .single (.script 20 _ 0 overflowing (twoBytes.mayLeave_run 20 _))
  have hhonest : ∀ id f, twoBytes.state.heap.funcs.get? id = some (.host f) → f.Honest := by
    intro id f hf
    obtain hf | hf := Store.get?_push hf
    · cases hf
      exact honest_bytes
    · cases hf
  refine ⟨(containers_stay_typed .refl hstep wellTyped_twoBytes hhonest rfl rfl rfl).1, ?_⟩
  constructor <;> decide +kernel

end ScriptEngine
