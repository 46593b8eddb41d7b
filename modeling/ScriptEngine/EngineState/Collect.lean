import ScriptEngine.EngineState.Basic

/-! Giving back scopes that nothing refers to. An object that no task, no deferred call, no started
job, no scope of the host and no other object refers to is taken out of the heap, and then those
that only it referred to. Objects that refer to each other in a circle stay. -/
namespace ScriptEngine

/-- An object of the heap. -/
inductive Object where
  | list (id : ListId)
  | map (id : MapId)
  | func (id : FuncId)
  | chan (id : ChanId)
  | handle (id : HandleId)
  | scope (id : ScopeId)
deriving Repr, DecidableEq, Inhabited

/-- The object that a value refers to. -/
def Value.object? : Value → Option Object
  | .list id => some (.list id)
  | .map id => some (.map id)
  | .func id => some (.func id)
  | .chan id => some (.chan id)
  | .handle id => some (.handle id)
  | _ => none

/-- The objects that values refer to. -/
def Value.objects (vs : List Value) : List Object := vs.filterMap Value.object?

namespace Scope

/-- What a scope refers to. -/
def objects (c : Scope) : List Object :=
  Value.objects c.vars.values ++ c.packages.values.map .scope ++ c.parent.toList.map .scope

end Scope

namespace Function

/-- What a function refers to: a closure to the scope it was made in. -/
def objects : Function → List Object
  | .script _ scope _ => [.scope scope]
  | .host _ => []

end Function

namespace Handle

/-- What a handle refers to. -/
def objects : Handle → List Object
  | .struct c => Value.objects c.values
  | .token _ => []

end Handle

namespace Holding

/-- What a task refers to by holding something. -/
def objects : Holding → List Object
  | .value v => Value.objects [v]
  | .values vs => Value.objects vs
  | .stretches built => built.flatMap fun vs => Value.objects vs.toList
  | .rows left => Value.objects (left.map (·.1)) ++ Value.objects (left.map (·.2))
  | .block scope | .package scope => [.scope scope]
  | .frame _ => []
  | .receiver chan => [.chan chan]

end Holding

/-- For each object whether something refers to it. -/
structure Marks where
  lists : Array Bool
  maps : Array Bool
  funcs : Array Bool
  chans : Array Bool
  handles : Array Bool
  scopes : Array Bool

namespace Marks

/-- No object is referred to. -/
def none (h : Heap) : Marks where
  lists := Array.replicate h.lists.next false
  maps := Array.replicate h.maps.next false
  funcs := Array.replicate h.funcs.next false
  chans := Array.replicate h.chans.next false
  handles := Array.replicate h.handles.next false
  scopes := Array.replicate h.scopes.next false

/-- Something refers to this object. -/
def mark (m : Marks) : Object → Marks
  | .list id => { m with lists := m.lists.setIfInBounds id true }
  | .map id => { m with maps := m.maps.setIfInBounds id true }
  | .func id => { m with funcs := m.funcs.setIfInBounds id true }
  | .chan id => { m with chans := m.chans.setIfInBounds id true }
  | .handle id => { m with handles := m.handles.setIfInBounds id true }
  | .scope id => { m with scopes := m.scopes.setIfInBounds id true }

/-- Something refers to these objects. -/
def markAll (m : Marks) (objects : List Object) : Marks := objects.foldl mark m

/-- Marks what the objects of a store refer to. -/
def markStore {α : Type} (m : Marks) (store : Store α) (objects : α → List Object) : Marks :=
  store.slots.foldl (fun m slot =>
    match slot with
    | some a => m.markAll (objects a)
    | .none => m) m

end Marks

namespace Heap

/-- Marks what the objects of the heap refer to. -/
def markObjects (h : Heap) (m : Marks) : Marks :=
  let m := m.markStore h.lists fun c => Value.objects c.items.toList
  let m := m.markStore h.maps fun c => Value.objects (c.entries.map (·.2))
  let m := m.markStore h.funcs Function.objects
  let m := m.markStore h.chans fun c => Value.objects c.buffer
  let m := m.markStore h.handles Handle.objects
  m.markStore h.scopes Scope.objects

end Heap

/-- The numbers of the objects in a store that are not marked. -/
def Store.unmarked {α : Type} (store : Store α) (marks : Array Bool) : List Nat :=
  store.next.foldRev (fun id _ ids =>
    if (store.get? id).isSome && !marks.getD id true then id :: ids else ids) []

/-- A fold from the last number to the first that keeps some of them keeps them in order. -/
theorem foldRev_eq_filter (keep : Nat → Bool) (n : Nat) (ids : List Nat) :
    n.foldRev (fun id _ ids => if keep id then id :: ids else ids) ids =
      (List.range n).filter keep ++ ids := by
  induction n generalizing ids with
  | zero => rfl
  | succ n ih =>
    rw [Nat.foldRev_succ, ih, List.range_succ, List.filter_append]
    by_cases h : keep n <;> simp [h]

theorem Store.unmarked_eq {α : Type} (store : Store α) (marks : Array Bool) :
    store.unmarked marks = (List.range store.next).filter fun id =>
      (store.get? id).isSome && !marks.getD id true := by
  rw [Store.unmarked, foldRev_eq_filter, List.append_nil]

/-- The store without these objects. -/
def Store.eraseAll {α : Type} (store : Store α) (ids : List Nat) : Store α :=
  ids.foldl Store.erase store

namespace EngineState

/-- What deferred calls refer to. -/
def frameObjects (calls : List DeferredCall) : List Object :=
  calls.flatMap fun c => Value.objects (c.callee :: c.args)

/-- What a report refers to. -/
def reportObjects (r : Report) : List Object :=
  match r.outcome with
  | .ok (some (v, _)) => Value.objects [v]
  | .ok none => []
  | .error e => match e.fault with
    | .thrown v => Value.objects [v]
    | _ => []

/-- Marks whatever something refers to. -/
def marks (s : EngineState) : Marks :=
  let m := Marks.none s.heap
  let m := m.markAll (s.pinned.map .scope)
  let m := m.markStore s.held fun hs => hs.flatMap Holding.objects
  let m := m.markStore s.frames frameObjects
  let m := m.markAll (s.reports.flatMap reportObjects)
  s.heap.markObjects m

/-- Takes every object out that nothing refers to, and tells whether there was one. -/
def sweep (s : EngineState) : EngineState × Bool :=
  let m := s.marks
  let lists := s.heap.lists.unmarked m.lists
  let maps := s.heap.maps.unmarked m.maps
  let funcs := s.heap.funcs.unmarked m.funcs
  let chans := s.heap.chans.unmarked m.chans
  let handles := s.heap.handles.unmarked m.handles
  let scopes := s.heap.scopes.unmarked m.scopes
  let found := !(lists.isEmpty && maps.isEmpty && funcs.isEmpty && chans.isEmpty &&
    handles.isEmpty && scopes.isEmpty)
  let s := s.modifyHeap fun h => { h with
    lists := h.lists.eraseAll lists
    maps := h.maps.eraseAll maps
    funcs := h.funcs.eraseAll funcs
    chans := h.chans.eraseAll chans
    handles := h.handles.eraseAll handles }
  (scopes.foldl eraseScope s, found)

/-- Sweeps until nothing is left to take out, at most `fuel` times. -/
def collectUpTo : (fuel : Nat) → EngineState → EngineState
  | 0, s => s
  | fuel + 1, s =>
    match s.sweep with
    | (s, true) => collectUpTo fuel s
    | (s, false) => s

/-- The number of objects there ever were. -/
def objectCount (s : EngineState) : Nat :=
  s.heap.lists.next + s.heap.maps.next + s.heap.funcs.next + s.heap.chans.next +
    s.heap.handles.next + s.heap.scopes.next

/-- Takes out everything that is not held and not in a circle. Where no scope lingers there is
nothing that could be given back. -/
def collect (s : EngineState) : EngineState :=
  if s.lingering = 0 then s else collectUpTo (s.objectCount + 1) s

/-- A governor as it is to be seen: without the scopes that nothing refers to. -/
def census (s : EngineState) (id : GovernorId) : Governor × EngineState :=
  let s := s.collect
  (s.governor id, s)

/-- Whether the next scope would be refused, or be more than there ever were. Only then does it
matter which scopes linger. -/
def isTight (g : Governor) : Bool := g.isFull || g.peak < g.live + 1

/-- Takes a slot of a governor, if there is one. Counting up, comparing, and counting down again if
there is none are one step: the task does not wait in between. -/
def acquire (s : EngineState) (id : GovernorId) : Outcome Unit × EngineState :=
  let g := s.governor id
  if g.isFull then (.error (.fault (.scopeLimit g.limit)), s)
  else (.ok (), { s with governors := s.governors.modify id (·.acquire) })

/-- Gives a slot of a governor back. -/
def release (s : EngineState) (id : GovernorId) : EngineState :=
  { s with governors := s.governors.modify id (·.release) }

/-- A new scope inside another one, if the governor has a slot for it. -/
def addChild (s : EngineState) (parent : ScopeId) : Outcome ScopeId × EngineState :=
  let governor := (s.heap.scope parent).governor
  let s := if isTight (s.governor governor) then s.collect else s
  match s.acquire governor with
  | (.error f, s) => (.error f, s)
  | (.ok (), s) =>
    let child : Scope := { parent := some parent, governor, counted := true }
    (.ok s.heap.scopes.next, s.modifyHeap fun h => { h with scopes := h.scopes.push child })

end EngineState

end ScriptEngine
