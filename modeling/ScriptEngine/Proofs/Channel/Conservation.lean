import ScriptEngine.Channel
import ScriptEngine.Proofs.Heap.Growth

/-! # Channels lose nothing, invent nothing and keep the order

Whatever operations interleave on a channel, and however: what was handed out, followed by what is
in the buffer, is what was accepted, in the same order; the counters count exactly that; a buffered
channel never holds more than its capacity; the channel knows exactly how many receivers are
registered; after the close nothing is accepted; and once one receive has been told that nothing
more comes, so is every later one.

All of this follows from what one move can do to the channel itself (`Effect`, `Move.effect`): of
the sixteen kinds of moves most leave the channel as it is, and the others accept a value, hand one
out, close the channel, or count a receiver in or out.
-/

/-! ## A channel under any number of interleaved operations

Every operation on a channel consists of **moves**, each of which looks at the channel and changes
it at one go.  A send is a conversion, then one attempt after the other to leave the value, and on
an unbuffered channel one look after the other at whether the value has been received; a receive is
an attempt, then a registration, then further attempts, then the withdrawal of the registration.
Between two moves of one operation all others may move, so a run is any sequence of moves of any
number of operations, together with whatever else happens to the rest of the heap.

A `Config` is a heap with the operations under way, each at its `Stage`.  A move may be seen from
outside as an `Event`: a value is accepted, a receive is answered, the channel is closed.  The
events of a run are its history, and `Proofs.Channel.Conservation` reads the laws of channels off
it.
-/
namespace ScriptEngine
namespace ChannelRun

/-- Where an operation stands that takes more than one move. -/
inductive Stage where
  /-- A send whose value is converted, and not accepted yet. -/
  | offering (v : Value)
  /-- A send on an unbuffered channel that waits until the value with this ticket is received. -/
  | delivering (ticket : Nat)
  /-- A receive that found nothing, before it registers. -/
  | arriving
  /-- A registered receive. -/
  | receiving
  /-- A registration that is only to be withdrawn: of a receive that is over, or one that somebody
  made on its own account. -/
  | guard
deriving Inhabited

/-- The operation is registered as a waiting receiver. -/
def Stage.isGuarded : Stage → Bool
  | .receiving | .guard => true
  | .offering _ | .delivering _ | .arriving => false

/-- What can be seen of a move. -/
inductive Event where
  | accepted (v : Value)
  /-- A receive was answered. -/
  | answered (v : Value) (ok : Bool)
  | closed
  | silent
deriving Inhabited

/-- A heap with the operations on the channel that are under way. -/
structure Config where
  heap : Heap
  ops : List Stage

/-- What follows once a value has been accepted: the sender on an unbuffered channel waits for the
receipt, every other one is done. -/
def afterAccept (c : Channel) (ticket : Nat) : List Stage :=
  if c.capacity = 0 then [.delivering ticket] else []

/-- **One move** on the channel `id`.  `before` and `after` are the other operations under way. -/
inductive Move (id : ChanId) : Config → Event → Config → Prop where
  /-- A send begins: its value is converted. -/
  | prepare (before after : List Stage) {h h' : Heap} {v w : Value}
      (hc : h.chanValue id v = .ok (w, h')) :
      Move id ⟨h, before ++ after⟩ .silent ⟨h', before ++ .offering w :: after⟩
  /-- A send leaves its value. -/
  | accept (before after : List Stage) {h h' : Heap} {w : Value} {ticket : Nat}
      (ho : h.offer id w = .ok (some ticket, h')) :
      Move id ⟨h, before ++ .offering w :: after⟩ (.accepted w)
        ⟨h', before ++ afterAccept (h.chan id) ticket ++ after⟩
  /-- A send finds no room, and will look again. -/
  | noRoom (before after : List Stage) {h h' : Heap} {w : Value}
      (ho : h.offer id w = .ok (none, h')) :
      Move id ⟨h, before ++ .offering w :: after⟩ .silent ⟨h', before ++ .offering w :: after⟩
  /-- A send fails because the channel is closed. -/
  | refuse (before after : List Stage) {h : Heap} {w : Value} {f : Failure}
      (ho : h.offer id w = .error f) :
      Move id ⟨h, before ++ .offering w :: after⟩ .silent ⟨h, before ++ after⟩
  /-- The value of a send on an unbuffered channel has been received. -/
  | deliver (before after : List Stage) {h : Heap} {ticket : Nat}
      (hs : (h.chan id).isSettled ticket) :
      Move id ⟨h, before ++ .delivering ticket :: after⟩ .silent ⟨h, before ++ after⟩
  /-- A send is interrupted while it waits, or nobody goes on with it. -/
  | abandon (before after : List Stage) {h : Heap} {op : Stage} (hop : op.isGuarded = false) :
      Move id ⟨h, before ++ op :: after⟩ .silent ⟨h, before ++ after⟩
  /-- A send that does not wait leaves its value. -/
  | trySend {h h₁ h' : Heap} {v w : Value} {ops : List Stage}
      (hc : h.chanValue id v = .ok (w, h₁)) (hs : h.trySend id v = .ok (true, h')) :
      Move id ⟨h, ops⟩ (.accepted w) ⟨h', ops⟩
  /-- A send that does not wait leaves nothing. -/
  | skip {h h' : Heap} {v : Value} {ops : List Stage} (hs : h.trySend id v = .ok (false, h')) :
      Move id ⟨h, ops⟩ .silent ⟨h', ops⟩
  /-- A receive is answered at once. -/
  | tryRecv {h h' : Heap} {v : Value} {ok : Bool} {ops : List Stage}
      (hr : h.tryRecv id = .ok (some (v, ok), h')) :
      Move id ⟨h, ops⟩ (.answered v ok) ⟨h', ops⟩
  /-- A receive finds nothing, and is going to register. -/
  | arrive (before after : List Stage) {h h' : Heap} (hr : h.tryRecv id = .ok (none, h')) :
      Move id ⟨h, before ++ after⟩ .silent ⟨h', before ++ .arriving :: after⟩
  /-- A receive registers. -/
  | enlist (before after : List Stage) {h : Heap} :
      Move id ⟨h, before ++ .arriving :: after⟩ .silent
        ⟨h.modifyChan id (·.register), before ++ .receiving :: after⟩
  /-- A registered receive is answered. -/
  | take (before after : List Stage) {h h' : Heap} {v : Value} {ok : Bool}
      (hr : h.tryRecv id = .ok (some (v, ok), h')) :
      Move id ⟨h, before ++ .receiving :: after⟩ (.answered v ok) ⟨h', before ++ .guard :: after⟩
  /-- A registered receive finds nothing, and will look again. -/
  | nothing (before after : List Stage) {h h' : Heap} (hr : h.tryRecv id = .ok (none, h')) :
      Move id ⟨h, before ++ .receiving :: after⟩ .silent ⟨h', before ++ .receiving :: after⟩
  /-- A registered receive is interrupted while it waits, or nobody goes on with it. -/
  | giveUp (before after : List Stage) {h : Heap} :
      Move id ⟨h, before ++ .receiving :: after⟩ .silent ⟨h, before ++ .guard :: after⟩
  /-- Somebody registers on its own account. -/
  | register (before after : List Stage) {h : Heap} :
      Move id ⟨h, before ++ after⟩ .silent
        ⟨h.modifyChan id (·.register), before ++ .guard :: after⟩
  /-- A registration is withdrawn. -/
  | withdraw (before after : List Stage) {h : Heap} :
      Move id ⟨h, before ++ .guard :: after⟩ .silent
        ⟨h.modifyChan id (·.withdraw), before ++ after⟩
  | close {h h' : Heap} {ops : List Stage} (hc : h.closeChan id = .ok h') :
      Move id ⟨h, ops⟩ .closed ⟨h', ops⟩
  /-- Anything happens to the rest of the heap. -/
  | elsewhere {h h' : Heap} {ops : List Stage} (he : h'.chans.get? id = h.chans.get? id) :
      Move id ⟨h, ops⟩ .silent ⟨h', ops⟩

/-- **A run**: moves one after the other, with what could be seen of them. -/
inductive Run (id : ChanId) (start : Config) : List Event → Config → Prop where
  | nil : Run id start [] start
  | step {es : List Event} {e : Event} {c c' : Config} (hr : Run id start es c)
      (hm : Move id c e c') : Run id start (es ++ [e]) c'

/-- The values that were accepted, in order. -/
def accepted (es : List Event) : List Value :=
  es.filterMap fun
    | .accepted v => some v
    | _ => none

/-- The values that were handed out, in order. -/
def handedOut (es : List Event) : List Value :=
  es.filterMap fun
    | .answered v true => some v
    | _ => none

/-- Some receive has been told that there is nothing more to come. -/
def Exhausted (es : List Event) : Prop := ∃ v, .answered v false ∈ es

end ChannelRun
end ScriptEngine

namespace ScriptEngine
namespace Heap

/-! ## What the operations do to a channel that is there -/

variable {h h' : Heap} {id : ChanId} {c : Channel}

theorem chan_eq (hc : h.chans.get? id = some c) : h.chan id = c := by
  unfold chan
  rw [hc]
  rfl

theorem get?_modifyChan (hc : h.chans.get? id = some c) (f : Channel → Channel) :
    (h.modifyChan id f).chans.get? id = some (f c) := by
  show (h.chans.modify id f).get? id = some (f c)
  rw [Store.get?_modify_self, hc]
  rfl

theorem chanValue_chans {v w : Value} (hv : h.chanValue id v = .ok (w, h')) :
    h'.chans = h.chans :=
  (grows_convertTo hv).chans

/-- An offer is accepted by an open channel with room, or leaves everything as it is. -/
theorem offer_cases {v : Value} {r : Option Nat} (ho : h.offer id v = .ok (r, h')) :
    ((h.chan id).closed = false ∧ h.has v = true ∧ (h.chan id).hasRoom = true ∧
      r = some ((h.chan id).sent + 1) ∧ h' = h.modifyChan id (·.accept v)) ∨
    ((h.chan id).hasRoom = false ∧ r = none ∧ h' = h) := by
  simp only [offer] at ho
  split at ho
  · cases ho
  · rename_i hopen
    split at ho
    · cases ho
    · rename_i hhas
      split at ho
      · rename_i hroom
        cases ho
        exact .inl ⟨by simpa using hopen, by simpa using hhas, hroom, rfl, rfl⟩
      · rename_i hroom
        cases ho
        exact .inr ⟨by simpa using hroom, rfl, rfl⟩

/-- A value is accepted by an open channel with room, and its ticket is the new count. -/
theorem offer_eq_some (hc : h.chans.get? id = some c) {v : Value} {ticket : Nat}
    (ho : h.offer id v = .ok (some ticket, h')) :
    c.closed = false ∧ c.hasRoom = true ∧ ticket = c.sent + 1 ∧
      h'.chans.get? id = some (c.accept v) := by
  obtain ⟨hopen, -, hroom, ht, rfl⟩ | ⟨-, hr, -⟩ := offer_cases ho
  · rw [chan_eq hc] at hopen hroom ht
    exact ⟨hopen, hroom, Option.some.inj ht, get?_modifyChan hc _⟩
  · cases hr

theorem offer_eq_none {v : Value} (ho : h.offer id v = .ok (none, h')) : h' = h := by
  obtain ⟨-, -, -, ht, -⟩ | ⟨-, -, hh⟩ := offer_cases ho
  · cases ht
  · exact hh

theorem trySend_eq_true (hc : h.chans.get? id = some c) {v w : Value} {h₁ : Heap}
    (hv : h.chanValue id v = .ok (w, h₁)) (hs : h.trySend id v = .ok (true, h')) :
    c.closed = false ∧ c.isReady = true ∧ h'.chans.get? id = some (c.accept w) := by
  have hc₁ : h₁.chans.get? id = some c := by rw [chanValue_chans hv]; exact hc
  obtain ⟨⟨w', h₂⟩, h1, hs⟩ := Outcome.bind_eq_ok.mp hs
  cases h1.symm.trans hv
  simp only [chan_eq hc₁] at hs
  split at hs
  · cases hs
  · split at hs
    · rename_i hopen hready
      cases hs
      exact ⟨by simpa using hopen, hready, get?_modifyChan hc₁ _⟩
    · cases hs

theorem trySend_eq_false {v : Value} (hs : h.trySend id v = .ok (false, h')) :
    h'.chans = h.chans := by
  obtain ⟨⟨w, h₁⟩, h1, hs⟩ := Outcome.bind_eq_ok.mp hs
  simp only at hs
  split at hs
  · cases hs
  · split at hs
    · cases hs
    · cases hs; exact chanValue_chans h1

/-- The answer of a receive with nothing to hand out: the zero value of the element type. -/
def zeroElement (h : Heap) (type : Option HostType) : Outcome (Value × Heap) :=
  match type with
  | none => .ok (.nil, h)
  | some type => h.zero type

theorem convertTo_nil (h : Heap) (type : Option HostType) :
    h.convertTo .nil type = h.zeroElement type := by
  cases type with
  | none => rfl
  | some type =>
    show h.convert .nil type = h.zero type
    cases type with
    | any => rfl
    | _ =>
      rw [convert]
      · rfl
      · intro hany
        cases hany

/-- What a receive finds: the oldest value, or nothing, or that nothing more comes. -/
theorem tryRecv_eq (hc : h.chans.get? id = some c) :
    h.tryRecv id = match c.buffer with
      | v :: _ => .ok (some (v, true), h.modifyChan id fun c =>
          { c with buffer := c.buffer.tail, received := c.received + 1 })
      | [] =>
        if c.closed then (h.zeroElement c.elemType).map fun (z, h) => (some (z, false), h)
        else .ok (none, h) := by
  simp only [tryRecv, chan_eq hc, Channel.handOut?]
  cases hb : c.buffer with
  | cons v rest => rfl
  | nil =>
    simp only [convertTo_nil]
    split
    · cases h.zeroElement c.elemType <;> rfl
    · rfl

theorem tryRecv_eq_true (hc : h.chans.get? id = some c) {v : Value}
    (hr : h.tryRecv id = .ok (some (v, true), h')) :
    c.buffer = v :: c.buffer.tail ∧ h'.chans.get? id = some
      { c with buffer := c.buffer.tail, received := c.received + 1 } := by
  rw [tryRecv_eq hc] at hr
  cases hb : c.buffer with
  | cons w rest =>
    rw [hb] at hr
    cases hr
    refine ⟨rfl, ?_⟩
    rw [← hb]
    exact get?_modifyChan hc _
  | nil =>
    simp only [hb] at hr
    split at hr
    · obtain ⟨⟨z, h₁⟩, -, he⟩ := Outcome.map_eq_ok.mp hr
      cases he
    · cases hr

theorem grows_zeroElement {type : Option HostType} {z : Value}
    (hz : h.zeroElement type = .ok (z, h')) : h.Grows h' := by
  cases type with
  | none => cases hz; exact .refl h
  | some type => exact grows_zero hz

theorem tryRecv_eq_false (hc : h.chans.get? id = some c) {v : Value}
    (hr : h.tryRecv id = .ok (some (v, false), h')) :
    c.buffer = [] ∧ c.closed = true ∧ h.zeroElement c.elemType = .ok (v, h') ∧
      h'.chans = h.chans := by
  rw [tryRecv_eq hc] at hr
  cases hb : c.buffer with
  | cons w rest =>
    rw [hb] at hr
    cases hr
  | nil =>
    simp only [hb] at hr
    split at hr
    · rename_i hclosed
      obtain ⟨⟨z, h₁⟩, hz, he⟩ := Outcome.map_eq_ok.mp hr
      cases he
      exact ⟨rfl, hclosed, hz, (grows_zeroElement hz).chans⟩
    · cases hr

theorem tryRecv_eq_none (hr : h.tryRecv id = .ok (none, h')) : h' = h := by
  simp only [tryRecv] at hr
  split at hr
  · cases hr
  · split at hr
    · obtain ⟨⟨z, h₁⟩, -, he⟩ := Outcome.bind_eq_ok.mp hr
      cases he
    · cases hr; rfl

/-- Receiving makes a zero value at most, and a fault never comes of that. -/
theorem tryRecv_ne_fault (f : Fault) : h.tryRecv id ≠ .error (.fault f) := by
  intro hr
  simp only [tryRecv] at hr
  split at hr
  · cases hr
  · split at hr
    · rw [convertTo_nil] at hr
      obtain hz | ⟨z, -, he⟩ := Outcome.bind_eq_error.mp hr
      · unfold zeroElement zero at hz
        split at hz
        · cases hz
        · split at hz <;> cases hz
      · cases he
    · cases hr

theorem closeChan_eq_ok (hc : h.chans.get? id = some c) (hcl : h.closeChan id = .ok h') :
    c.closed = false ∧ h'.chans.get? id = some { c with closed := true } := by
  simp only [closeChan, chan_eq hc] at hcl
  split at hcl
  · cases hcl
  · rename_i hopen
    cases hcl
    exact ⟨by simpa using hopen, get?_modifyChan hc _⟩

end Heap

namespace ChannelRun
variable {id : ChanId}

/-! ## What a move does to the channel -/

/-- The number of registrations among the operations under way. -/
def guards (ops : List Stage) : Nat := ops.countP (·.isGuarded)

theorem guards_append (before after : List Stage) :
    guards (before ++ after) = guards before + guards after :=
  List.countP_append

theorem guards_cons (op : Stage) (ops : List Stage) :
    guards (op :: ops) = guards ops + (if op.isGuarded then 1 else 0) :=
  List.countP_cons

theorem guards_afterAccept (c : Channel) (ticket : Nat) : guards (afterAccept c ticket) = 0 := by
  unfold afterAccept
  split <;> rfl

/-- What a move can do to a channel and to the number of registrations. -/
inductive Effect : Channel → Nat → Event → Channel → Nat → Prop where
  | accept {c : Channel} {n : Nat} {v : Value} (hopen : c.closed = false)
      (hroom : 0 < c.capacity → c.buffer.length < c.capacity) :
      Effect c n (.accepted v) (c.accept v) n
  | handOut {c : Channel} {n : Nat} {v : Value} (hv : c.buffer = v :: c.buffer.tail) :
      Effect c n (.answered v true)
        { c with buffer := c.buffer.tail, received := c.received + 1 } n
  | exhaust {c : Channel} {n : Nat} {v : Value} (hv : c.buffer = []) (hclosed : c.closed = true)
      (hz : ∃ h h' : Heap, h.zeroElement c.elemType = .ok (v, h')) :
      Effect c n (.answered v false) c n
  | close {c : Channel} {n : Nat} (hopen : c.closed = false) :
      Effect c n .closed { c with closed := true } n
  | register {c : Channel} {n : Nat} : Effect c n .silent c.register (n + 1)
  | withdraw {c : Channel} {n : Nat} : Effect c (n + 1) .silent c.withdraw n
  | stay {c : Channel} {n : Nat} : Effect c n .silent c n

theorem room_of_hasRoom {c : Channel} (hr : c.hasRoom = true) :
    0 < c.capacity → c.buffer.length < c.capacity := by
  intro hpos
  simp only [Channel.hasRoom, Bool.or_eq_true, decide_eq_true_eq] at hr
  omega

theorem room_of_isReady {c : Channel} (hr : c.isReady = true) :
    0 < c.capacity → c.buffer.length < c.capacity := by
  intro hpos
  unfold Channel.isReady at hr
  split at hr
  · omega
  · simpa using hr

theorem Effect.answer {c : Channel} {n : Nat} {h h' : Heap} {v : Value} {ok : Bool}
    (hc : h.chans.get? id = some c) (hr : h.tryRecv id = .ok (some (v, ok), h')) :
    ∃ c', h'.chans.get? id = some c' ∧ Effect c n (.answered v ok) c' n := by
  cases ok with
  | true =>
    obtain ⟨hb, hc'⟩ := Heap.tryRecv_eq_true hc hr
    exact ⟨_, hc', .handOut hb⟩
  | false =>
    obtain ⟨hb, hclosed, hz, hchans⟩ := Heap.tryRecv_eq_false hc hr
    exact ⟨c, by rw [hchans]; exact hc, .exhaust hb hclosed ⟨h, h', hz⟩⟩

/-- **Inversion of moves**: the channel is still there, and one of the seven effects has come
over it. -/
theorem Move.effect {s s' : Config} {e : Event} {c : Channel} (hm : Move id s e s')
    (hc : s.heap.chans.get? id = some c) :
    ∃ c', s'.heap.chans.get? id = some c' ∧ Effect c (guards s.ops) e c' (guards s'.ops) := by
  cases hm with
  | prepare _ _ hv =>
    simp only [guards_append, guards_cons]
    exact ⟨c, by rw [Heap.chanValue_chans hv]; exact hc, .stay⟩
  | accept _ _ ho =>
    obtain ⟨hopen, hroom, -, hc'⟩ := Heap.offer_eq_some hc ho
    simp only [guards_append, guards_cons, guards_afterAccept]
    exact ⟨_, hc', .accept hopen (room_of_hasRoom hroom)⟩
  | noRoom _ _ ho =>
    rw [Heap.offer_eq_none ho]
    exact ⟨c, hc, .stay⟩
  | refuse _ _ _ | deliver _ _ _ =>
    simp only [guards_append, guards_cons]
    exact ⟨c, hc, .stay⟩
  | abandon _ _ hop =>
    simp only [guards_append, guards_cons, hop]
    exact ⟨c, hc, .stay⟩
  | trySend hv hs =>
    obtain ⟨hopen, hready, hc'⟩ := Heap.trySend_eq_true hc hv hs
    exact ⟨_, hc', .accept hopen (room_of_isReady hready)⟩
  | skip hs =>
    exact ⟨c, by rw [Heap.trySend_eq_false hs]; exact hc, .stay⟩
  | tryRecv hr => exact Effect.answer hc hr
  | arrive _ _ hr =>
    rw [Heap.tryRecv_eq_none hr]
    simp only [guards_append, guards_cons]
    exact ⟨c, hc, .stay⟩
  | enlist _ _ =>
    simp only [guards_append, guards_cons, Stage.isGuarded, if_true, ← Nat.add_assoc]
    exact ⟨_, Heap.get?_modifyChan hc _, .register⟩
  | take _ _ hr =>
    simp only [guards_append, guards_cons]
    exact Effect.answer hc hr
  | nothing _ _ hr =>
    rw [Heap.tryRecv_eq_none hr]
    exact ⟨c, hc, .stay⟩
  | giveUp _ _ =>
    simp only [guards_append, guards_cons]
    exact ⟨c, hc, .stay⟩
  | register _ _ =>
    simp only [guards_append, guards_cons, Stage.isGuarded, if_true, ← Nat.add_assoc]
    exact ⟨_, Heap.get?_modifyChan hc _, .register⟩
  | withdraw _ _ =>
    simp only [guards_append, guards_cons, Stage.isGuarded, if_true, ← Nat.add_assoc]
    exact ⟨_, Heap.get?_modifyChan hc _, .withdraw⟩
  | close hcl =>
    obtain ⟨hopen, hc'⟩ := Heap.closeChan_eq_ok hc hcl
    exact ⟨_, hc', .close hopen⟩
  | elsewhere he => exact ⟨c, he.trans hc, .stay⟩

/-! ## The books of a channel -/

@[simp] theorem accepted_append (es es' : List Event) :
    accepted (es ++ es') = accepted es ++ accepted es' :=
  List.filterMap_append

@[simp] theorem handedOut_append (es es' : List Event) :
    handedOut (es ++ es') = handedOut es ++ handedOut es' :=
  List.filterMap_append

theorem exhausted_append (es : List Event) (e : Event) :
    Exhausted (es ++ [e]) ↔ Exhausted es ∨ ∃ v, e = .answered v false := by
  simp only [Exhausted, List.mem_append, List.mem_singleton]
  constructor
  · rintro ⟨v, h | h⟩
    · exact .inl ⟨v, h⟩
    · exact .inr ⟨v, h.symm⟩
  · rintro (⟨v, h⟩ | ⟨v, h⟩)
    · exact ⟨v, .inl h⟩
    · exact ⟨v, .inr h.symm⟩

/-- **The books**: how a channel of this capacity and element type, made empty, agrees with its
history and with the number of registrations. -/
structure Books (capacity : Nat) (elemType : Option HostType) (es : List Event) (c : Channel)
    (registrations : Nat) : Prop where
  capacity_eq : c.capacity = capacity
  elemType_eq : c.elemType = elemType
  order : handedOut es ++ c.buffer = accepted es
  sent_eq : c.sent = (accepted es).length
  received_eq : c.received = (handedOut es).length
  bounded : 0 < capacity → c.buffer.length ≤ capacity
  waiting_eq : c.waiting = registrations
  closed_of_mem : .closed ∈ es → c.closed = true
  drained : Exhausted es → c.closed = true ∧ c.buffer = []
  hasZero : Exhausted es → ∃ h r, Heap.zeroElement h elemType = .ok r

variable {capacity : Nat} {elemType : Option HostType}

theorem Books.new : Books capacity elemType [] { capacity, elemType } 0 where
  capacity_eq := rfl
  elemType_eq := rfl
  order := rfl
  sent_eq := rfl
  received_eq := rfl
  bounded _ := Nat.zero_le _
  waiting_eq := rfl
  closed_of_mem h := by cases h
  drained := fun ⟨_, h⟩ => by cases h
  hasZero := fun ⟨_, h⟩ => by cases h

/-- A move that can only be seen by its registrations keeps the books. -/
theorem Books.silent {es : List Event} {c : Channel} {n m k : Nat}
    (hb : Books capacity elemType es c n) (hm : m = k) :
    Books capacity elemType (es ++ [.silent]) { c with waiting := m } k where
  capacity_eq := hb.capacity_eq
  elemType_eq := hb.elemType_eq
  order := by simpa [accepted, handedOut] using hb.order
  sent_eq := by simpa [accepted] using hb.sent_eq
  received_eq := by simpa [handedOut] using hb.received_eq
  bounded := hb.bounded
  waiting_eq := hm
  closed_of_mem h := hb.closed_of_mem (by simpa using h)
  drained h := hb.drained (by simpa [exhausted_append] using h)
  hasZero h := hb.hasZero (by simpa [exhausted_append] using h)

/-- **Every effect keeps the books.** -/
theorem Books.effect {es : List Event} {e : Event} {c c' : Channel} {n n' : Nat}
    (hb : Books capacity elemType es c n) (he : Effect c n e c' n') :
    Books capacity elemType (es ++ [e]) c' n' := by
  cases he with
  | accept hopen hroom =>
    -- Nothing more comes only after the close, and then nothing is accepted.
    have hn : ¬ Exhausted es := fun h => by
      rw [(hb.drained h).1] at hopen; cases hopen
    exact {
      capacity_eq := hb.capacity_eq
      elemType_eq := hb.elemType_eq
      order := by
        have ho := hb.order
        simp [accepted, handedOut, Channel.accept] at ho ⊢
        rw [← List.append_assoc, ho]
      sent_eq := by
        have hs := hb.sent_eq
        simp [accepted, Channel.accept] at hs ⊢
        exact hs
      received_eq := by simpa [handedOut, Channel.accept] using hb.received_eq
      bounded := by
        intro hpos
        have hlt := hroom (hb.capacity_eq.symm ▸ hpos)
        rw [hb.capacity_eq] at hlt
        simp only [Channel.accept, List.length_append, List.length_singleton]
        exact hlt
      waiting_eq := hb.waiting_eq
      closed_of_mem := fun h => hb.closed_of_mem (by simpa using h)
      drained := fun h => absurd (by simpa [exhausted_append] using h) hn
      hasZero := fun h => absurd (by simpa [exhausted_append] using h) hn }
  | handOut hv =>
    -- Nothing more comes only when nothing is left, so this was not the case yet.
    have hn : ¬ Exhausted es := fun h => by
      rw [(hb.drained h).2] at hv; cases hv
    exact {
      capacity_eq := hb.capacity_eq
      elemType_eq := hb.elemType_eq
      order := by
        have ho := hb.order
        rw [hv] at ho
        simp [accepted, handedOut] at ho ⊢
        exact ho
      sent_eq := by simpa [accepted] using hb.sent_eq
      received_eq := by
        have hr := hb.received_eq
        simp [handedOut] at hr ⊢
        exact hr
      bounded := by
        intro hpos
        have hle := hb.bounded hpos
        simp only [List.length_tail]
        omega
      waiting_eq := hb.waiting_eq
      closed_of_mem := fun h => hb.closed_of_mem (by simpa using h)
      drained := fun h => absurd (by simpa [exhausted_append] using h) hn
      hasZero := fun h => absurd (by simpa [exhausted_append] using h) hn }
  | exhaust hbuf hclosed hz =>
    exact { hb with
      order := by simpa [accepted, handedOut] using hb.order
      sent_eq := by simpa [accepted] using hb.sent_eq
      received_eq := by simpa [handedOut] using hb.received_eq
      closed_of_mem := fun _ => hclosed
      drained := fun _ => ⟨hclosed, hbuf⟩
      hasZero := fun _ => by
        obtain ⟨h, h', hz⟩ := hz
        rw [hb.elemType_eq] at hz
        exact ⟨h, _, hz⟩ }
  | close hopen =>
    have hn : ¬ Exhausted es := fun h => by
      rw [(hb.drained h).1] at hopen; cases hopen
    exact { hb with
      order := by simpa [accepted, handedOut] using hb.order
      sent_eq := by simpa [accepted] using hb.sent_eq
      received_eq := by simpa [handedOut] using hb.received_eq
      closed_of_mem := fun _ => rfl
      drained := fun h => absurd (by simpa [exhausted_append] using h) hn
      hasZero := fun h => absurd (by simpa [exhausted_append] using h) hn }
  | register => exact hb.silent (by rw [hb.waiting_eq])
  | withdraw => exact hb.silent (by rw [hb.waiting_eq, Nat.add_sub_cancel])
  | stay => exact hb.silent hb.waiting_eq

/-- **Runs keep the books.** -/
theorem Run.books {h : Heap} {es : List Event} {s : Config}
    (hnew : h.chans.get? id = some { capacity, elemType }) (hr : Run id ⟨h, []⟩ es s) :
    ∃ c, s.heap.chans.get? id = some c ∧ Books capacity elemType es c (guards s.ops) := by
  induction hr with
  | nil => exact ⟨_, hnew, .new⟩
  | step _ hm ih =>
    obtain ⟨c, hc, hb⟩ := ih
    obtain ⟨c', hc', he⟩ := hm.effect hc
    exact ⟨c', hc', hb.effect he⟩

/-- A run can be cut after any of its events. -/
theorem Run.cut {start s : Config} {es es' : List Event} (hr : Run id start (es ++ es') s) :
    ∃ m, Run id start es m ∧ Run id m es' s := by
  generalize hall : es ++ es' = all at hr
  induction hr generalizing es' with
  | nil =>
    obtain ⟨rfl, rfl⟩ := List.append_eq_nil_iff.mp hall
    exact ⟨start, .nil, .nil⟩
  | step hr hm ih =>
    rcases List.eq_nil_or_concat es' with rfl | ⟨rest, e, rfl⟩
    · rw [List.append_nil] at hall
      exact ⟨_, hall ▸ .step hr hm, .nil⟩
    · rw [List.concat_eq_append, ← List.append_assoc] at hall
      obtain ⟨hinit, he⟩ := List.append_inj' hall rfl
      cases he
      obtain ⟨m, hm₁, hm₂⟩ := ih hinit
      exact ⟨m, hm₁, by rw [List.concat_eq_append]; exact .step hm₂ hm⟩

/-- A closed channel stays closed, accepts nothing, and, once it is empty, answers nothing but that
nothing more comes. -/
theorem Run.closed {s s' : Config} {es : List Event} {c : Channel} (hr : Run id s es s')
    (hc : s.heap.chans.get? id = some c) (hclosed : c.closed = true) :
    ∃ c', s'.heap.chans.get? id = some c' ∧ c'.closed = true ∧ c'.elemType = c.elemType ∧
      accepted es = [] ∧ (c.buffer = [] → c'.buffer = [] ∧ ∀ v ok, .answered v ok ∈ es →
        ok = false ∧ ∃ h h' : Heap, h.zeroElement c.elemType = .ok (v, h')) := by
  induction hr with
  | nil => exact ⟨c, hc, hclosed, rfl, rfl, fun hb => ⟨hb, fun _ _ h => by cases h⟩⟩
  | @step es e m m' _ hm ih =>
    obtain ⟨d, hd, hdclosed, htype, hacc, hempty⟩ := ih
    obtain ⟨c', hc', he⟩ := hm.effect hd
    generalize guards m.ops = n, guards m'.ops = n' at he
    cases he with
    | accept hopen => rw [hdclosed] at hopen; cases hopen
    | close hopen => rw [hdclosed] at hopen; cases hopen
    | handOut hv =>
      refine ⟨_, hc', hdclosed, htype, by rw [accepted_append, hacc]; rfl, fun hb => ?_⟩
      rw [(hempty hb).1] at hv
      cases hv
    | exhaust hv _ hz =>
      refine ⟨_, hc', hdclosed, htype, by rw [accepted_append, hacc]; rfl, fun hb => ⟨hv, ?_⟩⟩
      intro v ok hmem
      rcases List.mem_append.mp hmem with h | h
      · exact (hempty hb).2 v ok h
      · cases List.mem_singleton.mp h
        exact ⟨rfl, htype ▸ hz⟩
    | register | withdraw | stay =>
      refine ⟨_, hc', hdclosed, htype, by rw [accepted_append, hacc]; rfl,
        fun hb => ⟨(hempty hb).1, ?_⟩⟩
      intro v ok hmem
      rcases List.mem_append.mp hmem with h | h
      · exact (hempty hb).2 v ok h
      · cases List.mem_singleton.mp h

theorem zeroElement_of_zeroElement {h : Heap} {r : Value × Heap} (hz : h.zeroElement elemType = .ok r)
    (h' : Heap) : ∃ z h'', h'.zeroElement elemType = .ok (z, h'') := by
  cases elemType with
  | none => exact ⟨_, _, rfl⟩
  | some type =>
    simp only [Heap.zeroElement, Heap.zero] at hz ⊢
    split at hz
    · rename_i hhas
      exact ⟨_, _, if_pos hhas⟩
    · cases hz

/-! ## The laws of channels -/

/-- **Channels conserve values and their order**, under every interleaving of any number of
operations, from the moment the channel is made.  What was handed out followed by the buffer is
what was accepted; the counters agree with the buffer; a buffered channel keeps to its capacity;
the waiting receivers are the registrations that are not withdrawn; nothing is accepted after the
close; and after a first answer that nothing more comes, all answers are that, with the zero value
of the element type, and a receive is never without an answer. -/
theorem channel_conservation {capacity : Nat} {elemType : Option HostType} {h : Heap}
    {es : List Event} {s : Config} (hnew : h.chans.get? id = some { capacity, elemType })
    (hr : Run id ⟨h, []⟩ es s) :
    ∃ c, s.heap.chans.get? id = some c ∧
      handedOut es ++ c.buffer = accepted es ∧
      c.sent = c.received + c.buffer.length ∧
      (0 < capacity → c.buffer.length ≤ capacity) ∧
      c.waiting = guards s.ops ∧
      (∀ before after, es = before ++ .closed :: after → accepted after = []) ∧
      (∀ before z after, es = before ++ .answered z false :: after →
        (∀ v ok, .answered v ok ∈ after → ok = false ∧
          ∃ h h' : Heap, h.zeroElement elemType = .ok (v, h')) ∧
        ∃ v h', s.heap.zeroElement elemType = .ok (v, h') ∧
          s.heap.tryRecv id = .ok (some (v, false), h')) := by
  obtain ⟨c, hc, hb⟩ := Run.books hnew hr
  refine ⟨c, hc, hb.order, ?_, hb.bounded, hb.waiting_eq, ?_, ?_⟩
  · have hlen := congrArg List.length hb.order
    rw [List.length_append, ← hb.sent_eq, ← hb.received_eq] at hlen
    exact hlen.symm
  · rintro before after rfl
    rw [List.append_cons] at hr
    obtain ⟨m, hm, hrest⟩ := hr.cut
    obtain ⟨d, hd, hdb⟩ := Run.books hnew hm
    have hclosed : d.closed = true := hdb.closed_of_mem (by simp)
    -- The run is cut at the close; from there on the channel is closed.
    obtain ⟨_, _, _, _, hacc, _⟩ := hrest.closed hd hclosed
    exact hacc
  · rintro before z after rfl
    have hex : Exhausted (before ++ .answered z false :: after) := ⟨z, by simp⟩
    constructor
    · rw [List.append_cons] at hr
      obtain ⟨m, hm, hrest⟩ := hr.cut
      obtain ⟨d, hd, hdb⟩ := Run.books hnew hm
      obtain ⟨hclosed, hempty⟩ := hdb.drained ⟨z, by simp⟩
      obtain ⟨_, _, _, _, _, hans⟩ := hrest.closed hd hclosed
      rw [← hdb.elemType_eq]
      exact (hans hempty).2
    · obtain ⟨hclosed, hempty⟩ := hb.drained hex
      obtain ⟨h₀, r, hz⟩ := hb.hasZero hex
      obtain ⟨v, h', hv⟩ := zeroElement_of_zeroElement hz s.heap
      refine ⟨v, h', hv, ?_⟩
      rw [Heap.tryRecv_eq hc, hempty, hb.elemType_eq, hv]
      simp [hclosed, Except.map]

/-- A heap with one unbuffered channel of bytes. -/
def byteChannel : Heap :=
  { chans := ({} : Store Channel).push ⟨0, some (.int .int8), [], false, 0, 0, 0⟩ }

/-- A receiver waits when a sender comes; then the channel is closed, and a second receive is told
so. -/
def handover : List Event :=
  [.silent, .silent, .silent, .accepted (.int 44), .answered (.int 44) true, .silent, .silent,
    .closed, .answered (.int 0) false]

theorem run_handover : ∃ s, Run 0 ⟨byteChannel, []⟩ handover s := by
  have hnil : Run 0 ⟨byteChannel, []⟩ [] ⟨byteChannel, []⟩ := .nil
  have harrive := hnil.step (Move.arrive [] [] rfl)
  have henlist := harrive.step (Move.enlist [] [])
  have hprepare := henlist.step
    (Move.prepare [] [.receiving] (v := .int 300) (w := .int 44) rfl)
  have haccept := hprepare.step (Move.accept [] [.receiving] rfl)
  have htake := haccept.step
    (Move.take [.delivering 1] [] rfl)
  have hdeliver := htake.step (Move.deliver [] [.guard] rfl)
  have hwithdraw := hdeliver.step (Move.withdraw [] [])
  have hclose := hwithdraw.step (Move.close rfl)
  have hlast := hclose.step (Move.tryRecv rfl)
  exact ⟨_, hlast⟩

/-- The laws at work: after the handover all values are accounted for and nobody is registered. -/
theorem channel_conservation_handover :
    ∃ s c, Run 0 ⟨byteChannel, []⟩ handover s ∧ s.heap.chans.get? 0 = some c ∧
      handedOut handover ++ c.buffer = [.int 44] ∧ c.sent = c.received + c.buffer.length ∧
      c.waiting = guards s.ops := by
  obtain ⟨s, hr⟩ := run_handover
  obtain ⟨c, hc, horder, hsent, -, hwaiting, -, -⟩ :=
    channel_conservation rfl hr
  exact ⟨s, c, hr, hc, horder, hsent, hwaiting⟩

end ChannelRun
end ScriptEngine
