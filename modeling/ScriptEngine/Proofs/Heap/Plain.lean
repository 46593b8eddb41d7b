import ScriptEngine.Evaluator.Call
import ScriptEngine.Proofs.Heap.Growth

/-! # Faults of the heap

Only a script or a host function throws a value.  An operation on the heap that fails does so with a
fault that tells what was wrong and carries no value: its outcome is **plain** (`Outcome.Plain`).  What
is put together from plain outcomes is plain, so most operations are by looking at their parts.
-/
namespace ScriptEngine

/-- **The outcome is not a value that was thrown.** -/
class Outcome.Plain {α : Type} (o : Outcome α) : Prop where
  ne_thrown : ∀ v, o ≠ .error (.fault (.thrown v))

namespace Outcome
variable {α β : Type}

instance (a : α) : Plain (.ok a : Outcome α) := ⟨nofun⟩
instance (a : α) : Plain (Pure.pure a : Outcome α) := ⟨nofun⟩
instance : Plain (.error .overflow : Outcome α) := ⟨nofun⟩
instance (name : String) : Plain (.error (.fault (.undefinedSymbol name)) : Outcome α) := ⟨nofun⟩
instance (index : Int) (len : Nat) :
    Plain (.error (.fault (.indexOutOfRange index len)) : Outcome α) := ⟨nofun⟩
instance (found : String) : Plain (.error (.fault (.indexNotNumber found)) : Outcome α) := ⟨nofun⟩
instance (start stop : Int) :
    Plain (.error (.fault (.invalidSliceIndex start stop)) : Outcome α) := ⟨nofun⟩
instance (message : String) : Plain (invalid message : Outcome α) := ⟨nofun⟩
instance (h : Heap) (type : HostType) (v : Value) : Plain (mismatch h type v : Outcome α) := ⟨nofun⟩
instance (name expected : String) (received : Nat) :
    Plain (Heap.wrongCount name expected received : Outcome α) := ⟨nofun⟩

theorem plain_bind {o : Outcome α} {f : α → Outcome β} (ho : Plain o) (hf : ∀ a, Plain (f a)) :
    Plain (o >>= f) := by
  cases o with
  | ok a => exact hf a
  | error e => exact ⟨fun v he => ho.ne_thrown v (by cases he; rfl)⟩

instance {o : Outcome α} {f : α → Outcome β} [ho : Plain o] [hf : ∀ a, Plain (f a)] :
    Plain (o >>= f) := plain_bind ho hf

instance {o : Outcome α} {f : α → β} [ho : Plain o] : Plain (o.map f) := by
  cases o with
  | ok a => exact ⟨nofun⟩
  | error e => exact ⟨fun v he => ho.ne_thrown v (by cases he; rfl)⟩

instance (c : Prop) [Decidable c] {o o' : Outcome α} [ho : Plain o] [ho' : Plain o'] :
    Plain (if c then o else o') := by
  split
  · exact ho
  · exact ho'

instance {o : Outcome α} {h : Heap} {type : HostType} {v : Value} : Plain (o.orMismatch h type v) := by
  unfold orMismatch
  split <;> infer_instance

end Outcome

namespace Heap
open Outcome
variable {h : Heap} {α : Type}

/-! ## Reading -/

instance (symbol : String) (v : Value) : Plain (h.undefinedOn symbol v : Outcome α) := ⟨nofun⟩
instance (target index : Value) : Plain (h.badIndex target index : Outcome α) := ⟨nofun⟩
instance (function : String) (v : Value) : Plain (h.wrongArgument function v : Outcome α) := ⟨nofun⟩

instance (v : Value) : Plain (h.keyOf v) := by unfold keyOf; split <;> infer_instance

instance (v : Value) : Plain (h.indexNumber v) := by unfold indexNumber; split <;> infer_instance

instance (index : Int) (len : Nat) : Plain (position index len) := by
  unfold position; infer_instance

instance (id : HandleId) (name : String) : Plain (h.field id name) := by
  unfold field
  split
  · split <;> infer_instance
  · infer_instance

instance (name : String) : Plain (checkIdentifier name) := by unfold checkIdentifier; infer_instance

instance (id : ScopeId) (name : String) : Plain (h.get id name) := by
  unfold get; split <;> infer_instance

instance (v : Value) : Plain (h.spreadItems v) := by unfold spreadItems; split <;> infer_instance

instance (name : String) (fixed : Nat) (variadic : Bool) (args : List Value) :
    Plain (bindDiscrete name fixed variadic args) := by
  unfold bindDiscrete; infer_instance

instance (name : String) (fixed : Nat) (variadic : Bool) (args : List Value) (spread : Bool) :
    Plain (h.bindArguments name fixed variadic args spread) := by
  unfold bindArguments
  split
  · split <;> infer_instance
  · infer_instance

instance (v : Value) : Plain (h.length v) := by unfold length; split <;> infer_instance

instance (v : Value) : Plain (h.keys v) := by unfold keys; split <;> infer_instance

instance (args : List Value) : Plain (h.makeSize args) := by
  unfold makeSize
  split
  · infer_instance
  · split
    · unfold makeSize.tooSmall; infer_instance
    · split
      · infer_instance
      · unfold makeSize.tooSmall; infer_instance
    · unfold makeSize.tooSmall; infer_instance

instance (scope : ScopeId) (type : TypeExpr) : Plain (h.resolveType scope type) := by
  induction type with
  | named name => unfold resolveType; split <;> infer_instance
  | slice elem ih | array elem len ih | chan elem ih => unfold resolveType; infer_instance
  | map key value ihk ihv => unfold resolveType; infer_instance

/-! ## Zero values and conversion -/

instance (type : HostType) : Plain (h.zero type) := by unfold zero; infer_instance

instance (fields : List (String × HostType)) : Plain (h.zeroFields fields) := by
  unfold zeroFields; infer_instance

instance (items : List Value) (len : Nat) (v : Value) : Plain (padded items len v) := by
  unfold padded; infer_instance

theorem plain_convertItems {f : Heap → Value → Outcome (Value × Heap)}
    (hf : ∀ h v, Plain (f h v)) (vs : List Value) : Plain (convertItems f h vs) := by
  induction vs generalizing h with
  | nil => unfold convertItems; infer_instance
  | cons v rest ih =>
    unfold convertItems
    have := fun h => @ih h
    infer_instance

theorem plain_fillFields {f : Heap → List Value → String → Value → Outcome (List Value × Heap)}
    (hf : ∀ h vs n v, Plain (f h vs n v)) {failure : Outcome (List Value × Heap)}
    (hfail : Plain failure) (es : List (MapKey × Value)) (vs : List Value) :
    Plain (fillFields f failure h vs es) := by
  induction es generalizing h vs with
  | nil => unfold fillFields; infer_instance
  | cons e rest ih =>
    obtain ⟨key, v⟩ := e
    have := fun h vs => @ih h vs
    cases key <;> unfold fillFields <;> infer_instance

theorem plain_convertEntries {f g : Heap → Value → Outcome (Value × Heap)}
    (hf : ∀ h v, Plain (f h v)) (hg : ∀ h v, Plain (g h v)) (es stored : List (MapKey × Value)) :
    Plain (convertEntries f g h stored es) := by
  induction es generalizing h stored with
  | nil => unfold convertEntries; infer_instance
  | cons e rest ih =>
    have := fun h stored => @ih h stored
    unfold convertEntries
    infer_instance

theorem plain_setField (fields : List (String × HostType))
    (hfields : ∀ f ∈ fields, ∀ (h : Heap) (v : Value), Plain (h.convert v f.2)) (h : Heap)
    (name : String) (i : Nat) (field : String) (v : Value) (vs : List Value) :
    Plain (h.setField name fields i field v vs) := by
  induction fields generalizing i with
  | nil => unfold setField; infer_instance
  | cons first rest ih =>
    have := hfields first List.mem_cons_self
    have := ih fun f hf => hfields f (List.mem_cons_of_mem _ hf)
    unfold setField
    infer_instance

theorem plain_convert (type : HostType) (h : Heap) (v : Value) : Plain (h.convert v type) := by
  induction type using HostType.induct generalizing h v with
  | parts type ih =>
    have hconversion := conversion h v type
    generalize h.convert v type = o at hconversion
    cases hconversion with
    | slice id elem =>
      have := plain_convertItems (ih elem (by simp [HostType.parts])) (h := h)
      infer_instance
    | @array id elem len _ =>
      have := plain_convertItems (ih elem (by simp [HostType.parts])) (h := h)
      infer_instance
    | map id key value =>
      have := plain_convertEntries (ih key (by simp [HostType.parts]))
        (ih value (by simp [HostType.parts])) (h := h)
      infer_instance
    | struct id name fields =>
      have hset := plain_setField fields fun f hf => ih f.2 (HostType.mem_parts hf)
      refine plain_bind inferInstance fun values => plain_bind ?_ inferInstance
      exact plain_fillFields (fun h vs n v => hset h name 0 n v vs) inferInstance _ _
    | _ => infer_instance

instance (v : Value) (type : HostType) : Plain (h.convert v type) := plain_convert type h v

instance (v : Value) (type : Option HostType) : Plain (h.convertTo v type) := by
  unfold convertTo; split <;> infer_instance

instance (items : List Value) (type : HostType) :
    Plain (convertItems (fun h v => h.convert v type) h items) :=
  plain_convertItems (plain_convert type) items

/-! ## Containers -/

instance (id : MapId) (v : Value) : Plain (h.mapKey id v) := by unfold mapKey; infer_instance

instance (id : MapId) (key : Value) : Plain (h.stored? id key) := by unfold stored?; infer_instance

instance (id : MapId) (key : Value) : Plain (h.hasEntry id key) := by
  unfold hasEntry; infer_instance

instance (id : ListId) (index : Int) (v : Value) : Plain (h.prepareItem id index v) := by
  unfold prepareItem; infer_instance

instance (id : MapId) (key v : Value) : Plain (h.prepareEntry id key v) := by
  unfold prepareEntry; infer_instance

instance (id : HandleId) (name : String) (v : Value) : Plain (h.prepareField id name v) := by
  unfold prepareField
  split
  · split <;> infer_instance
  · infer_instance

instance (target index v : Value) : Plain (h.prepareIndex target index v) := by
  unfold prepareIndex
  split
  · infer_instance
  · infer_instance
  · split <;> infer_instance
  · infer_instance

instance (target : Value) (name : String) (v : Value) : Plain (h.prepareMember target name v) := by
  unfold prepareMember; split <;> infer_instance

instance (id : MapId) (key v : Value) : Plain (h.storeEntry id key v) := by
  unfold storeEntry; infer_instance

instance (id : HandleId) (name : String) (v : Value) : Plain (h.storeField id name v) := by
  unfold storeField; infer_instance

instance (id : ListId) (v : Value) : Plain (h.pushItem id v) := by unfold pushItem; infer_instance

instance (id : ListId) (vs : List Value) : Plain (h.pushAll id vs) := by
  induction vs generalizing h with
  | nil => unfold pushAll; infer_instance
  | cons v rest ih => unfold pushAll; infer_instance

instance (target : Value) (items : List Value) : Plain (h.append target items) := by
  unfold append; split <;> infer_instance

instance (id : MapId) (key : Value) : Plain (h.removeEntry id key) := by
  unfold removeEntry; infer_instance

instance (target key : Value) : Plain (h.delete target key) := by
  unfold delete; split <;> infer_instance

instance (target key : Value) : Plain (h.index target key) := by
  unfold Heap.index
  split
  · infer_instance
  · infer_instance
  · infer_instance
  · split <;> infer_instance
  · infer_instance

instance (target : Value) (name : String) : Plain (h.member target name) := by
  unfold member; split <;> infer_instance

instance (bound : Option Value) (default len : Nat) : Plain (h.sliceBound bound default len) := by
  unfold sliceBound; split <;> infer_instance

instance (target : Value) (start stop : Option Value) : Plain (h.slice target start stop) := by
  unfold slice sliceBounds; split <;> infer_instance

instance (item container : Value) : Plain (h.contains item container) := by
  unfold contains
  split
  · infer_instance
  · split
    · infer_instance
    · rename_i o _ _
      infer_instance
  · infer_instance
  · infer_instance
  · infer_instance

instance (elem : HostType) (items : Array Value) : Plain (h.addSlice elem items) := by
  unfold addSlice; split <;> infer_instance

instance (type : HostType) (args : List Value) : Plain (h.make type args) := by
  unfold make; split <;> infer_instance

/-! ## Names -/

instance (id : ScopeId) (name : String) (v : Value) : Plain (h.define id name v) := by
  unfold define; infer_instance

instance (id : ScopeId) (name : String) (v : Value) : Plain (h.assign id name v) := by
  unfold assign; split <;> infer_instance

instance (id : ScopeId) (name : String) (package : ScopeId) :
    Plain (h.definePackage id name package) := by
  unfold definePackage; infer_instance

/-! ## Operators -/

instance (symbol : String) (v : Value) : Plain (h.numeric symbol v) := by
  unfold numeric; infer_instance

instance (symbol : String) (v : Value) : Plain (h.integer symbol v) := by
  unfold integer; infer_instance

instance (symbol : String) (ints : Int64 → Int64 → Int64) (floats : Binary64 → Binary64 → Binary64)
    (left right : Value) : Plain (h.arithmetic symbol ints floats left right) := by
  refine plain_bind inferInstance fun a => plain_bind inferInstance fun b => ?_
  cases a <;> cases b <;> infer_instance

instance (left : Bool) (value count : Int64) : Plain (shift left value count) := by
  unfold shift; infer_instance

instance (text : String) (count : Int64) : Plain (repeatLength text count) := by
  unfold repeatLength; infer_instance

instance (symbol : String) (left right : Value) : Plain (h.compare symbol left right) := by
  unfold compare
  split
  · infer_instance
  · refine plain_bind inferInstance fun a => plain_bind inferInstance fun b => ?_
    cases a <;> cases b <;> infer_instance

instance (left right : Value) : Plain (h.add left right) := by
  unfold add; split <;> infer_instance

instance (op : BinaryOp) (left right : Value) : Plain (h.scalarOp op left right) := by
  cases op with
  | mul =>
    unfold scalarOp
    dsimp only
    split <;> infer_instance
  | _ =>
    unfold scalarOp
    infer_instance

instance (op : BinaryOp) (left right : Value) : Plain (h.binary op left right) := by
  unfold binary; split <;> infer_instance

instance (op : UnaryOp) (v : Value) : Plain (h.unary op v) := by
  cases op with
  | neg =>
    refine plain_bind inferInstance fun n => ?_
    cases n <;> infer_instance
  | not | bitNot =>
    unfold unary
    infer_instance

instance (op : UpdateOp) (v : Value) : Plain (h.update op v) := by
  unfold update; split <;> infer_instance

/-! ## Host functions -/

instance (vs : List Value) (types : List HostType) : Plain (h.convertArgs vs types) := by
  induction vs generalizing h types with
  | nil => unfold convertArgs; infer_instance
  | cons v rest ih =>
    cases types <;> unfold convertArgs <;> infer_instance

instance (f : HostFunction) (fixed : List Value) (rest : Option (List Value)) :
    Plain (h.hostArguments f fixed rest) := by
  cases rest <;> unfold hostArguments <;> infer_instance

instance (f : HostFunction) (results : List Value) : Plain (h.hostResult f results) := by
  have hpack (results : List Value × Heap) : Plain (match results with
      | (results, h) => match results with
        | [] => pure (.nil, h)
        | [v] => pure (v, h)
        | vs => pure (h.addPlainList vs.toArray) : Outcome (Value × Heap)) := by
    split
    split <;> infer_instance
  unfold hostResult
  dsimp only
  infer_instance

mutual

theorem plain_build : ∀ (b : Blueprint) (h : Heap), Plain (h.build b)
  | .nil, h | .bool _, h | .int _, h | .float _, h | .str _, h | .func _, h | .chan _ _, h
  | .token _, h => by unfold build; infer_instance
  | .list items _ _, h => by
    have := plain_buildAll items
    unfold build
    infer_instance
  | .map entries _ _, h => by
    have := plain_buildEntries entries
    unfold build
    infer_instance
  | .struct _ fields, h => by
    have := plain_buildFields fields
    unfold build
    refine plain_bind inferInstance fun zero => ?_
    split <;> infer_instance

theorem plain_buildAll : ∀ (bs : List Blueprint) (h : Heap), Plain (h.buildAll bs)
  | [], h => by unfold buildAll; infer_instance
  | b :: rest, h => by
    have := plain_build b
    have := plain_buildAll rest
    unfold buildAll
    infer_instance

theorem plain_buildEntries : ∀ (entries : List (Blueprint × Blueprint)) (h : Heap) (id : MapId),
    Plain (h.buildEntries id entries)
  | [], h, id => by unfold buildEntries; infer_instance
  | (key, value) :: rest, h, id => by
    have := plain_build key
    have := plain_build value
    have := plain_buildEntries rest
    unfold buildEntries
    infer_instance

theorem plain_buildFields : ∀ (fields : List (String × Blueprint)) (h : Heap) (id : HandleId),
    Plain (h.buildFields id fields)
  | [], h, id => by unfold buildFields; infer_instance
  | (name, value) :: rest, h, id => by
    have := plain_build value
    have := plain_buildFields rest
    unfold buildFields
    infer_instance

end

instance (b : Blueprint) : Plain (h.build b) := plain_build b h

instance (bs : List Blueprint) : Plain (h.buildAll bs) := plain_buildAll bs h

/-! ## Channels -/

instance : Plain (closedSend : Outcome α) := ⟨nofun⟩

instance (id : ChanId) (v : Value) : Plain (h.chanValue id v) := by
  unfold chanValue; infer_instance

instance (id : ChanId) (v : Value) : Plain (h.offer id v) := by
  unfold offer; infer_instance

instance (id : ChanId) (v : Value) : Plain (h.trySend id v) := by
  unfold trySend; infer_instance

instance (id : ChanId) : Plain (h.tryRecv id) := by
  unfold tryRecv
  dsimp only
  split <;> infer_instance

instance (id : ChanId) : Plain (h.closeChan id) := by
  unfold closeChan; infer_instance

end Heap

instance (args : List Int) : Outcome.Plain (RangeBounds.ofArguments args) := by
  unfold RangeBounds.ofArguments; split <;> infer_instance

end ScriptEngine
