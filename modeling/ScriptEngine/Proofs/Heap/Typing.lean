import Mathlib.Algebra.Ring.Int.Defs
import Mathlib.Algebra.Ring.Nat
import Mathlib.Data.List.Forall2
import ScriptEngine.Proofs.Heap.Growth

/-! # Well-typed heaps

A list may declare the type of its items, a map those of its keys and values, a channel that of its
elements, and a struct declares those of its fields.  A heap is **well typed** if everything that
such a container holds **conforms** to what it declares (`Conforms`, `WellTyped`).

Whether a value conforms to a type depends on the heap only through the **shapes** of its objects:
the declarations of a list or map, the length of a fixed list, the name of a handle.  Shapes never
change, so a value that conforms goes on conforming as long as its object is there.
-/
namespace ScriptEngine

/-- The range of a host integer, as the 64-bit integers that stand for it. -/
def IntKind.Holds (k : IntKind) (n : Int64) : Prop :=
  match k with
  | .int8 => -2 ^ 7 ≤ n.toInt ∧ n.toInt < 2 ^ 7
  | .int16 => -2 ^ 15 ≤ n.toInt ∧ n.toInt < 2 ^ 15
  | .int32 => -2 ^ 31 ≤ n.toInt ∧ n.toInt < 2 ^ 31
  | .uint8 => 0 ≤ n.toInt ∧ n.toInt < 2 ^ 8
  | .uint16 => 0 ≤ n.toInt ∧ n.toInt < 2 ^ 16
  | .uint32 => 0 ≤ n.toInt ∧ n.toInt < 2 ^ 32
  | .int64 | .uint64 => -2 ^ 63 ≤ n.toInt ∧ n.toInt < 2 ^ 63

theorem IntKind.holds_ofNat {n m : Nat} (hn : n < m) (hm : m ≤ 2 ^ 32) :
    0 ≤ (Int64.ofNat n).toInt ∧ (Int64.ofNat n).toInt < (m : Int) := by
  rw [Int64.toInt_ofNat_of_lt (by omega)]
  omega

/-- Cutting a number to a width puts it into the range. -/
theorem IntKind.holds_wrap (k : IntKind) (n : Int64) : k.Holds (k.wrap n) := by
  cases k with
  | int8 =>
    show _ ≤ n.toInt8.toInt64.toInt ∧ n.toInt8.toInt64.toInt < _
    rw [Int8.toInt_toInt64]
    exact ⟨Int8.le_toInt _, Int8.toInt_lt _⟩
  | int16 =>
    show _ ≤ n.toInt16.toInt64.toInt ∧ n.toInt16.toInt64.toInt < _
    rw [Int16.toInt_toInt64]
    exact ⟨Int16.le_toInt _, Int16.toInt_lt _⟩
  | int32 =>
    show _ ≤ n.toInt32.toInt64.toInt ∧ n.toInt32.toInt64.toInt < _
    rw [Int32.toInt_toInt64]
    exact ⟨Int32.le_toInt _, Int32.toInt_lt _⟩
  | int64 | uint64 => exact ⟨Int64.le_toInt _, Int64.toInt_lt _⟩
  | uint8 => exact holds_ofNat (UInt8.toNat_lt _) (by decide)
  | uint16 => exact holds_ofNat (UInt16.toNat_lt _) (by decide)
  | uint32 => exact holds_ofNat (UInt32.toNat_lt _) (by decide)

theorem IntKind.holds_zero (k : IntKind) : k.Holds 0 := by
  cases k with
  | uint8 | uint16 | uint32 | int8 | int16 | int32 | int64 | uint64 =>
    rw [Holds]
    decide

/-! ## Shapes -/

/-- What never changes about a list: its declaration, and its length if that is fixed. -/
structure ListShape where
  elemType : Option HostType
  fixed : Bool
  size : Nat
deriving DecidableEq

def ListCell.shape (c : ListCell) : ListShape :=
  ⟨c.elemType, c.fixed, if c.fixed then c.items.size else 0⟩

/-- What never changes about a map: the types of keys and values. -/
structure MapShape where
  keyType : Option HostType
  valueType : Option HostType
deriving DecidableEq

def MapCell.shape (c : MapCell) : MapShape := ⟨c.keyType, c.valueType⟩

/-- What never changes about a handle: all but the values of its fields. -/
inductive HandleShape where
  | struct (name : String) (fields : List (String × HostType))
  | token (typeName : String)
deriving DecidableEq

def Handle.shape : Handle → HandleShape
  | .struct c => .struct c.name c.fields
  | .token typeName => .token typeName

/-- What never changes about a channel: its capacity and the type of its elements. -/
structure ChanShape where
  capacity : Nat
  elemType : Option HostType
deriving DecidableEq

def Channel.shape (c : Channel) : ChanShape := ⟨c.capacity, c.elemType⟩

/-- The shapes of lists, maps and handles. -/
structure Shapes where
  lists : ListId → Option ListShape
  maps : MapId → Option MapShape
  handles : HandleId → Option HandleShape

/-- Every shape is still known. -/
structure Shapes.Le (σ τ : Shapes) : Prop where
  lists : ∀ id x, σ.lists id = some x → τ.lists id = some x
  maps : ∀ id x, σ.maps id = some x → τ.maps id = some x
  handles : ∀ id x, σ.handles id = some x → τ.handles id = some x

theorem Shapes.Le.refl (σ : Shapes) : σ.Le σ := ⟨fun _ _ h => h, fun _ _ h => h, fun _ _ h => h⟩

theorem Shapes.Le.trans {σ τ υ : Shapes} (h : σ.Le τ) (h' : τ.Le υ) : σ.Le υ where
  lists id x hx := h'.lists id x (h.lists id x hx)
  maps id x hx := h'.maps id x (h.maps id x hx)
  handles id x hx := h'.handles id x (h.handles id x hx)

def Heap.shapes (h : Heap) : Shapes where
  lists id := (h.lists.get? id).map ListCell.shape
  maps id := (h.maps.get? id).map MapCell.shape
  handles id := (h.handles.get? id).map Handle.shape

/-! ## Conformity -/

/-- **The value conforms to the type.**  Nil stands for a missing function, channel or handle. -/
inductive Conforms (σ : Shapes) : Value → HostType → Prop where
  | any {v : Value} : Conforms σ v .any
  | bool {b : Bool} : Conforms σ (.bool b) .bool
  | int {n : Int64} {k : IntKind} (hn : k.Holds n) : Conforms σ (.int n) (.int k)
  | float {x : Binary64} {k : FloatKind} : Conforms σ (.float x) (.float k)
  | string {s : String} : Conforms σ (.str s) .string
  | slice {id : ListId} {elem : HostType} {size : Nat}
      (hs : σ.lists id = some ⟨some elem, false, size⟩) : Conforms σ (.list id) (.slice elem)
  /-- A plain list will do where the items may be anything. -/
  | plainSlice {id : ListId} {size : Nat} (hs : σ.lists id = some ⟨none, false, size⟩) :
      Conforms σ (.list id) (.slice .any)
  | array {id : ListId} {elem : HostType} {len : Nat}
      (hs : σ.lists id = some ⟨some elem, true, len⟩) : Conforms σ (.list id) (.array elem len)
  | map {id : MapId} {key value : HostType} (hs : σ.maps id = some ⟨some key, some value⟩) :
      Conforms σ (.map id) (.map key value)
  /-- A map without a key type will do where keys and values may be anything. -/
  | plainMap {id : MapId} {valueType : Option HostType} (hs : σ.maps id = some ⟨none, valueType⟩) :
      Conforms σ (.map id) (.map .any .any)
  | chan {id : ChanId} {elem : HostType} : Conforms σ (.chan id) (.chan elem)
  | noChan {elem : HostType} : Conforms σ .nil (.chan elem)
  | func {id : FuncId} : Conforms σ (.func id) .func
  | noFunc : Conforms σ .nil .func
  | struct {id : HandleId} {name : String} {fields fields' : List (String × HostType)}
      (hs : σ.handles id = some (.struct name fields')) :
      Conforms σ (.handle id) (.struct name fields)
  | handle {id : HandleId} {name : String} (hs : σ.handles id = some (.token name)) :
      Conforms σ (.handle id) (.handle name)
  /-- A struct is a handle too. -/
  | structHandle {id : HandleId} {name : String} {fields : List (String × HostType)}
      (hs : σ.handles id = some (.struct name fields)) : Conforms σ (.handle id) (.handle name)
  | noHandle {name : String} : Conforms σ .nil (.handle name)

/-- What conforms goes on conforming as long as shapes are known. -/
theorem Conforms.mono {σ τ : Shapes} (hle : σ.Le τ) {v : Value} {type : HostType}
    (hc : Conforms σ v type) : Conforms τ v type := by
  cases hc with
  | any => exact .any
  | bool => exact .bool
  | int hn => exact .int hn
  | float => exact .float
  | string => exact .string
  | slice hs => exact .slice (hle.lists _ _ hs)
  | plainSlice hs => exact .plainSlice (hle.lists _ _ hs)
  | array hs => exact .array (hle.lists _ _ hs)
  | map hs => exact .map (hle.maps _ _ hs)
  | plainMap hs => exact .plainMap (hle.maps _ _ hs)
  | chan => exact .chan
  | noChan => exact .noChan
  | func => exact .func
  | noFunc => exact .noFunc
  | struct hs => exact .struct (hle.handles _ _ hs)
  | handle hs => exact .handle (hle.handles _ _ hs)
  | structHandle hs => exact .structHandle (hle.handles _ _ hs)
  | noHandle => exact .noHandle

/-! ## Containers that keep to their declarations -/

/-- The value conforms to a type that may be missing. -/
def ConformsTo (σ : Shapes) (v : Value) (type : Option HostType) : Prop :=
  ∀ t, type = some t → Conforms σ v t

theorem ConformsTo.mono {σ τ : Shapes} (hle : σ.Le τ) {v : Value} {type : Option HostType}
    (hc : ConformsTo σ v type) : ConformsTo τ v type :=
  fun t ht => (hc t ht).mono hle

theorem conformsTo_none (σ : Shapes) (v : Value) : ConformsTo σ v none := nofun

theorem Conforms.to {σ : Shapes} {v : Value} {type : HostType} (hc : Conforms σ v type) :
    ConformsTo σ v (some type) := by
  intro t ht
  cases ht
  exact hc

/-- The items of a list conform to what it declares. -/
def ListCell.Typed (σ : Shapes) (c : ListCell) : Prop :=
  ∀ v ∈ c.items.toList, ConformsTo σ v c.elemType

/-- The keys and values of a map conform to what it declares. -/
def MapCell.Typed (σ : Shapes) (c : MapCell) : Prop :=
  ∀ e ∈ c.entries, ConformsTo σ e.1.toValue c.keyType ∧ ConformsTo σ e.2 c.valueType

/-- The values of a struct conform to what its fields declare, one by one. -/
def Handle.Typed (σ : Shapes) : Handle → Prop
  | .struct c => List.Forall₂ (fun v field => Conforms σ v field.2) c.values c.fields
  | .token _ => True

/-- The values in the buffer of a channel conform to what it declares. -/
def Channel.Typed (σ : Shapes) (c : Channel) : Prop :=
  ∀ v ∈ c.buffer, ConformsTo σ v c.elemType

/-- All containers keep to their declarations, as far as these shapes tell. -/
structure Heap.TypedBy (σ : Shapes) (h : Heap) : Prop where
  lists : ∀ id c, h.lists.get? id = some c → c.Typed σ
  maps : ∀ id c, h.maps.get? id = some c → c.Typed σ
  handles : ∀ id c, h.handles.get? id = some c → c.Typed σ
  chans : ∀ id c, h.chans.get? id = some c → c.Typed σ

/-- **The heap is well typed.** -/
def Heap.WellTyped (h : Heap) : Prop := h.TypedBy h.shapes

section
variable {σ τ : Shapes} (hle : σ.Le τ)
include hle

theorem ListCell.Typed.mono {c : ListCell} (hc : c.Typed σ) : c.Typed τ :=
  fun v hv => (hc v hv).mono hle

theorem MapCell.Typed.mono {c : MapCell} (hc : c.Typed σ) : c.Typed τ :=
  fun e he => ⟨(hc e he).1.mono hle, (hc e he).2.mono hle⟩

theorem Handle.Typed.mono {o : Handle} (ho : o.Typed σ) : o.Typed τ := by
  cases o with
  | struct c => exact List.Forall₂.imp (fun _ _ hv => hv.mono hle) ho
  | token typeName => trivial

theorem Channel.Typed.mono {c : Channel} (hc : c.Typed σ) : c.Typed τ :=
  fun v hv => (hc v hv).mono hle

theorem Heap.TypedBy.mono {h : Heap} (ht : h.TypedBy σ) : h.TypedBy τ where
  lists id c hc := (ht.lists id c hc).mono hle
  maps id c hc := (ht.maps id c hc).mono hle
  handles id c hc := (ht.handles id c hc).mono hle
  chans id c hc := (ht.chans id c hc).mono hle

end

end ScriptEngine
