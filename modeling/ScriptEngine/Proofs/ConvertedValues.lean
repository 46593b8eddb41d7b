import ScriptEngine.Proofs.Heap.Converted
import ScriptEngine.Proofs.Task.Equations

/-! # The types that converted values say they have

What a value says its type is, is read off its object: the declarations of a list or a map, the name of a
struct.  For a value that conforms to such a type it reads like the type does (`typeName_of_conforms`), so
converted values say that they have the type they were converted to.  Channels are different.  They conform
to every channel type and are passed on as they are, so a channel that was declared for other elements
goes on saying so.
-/
namespace ScriptEngine

/-- The type is a type of slices, arrays, maps or structs. -/
def HostType.isBuilt : HostType → Bool
  | .slice _ | .array _ _ | .map _ _ | .struct _ _ => true
  | _ => false

namespace Heap
variable {h h' : Heap} {v w : Value} {type elem : HostType}

/-- **What conforms to a built type says that it has this type.** -/
theorem typeName_of_conforms (hv : Conforms h.shapes v type) (htype : type.isBuilt = true) :
    h.typeName v = type.text := by
  cases hv with
  | slice hs =>
    obtain ⟨-, helem, hfixed, -⟩ := list_of_shape hs
    simp only [typeName, listTypeName, helem, hfixed, HostType.text]
  | plainSlice hs =>
    obtain ⟨-, helem, -, -⟩ := list_of_shape hs
    simp only [typeName, listTypeName, helem]
    rfl
  | array hs =>
    obtain ⟨-, helem, hfixed, hsize⟩ := list_of_shape hs
    simp only [typeName, listTypeName, helem, hfixed, hsize rfl, HostType.text]
  | map hs =>
    obtain ⟨-, hkey, hvalue⟩ := map_of_shape hs
    simp only [typeName, mapTypeName, hkey, hvalue, HostType.text]
  | plainMap hs =>
    obtain ⟨-, hkey, -⟩ := map_of_shape hs
    simp only [typeName, mapTypeName, hkey]
    rfl
  | struct hs =>
    obtain ⟨cell, hcell, hname⟩ := handle_of_structShape hs
    simp only [typeName, hcell, Handle.typeName, hname, HostType.text]
  | _ => cases htype

/-- A channel reads like the type of channels of its elements; one without a type is for anything. -/
theorem chanTypeName_eq (c : Channel) : chanTypeName c = (HostType.chan (c.elemType.getD .any)).text := by
  unfold chanTypeName
  cases c.elemType <;> rfl

theorem convert_chan_eq_ok (hv : v ≠ .nil) (hc : h.convert v (.chan elem) = .ok (w, h')) :
    ∃ id, v = .chan id ∧ w = .chan id ∧ h' = h := by
  obtain ⟨rfl, -, rfl⟩ := convert_passedOn rfl hc
  have hconforms := (made_convert _ hc).conforms
  cases hconforms with
  | chan => exact ⟨_, rfl, rfl, rfl⟩
  | noChan => exact absurd rfl hv

/-- **Converted values say that they have the type they were converted to**, all but channels: a channel is
passed on whatever it was declared for, and so says it has the type only if it was declared for elements
that read the same. -/
theorem converted_type_name (hv : v ≠ .nil) (hc : h.convert v type = .ok (w, h')) :
    (type.isBuilt = true → h'.typeName w = type.text) ∧
    ∀ elem, type = .chan elem → ∃ id, v = .chan id ∧ w = .chan id ∧ h' = h ∧
      (h'.typeName w = type.text ↔ ((h.chan id).elemType.getD .any).text = elem.text) := by
  refine ⟨fun htype => typeName_of_conforms (made_convert type hc).conforms htype, ?_⟩
  rintro elem rfl
  obtain ⟨id, rfl, rfl, rfl⟩ := convert_chan_eq_ok hv hc
  refine ⟨id, rfl, rfl, rfl, ?_⟩
  simp only [typeName, chanTypeName_eq, HostType.text, String.append_right_inj]

/-- A list of a list of numbers, and a channel of numbers. -/
def numberTable : Heap where
  lists := (Store.push {} ⟨#[.list 1], none, false⟩).push ⟨#[.int 1, .int 2], none, false⟩
  chans := Store.push {} { capacity := 1, elemType := some (.int .int64) }

/-- The list becomes a slice of arrays and says so; the channel says so where numbers are asked for. -/
theorem converted_type_name_numberTable :
    (∃ h', numberTable.convert (.list 0) (.slice (.array (.int .uint8) 3)) = .ok (.list 3, h') ∧
      h'.typeName (.list 3) = "[][3]uint8") ∧
    numberTable.convert (.chan 0) (.chan (.int .int64)) = .ok (.chan 0, numberTable) ∧
    numberTable.typeName (.chan 0) = "chan int64" := by
  obtain ⟨h', hc⟩ : ∃ h', numberTable.convert (.list 0) (.slice (.array (.int .uint8) 3)) =
    .ok (.list 3, h') := ⟨_, rfl⟩
  have hchan : numberTable.convert (.chan 0) (.chan (.int .int64)) = .ok (.chan 0, numberTable) := rfl
  obtain ⟨hlist, -⟩ := converted_type_name (by decide) hc
  obtain ⟨-, hsame⟩ := converted_type_name (by decide) hchan
  obtain ⟨id, hid, -, -, hname⟩ := hsame _ rfl
  cases hid
  exact ⟨⟨h', hc, (hlist rfl).trans (by decide +kernel)⟩, hchan, hname.mpr rfl⟩

/-- A channel of numbers becomes a channel of texts as it is, and goes on saying that it is one of
numbers. -/
theorem channel_keeps_type_name :
    ¬ ∀ (h : Heap) (v w : Value) (type : HostType) (h' : Heap),
      (type.isBuilt = true ∨ ∃ elem, type = .chan elem) → v ≠ .nil → h.convert v type = .ok (w, h') →
      h'.typeName w = type.text := by
  intro hall
  have hname := hall numberTable (.chan 0) (.chan 0) (.chan .string) numberTable (.inr ⟨_, rfl⟩)
    (by decide) rfl
  exact absurd hname (by decide +kernel)

end Heap
end ScriptEngine

/-! ## Converting again

Conversion makes new containers and leaves those that are there alone, also if it fails.  What it gives
conforms to the type, and so converting that again gives the very same value and makes nothing more.  A
list that is not passed on becomes a new one of its converted items; an array is filled up with one zero
value of its element type.
-/
namespace ScriptEngine

namespace Heap
variable {h h' : Heap} {v w : Value} {type : HostType}

/-- The heap after an operation.  One that fails leaves it as it was. -/
def after {α : Type} (h : Heap) : Outcome (α × Heap) → Heap
  | .ok (_, h') => h'
  | .error _ => h

/-- A new list of the converted items of a list. -/
inductive Rebuilt (h h' : Heap) : Value → HostType → Value → Prop where
  | slice {id id' : ListId} {elem : HostType}
      (hitems : List.Forall₂ (h.ConvertsWithin h' elem) (h.list id).items.toList
        (h'.list id').items.toList) :
      Rebuilt h h' (.list id) (.slice elem) (.list id')
  | array {id id' : ListId} {elem : HostType} {len : Nat} {ws : List Value} {z : Value}
      (hitems : List.Forall₂ (h.ConvertsWithin h' elem) (h.list id).items.toList ws)
      (hlen : ws.length ≤ len) (hzero : h.ZeroWithin h' elem z)
      (hpadded : (h'.list id').items.toList = ws ++ List.replicate (len - ws.length) z) :
      Rebuilt h h' (.list id) (.array elem len) (.list id')

theorem rebuilt_convert {id : ListId} (hc : h.convert (.list id) type = .ok (w, h'))
    (hne : w ≠ .list id) : h.Rebuilt h' (.list id) type w := by
  cases type with
  | slice elem =>
    obtain ⟨rfl, -⟩ | ⟨items, h₁, hitems, rfl, rfl⟩ := convert_slice_cases hc
    · exact absurd rfl hne
    refine .slice ?_
    rw [list_addList]
    exact (convertItems_within hitems).imp fun _ _ hw => hw.mono (.refl h) (grows_addList h₁ _)
  | array elem len =>
    obtain ⟨rfl, -⟩ | ⟨items, h₁, z, h₂, hlen, hitems, hzero, rfl, rfl⟩ := convert_array_cases hc
    · exact absurd rfl hne
    have hnew := grows_addList h₂ ⟨items.toArray ++ Array.replicate (len - items.length) z, some elem, true⟩
    refine .array ?_ hlen ⟨h₁, h₂, grows_convertItems (grows_convert elem) hitems, hzero, hnew⟩ ?_
    · exact (convertItems_within hitems).imp fun _ _ hw =>
        hw.mono (.refl h) ((grows_zero hzero).trans hnew)
    · rw [list_addList]
      simp
  | any =>
    obtain ⟨rfl, -, -⟩ := convert_passedOn rfl hc
    exact absurd rfl hne
  | _ =>
    unfold convert at hc
    split at hc <;> cases hc

end Heap

/-- What an operation on the heap makes of the state. -/
theorem Eval.onHeap_apply {α : Type} (f : Heap → Outcome (α × Heap)) (s : EngineState) :
    Eval.onHeap f s =
      Eval.ofOutcome ((f s.heap).map Prod.fst) { s with heap := s.heap.after (f s.heap) } := by
  cases hf : f s.heap with
  | ok r => exact Eval.onHeap_ok hf
  | error e => exact Eval.onHeap_error hf

namespace Heap

/-- **Conversion is idempotent and leaves alone what is there.**  Whether it succeeds or fails, the heap
has only got new lists, maps and handles.  A converted value is given back, as the same object, by
converting it again, and a list that is not passed on becomes a list of its converted items, with a zero
value for every item that an array has more. -/
theorem conversion_idempotent (h : Heap) (v : Value) (type : HostType) :
    h.Grows (h.after (h.convert v type)) ∧
    (∀ s : EngineState, s.heap = h → Eval.onHeap (·.convert v type) s =
      Eval.ofOutcome ((h.convert v type).map Prod.fst)
        { s with heap := h.after (h.convert v type) }) ∧
    ∀ w h', h.convert v type = .ok (w, h') →
      h'.convert w type = .ok (w, h') ∧
      ∀ id, v = .list id → w ≠ v → h.Rebuilt h' v type w := by
  refine ⟨?_, ?_, fun w h' hc => ⟨convert_convert hc, ?_⟩⟩
  · cases hc : h.convert v type with
    | ok r => exact grows_convert type hc
    | error e => exact .refl h
  · rintro s rfl
    exact Eval.onHeap_apply _ s
  · rintro id rfl hne
    exact rebuilt_convert hc hne

/-- A list of two numbers, the first of which is too large for a byte. -/
def twoNumbers : Heap where
  lists := Store.push {} ⟨#[.int 300, .int 1], none, false⟩

/-- As an array of three bytes the list is a new one, of cut numbers and a zero; converted again, that is
given back, and the first list is as it was. -/
theorem conversion_idempotent_twoNumbers :
    ∃ h', twoNumbers.convert (.list 0) (.array (.int .uint8) 3) = .ok (.list 1, h') ∧
      (h'.list 1).items = #[.int 44, .int 1, .int 0] ∧
      h'.convert (.list 1) (.array (.int .uint8) 3) = .ok (.list 1, h') ∧
      twoNumbers.Rebuilt h' (.list 0) (.array (.int .uint8) 3) (.list 1) ∧
      h'.lists.get? 0 = twoNumbers.lists.get? 0 := by
  obtain ⟨h', hc⟩ :
      ∃ h', twoNumbers.convert (.list 0) (.array (.int .uint8) 3) = .ok (.list 1, h') := ⟨_, rfl⟩
  obtain ⟨hgrows, -, hagain⟩ := conversion_idempotent twoNumbers (.list 0) (.array (.int .uint8) 3)
  obtain ⟨hsame, hrebuilt⟩ := hagain _ _ hc
  rw [hc] at hgrows
  refine ⟨h', hc, ?_, hsame, hrebuilt 0 rfl (by decide), hgrows.lists.get?_eq 0 (by decide)⟩
  cases hc
  rfl

end Heap
end ScriptEngine
