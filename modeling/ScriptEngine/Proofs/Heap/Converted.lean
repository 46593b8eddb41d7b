import ScriptEngine.Proofs.HalfWidth
import ScriptEngine.Proofs.Heap.Conversion

/-! # What conversion makes of its results

A value that conforms to a type and is in the heap is what conversion to that type gives back
(`convert_of_conforms`): a number in the range of its type is cut to itself, and a container with the shape
that the type asks for is passed on.  Where the type asks for half the width, a float has to be one that
half the width holds.  What conversion gives is all of this, so converting it again gives it back
(`convert_convert`).  A list that is not passed on is made of its converted items (`convert_slice_cases`,
`convert_array_cases`), each converted in a heap that has only grown since (`ConvertsWithin`).
-/
namespace ScriptEngine

/-- The lowest bits of a number that is not negative and needs no others. -/
theorem IntKind.ofNat_signExtend {width : Nat} {n : Int64} (hwidth : width ≤ 32) (hlow : 0 ≤ n.toInt)
    (hhigh : n.toInt < 2 ^ width) : Int64.ofNat (n.toBitVec.signExtend width).toNat = n := by
  have hnat : n.toInt = n.toBitVec.toNat := by
    have hcases := n.toBitVec.toInt_eq_toNat_cond
    rw [Int64.toInt_toBitVec] at hcases
    have hbits := n.toBitVec.isLt
    split at hcases <;> omega
  have hlt : n.toBitVec.toNat < 2 ^ width := by
    rw [hnat] at hhigh
    exact_mod_cast hhigh
  have hmost : 2 ^ width ≤ 2 ^ 32 := Nat.pow_le_pow_right (by decide) hwidth
  refine Int64.toInt_inj.mp ?_
  rw [BitVec.signExtend_eq_setWidth_of_le _ (by omega), BitVec.toNat_setWidth, Nat.mod_eq_of_lt hlt,
    Int64.toInt_ofNat_of_lt (by omega), hnat]

/-- A number in the range of a kind is cut to itself. -/
theorem IntKind.wrap_of_holds {k : IntKind} {n : Int64} (hn : k.Holds n) : k.wrap n = n := by
  cases k with
  | int64 | uint64 => rfl
  | int8 =>
    refine Int64.toInt_inj.mp ((Int8.toInt_toInt64 _).trans ((Int64.toInt_toInt8 n).trans ?_))
    obtain ⟨hlow, hhigh⟩ := hn
    exact Int.bmod_eq_of_le (by omega) (by omega)
  | int16 =>
    refine Int64.toInt_inj.mp ((Int16.toInt_toInt64 _).trans ((Int64.toInt_toInt16 n).trans ?_))
    obtain ⟨hlow, hhigh⟩ := hn
    exact Int.bmod_eq_of_le (by omega) (by omega)
  | int32 =>
    refine Int64.toInt_inj.mp ((Int32.toInt_toInt64 _).trans ((Int64.toInt_toInt32 n).trans ?_))
    obtain ⟨hlow, hhigh⟩ := hn
    exact Int.bmod_eq_of_le (by omega) (by omega)
  | uint8 =>
    show Int64.ofNat n.toInt8.toBitVec.toNat = n
    rw [Int64.toBitVec_toInt8]
    exact ofNat_signExtend (by decide) hn.1 hn.2
  | uint16 =>
    show Int64.ofNat n.toInt16.toBitVec.toNat = n
    rw [Int64.toBitVec_toInt16]
    exact ofNat_signExtend (by decide) hn.1 hn.2
  | uint32 =>
    show Int64.ofNat n.toInt32.toBitVec.toNat = n
    rw [Int64.toBitVec_toInt32]
    exact ofNat_signExtend (by decide) hn.1 hn.2

/-- Values are passed on as values of the type, and nothing is made for them. -/
def HostType.passesOn : HostType → Bool
  | .any | .chan _ | .func => true
  | _ => false

namespace Heap
variable {h h' : Heap} {v w : Value} {type elem : HostType} {len : Nat} {id : Nat}

/-! ## Shapes of what is in the heap -/

theorem list_of_shape {elemType : Option HostType} {fixed : Bool} {size : Nat}
    (hs : h.shapes.lists id = some ⟨elemType, fixed, size⟩) :
    h.has (.list id) = true ∧ (h.list id).elemType = elemType ∧ (h.list id).fixed = fixed ∧
      (fixed = true → (h.list id).items.size = size) := by
  obtain ⟨c, hc, hshape⟩ := Option.map_eq_some_iff.mp hs
  cases hshape
  rw [has, list, hc]
  exact ⟨rfl, rfl, rfl, fun hfixed => (if_pos hfixed).symm⟩

theorem map_of_shape {keyType valueType : Option HostType}
    (hs : h.shapes.maps id = some ⟨keyType, valueType⟩) :
    h.has (.map id) = true ∧ (h.map id).keyType = keyType ∧ (h.map id).valueType = valueType := by
  obtain ⟨c, hc, hshape⟩ := Option.map_eq_some_iff.mp hs
  cases hshape
  rw [has, map, hc]
  exact ⟨rfl, rfl, rfl⟩

theorem handle_of_shape {x : HandleShape} (hs : h.shapes.handles id = some x) :
    h.has (.handle id) = true ∧ (h.handle id).shape = x := by
  obtain ⟨c, hc, rfl⟩ := Option.map_eq_some_iff.mp hs
  rw [has, handle, hc]
  exact ⟨rfl, rfl⟩

theorem handle_of_structShape {name : String} {fields : List (String × HostType)}
    (hs : h.shapes.handles id = some (.struct name fields)) :
    ∃ cell, h.handle id = .struct cell ∧ cell.name = name := by
  obtain ⟨-, hshape⟩ := handle_of_shape hs
  cases hcell : h.handle id with
  | struct cell =>
    rw [hcell] at hshape
    cases hshape
    exact ⟨cell, rfl, rfl⟩
  | token name =>
    rw [hcell] at hshape
    cases hshape

theorem handle_of_tokenShape {name : String} (hs : h.shapes.handles id = some (.token name)) :
    h.handle id = .token name := by
  obtain ⟨-, hshape⟩ := handle_of_shape hs
  cases hcell : h.handle id with
  | struct cell =>
    rw [hcell] at hshape
    cases hshape
  | token name =>
    rw [hcell] at hshape
    cases hshape
    rfl

/-! ## What conforms is not converted -/

/-- **What conforms to a type is given back by conversion to it.** -/
theorem convert_of_conforms (hhas : h.has v = true) (hv : Conforms h.shapes v type)
    (hsingle : ∀ x, v = .float x → type = .float .float32 → x.toSingle = x) :
    h.convert v type = .ok (v, h) := by
  cases hv with
  | any => simp [convert, hhas]
  | bool => rfl
  | int hn => simp [convert, hhas, IntKind.wrap_of_holds hn]
  | @float x k =>
    cases k with
    | float32 => simp [convert, hhas, hsingle x rfl rfl]
    | float64 => rfl
  | string => rfl
  | slice hs =>
    obtain ⟨-, helem, hfixed, -⟩ := list_of_shape hs
    simp [convert, hhas, hfixed, helem]
  | plainSlice hs =>
    obtain ⟨-, helem, hfixed, -⟩ := list_of_shape hs
    simp [convert, hhas, hfixed, helem, ListCell.isGrowable]
  | array hs =>
    obtain ⟨-, helem, hfixed, hsize⟩ := list_of_shape hs
    simp [convert, hhas, hfixed, helem, hsize rfl]
  | map hs =>
    obtain ⟨-, hkey, hvalue⟩ := map_of_shape hs
    simp [convert, hhas, hkey, hvalue]
  | plainMap hs =>
    obtain ⟨-, hkey, -⟩ := map_of_shape hs
    simp [convert, hhas, hkey]
  | chan | func => simp [convert, hhas]
  | noChan | noFunc | noHandle => rfl
  | struct hs =>
    obtain ⟨cell, hcell, hname⟩ := handle_of_structShape hs
    simp [convert, hhas, hcell, hname]
  | handle hs => simp [convert, hhas, handle_of_tokenShape hs, Handle.typeName]
  | structHandle hs =>
    obtain ⟨cell, hcell, hname⟩ := handle_of_structShape hs
    simp [convert, hhas, hcell, hname, Handle.typeName]

/-- What conforms to a type whose values are made is in the heap. -/
theorem has_of_conforms (hv : Conforms h.shapes v type) (htype : type.passesOn = false) :
    h.has v = true := by
  cases hv with
  | any | chan | noChan | func | noFunc => cases htype
  | slice hs | plainSlice hs | array hs => exact (list_of_shape hs).1
  | map hs | plainMap hs => exact (map_of_shape hs).1
  | struct hs | handle hs | structHandle hs => exact (handle_of_shape hs).1
  | _ => rfl

theorem convert_passedOn (htype : type.passesOn = true) (hc : h.convert v type = .ok (w, h')) :
    w = v ∧ h.has v = true ∧ h' = h := by
  unfold convert at hc
  split at hc
  · cases hc
  rename_i hhas
  rw [Bool.not_eq_true, Bool.not_eq_false'] at hhas
  cases type with
  | any =>
    cases hc
    exact ⟨rfl, hhas, rfl⟩
  | chan elem | func =>
    cases v with
    | nil =>
      cases hc
      exact ⟨rfl, hhas, rfl⟩
    | chan id | func id =>
      cases hc <;> exact ⟨rfl, hhas, rfl⟩
    | _ => cases hc
  | _ => cases htype

/-- What was converted is in the heap. -/
theorem has_convert (hc : h.convert v type = .ok (w, h')) : h'.has w = true := by
  cases htype : type.passesOn with
  | true =>
    obtain ⟨rfl, hhas, rfl⟩ := convert_passedOn htype hc
    exact hhas
  | false => exact has_of_conforms (made_convert type hc).conforms htype

/-- A float that was converted to half the width is one that half the width holds. -/
theorem toSingle_of_convert {x : Binary64} (hc : h.convert v (.float .float32) = .ok (.float x, h')) :
    x.toSingle = x := by
  unfold convert at hc
  split at hc
  · cases hc
  cases v with
  | nil =>
    cases hc
    exact Binary64.toSingle_of_holdsSingle .zero
  | int n =>
    cases hc
    exact Binary64.toSingle_singleOfInt64 n
  | float y =>
    cases hc
    exact Binary64.toSingle_toSingle y
  | _ => cases hc

/-- **Converting again gives the same.** -/
theorem convert_convert (hc : h.convert v type = .ok (w, h')) : h'.convert w type = .ok (w, h') := by
  refine convert_of_conforms (has_convert hc) (made_convert type hc).conforms ?_
  rintro x rfl rfl
  exact toSingle_of_convert hc

/-! ## What a converted list is made of -/

/-- `w` is what `v` was converted to in a heap that the first heap had grown to, and that has only grown
since. -/
def ConvertsWithin (h h' : Heap) (type : HostType) (v w : Value) : Prop :=
  ∃ h₁ h₂, h.Grows h₁ ∧ h₁.convert v type = .ok (w, h₂) ∧ h₂.Grows h'

/-- `w` is a zero value that was made in a heap that the first heap had grown to, and that has only grown
since. -/
def ZeroWithin (h h' : Heap) (type : HostType) (w : Value) : Prop :=
  ∃ h₁ h₂, h.Grows h₁ ∧ h₁.zero type = .ok (w, h₂) ∧ h₂.Grows h'

theorem ConvertsWithin.mono {g g' : Heap} (hw : h.ConvertsWithin h' type v w) (hg : g.Grows h)
    (hg' : h'.Grows g') : g.ConvertsWithin g' type v w :=
  let ⟨h₁, h₂, hbefore, hc, hafter⟩ := hw
  ⟨h₁, h₂, hg.trans hbefore, hc, hafter.trans hg'⟩

/-- Every item is converted for itself. -/
theorem convertItems_within : ∀ {vs ws : List Value} {h h' : Heap},
    convertItems (fun h v => h.convert v elem) h vs = .ok (ws, h') →
    List.Forall₂ (h.ConvertsWithin h' elem) vs ws
  | [], ws, h, h', hc => by
    cases hc
    exact .nil
  | v :: rest, ws, h, h', hc => by
    obtain ⟨⟨w, h₁⟩, h1, hc⟩ := Outcome.bind_eq_ok.mp hc
    obtain ⟨⟨ws', h₂⟩, h2, hc⟩ := Outcome.bind_eq_ok.mp hc
    cases hc
    have hfirst : h.Grows h₁ := grows_convert elem h1
    have hrest : h₁.Grows h' := grows_convertItems (grows_convert elem) h2
    refine .cons ⟨h, h₁, .refl h, h1, hrest⟩ ?_
    exact (convertItems_within h2).imp fun _ _ hw => hw.mono hfirst (.refl h')

theorem convert_slice_cases (hc : h.convert (.list id) (.slice elem) = .ok (w, h')) :
    (w = .list id ∧ h' = h) ∨ ∃ items h₁,
      convertItems (fun h v => h.convert v elem) h (h.list id).items.toList = .ok (items, h₁) ∧
        w = .list h₁.lists.next ∧ h' = (h₁.addList ⟨items.toArray, some elem, false⟩).2 := by
  unfold convert at hc
  split at hc
  · cases hc
  simp only at hc
  split at hc
  · cases hc
    exact .inl ⟨rfl, rfl⟩
  split at hc
  · cases hc
    exact .inl ⟨rfl, rfl⟩
  obtain ⟨⟨items, h₁⟩, h1, hc⟩ := Outcome.bind_eq_ok.mp hc
  cases hc
  exact .inr ⟨items, h₁, Outcome.orMismatch_eq_ok h1, rfl, rfl⟩

theorem convert_array_cases (hc : h.convert (.list id) (.array elem len) = .ok (w, h')) :
    (w = .list id ∧ h' = h) ∨ ∃ items h₁ z h₂, items.length ≤ len ∧
      convertItems (fun h v => h.convert v elem) h (h.list id).items.toList = .ok (items, h₁) ∧
        h₁.zero elem = .ok (z, h₂) ∧ w = .list h₂.lists.next ∧ h' = (h₂.addList
          ⟨items.toArray ++ Array.replicate (len - items.length) z, some elem, true⟩).2 := by
  unfold convert at hc
  split at hc
  · cases hc
  simp only at hc
  split at hc
  · cases hc
    exact .inl ⟨rfl, rfl⟩
  split at hc
  · cases hc
  rename_i hlong
  obtain ⟨⟨items, h₁⟩, h1, hc⟩ := Outcome.bind_eq_ok.mp hc
  obtain ⟨⟨z, h₂⟩, h2, hc⟩ := Outcome.bind_eq_ok.mp hc
  obtain ⟨padding, hpad, hc⟩ := Outcome.bind_eq_ok.mp hc
  have hitems := Outcome.orMismatch_eq_ok h1
  have hlen : items.length ≤ len := by
    rw [length_convertItems hitems, Array.length_toList]
    omega
  rw [padded_eq_ok hpad] at hc
  cases hc
  exact .inr ⟨items, h₁, z, h₂, hlen, hitems, h2, rfl, rfl⟩

theorem list_addList (h : Heap) (c : ListCell) : (h.addList c).2.list h.lists.next = c := by
  show ((h.lists.push c).get? h.lists.next).getD _ = c
  rw [Store.get?_push_next, Option.getD_some]

end Heap
end ScriptEngine
