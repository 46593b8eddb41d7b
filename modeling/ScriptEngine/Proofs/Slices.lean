import ScriptEngine.Access
import ScriptEngine.Operator
import ScriptEngine.Proofs.Heap.Growth

/-! # Slices cut and rejoin

Lists and texts are sequences (`Heap.Sequence`): of their items, or of their characters, each of them a text
of its own.  A slice is cut out between two bounds, which lie anywhere from the start of the sequence to its
end, the end included, and an open bound is the start or the end itself (`boundAt`).  It is a sequence of its
own with the same type of elements, but never of a fixed length (`Heap.IsCut`), and what is written in it
later is not seen in the sequence that it was cut out of (`Heap.WritesTo.sequence`).

Two slices that meet are put together to the slice from the start of the first to the end of the second.
-/
namespace ScriptEngine

/-- The kinds of sequences: texts, and lists by the type of their elements, with a fixed length or without. -/
inductive SequenceKind where
  | text
  | list (elemType : Option HostType) (fixed : Bool)

/-- The kind of what is cut out of a sequence. -/
def SequenceKind.part : SequenceKind → SequenceKind
  | .text => .text
  | .list elemType _ => .list elemType false

@[simp] theorem SequenceKind.part_part (kind : SequenceKind) : kind.part.part = kind.part := by
  cases kind <;> rfl

/-- The characters of a text, each as a text. -/
def Text.characters (s : String) : List Value := s.toList.map fun c => .str (String.ofList [c])

/-- What a bound stands for: the number that is given, or the end where it is open. -/
def boundAt (default : Nat) : Option Int64 → Int
  | some i => i.toInt
  | none => default

namespace Heap
variable {h h' : Heap} {kind : SequenceKind} {x y : Value} {xs ys : List Value} {i j n : Nat}

/-- **The value is a sequence of this kind**, with these elements. -/
inductive Sequence (h : Heap) : SequenceKind → Value → List Value → Prop where
  | text (s : String) : Sequence h .text (.str s) (Text.characters s)
  | list {id : ListId} {items : Array Value} {elemType : Option HostType} {fixed : Bool}
      (hc : h.lists.get? id = some ⟨items, elemType, fixed⟩) :
      Sequence h (.list elemType fixed) (.list id) items.toList

/-- A sequence stays as it is while objects are added. -/
theorem Sequence.grows (hx : h.Sequence kind x xs) (hg : h.Grows h') : h'.Sequence kind x xs := by
  cases hx with
  | text s => exact .text s
  | list hc => exact .list (hg.lists.get?_some hc)

/-- The name of its type tells of a sequence no more than its kind and its length. -/
theorem Sequence.typeName_eq (hx : h.Sequence kind x xs) (hy : h.Sequence kind y xs) :
    h.typeName x = h.typeName y := by
  generalize hxs : xs = ys at hy
  cases hx with
  | text s =>
    cases hy
    rfl
  | @list id items elemType fixed hc =>
    cases hy with
    | @list id' items' _ _ hc' =>
      obtain rfl : items = items' := Array.toList_inj.mp hxs
      show listTypeName (h.list id) = listTypeName (h.list id')
      rw [list_eq hc, list_eq hc']

/-! ## Reading an element -/

/-- **A sequence is read at the positions from zero to its length**, and there it reads as its element. -/
theorem Sequence.index_eq (hx : h.Sequence kind x xs) (k : Int64) :
    h.index x (.int k) =
      if 0 ≤ k.toInt ∧ k.toInt < xs.length then .ok (xs.getD k.toInt.toNat .nil)
      else .error (.fault (.indexOutOfRange k.toInt xs.length)) := by
  cases hx with
  | text s =>
    show (position k.toInt s.toList.length >>= fun p =>
      pure (Value.str (String.ofList [s.toList.getD p ' ']))) = _
    rw [position, Text.characters, List.length_map]
    split
    · rename_i hrange
      have hlt : k.toInt.toNat < s.toList.length := by omega
      show Except.ok _ = Except.ok _
      generalize k.toInt.toNat = p at hlt
      simp [List.getD, hlt]
    · rfl
  | @list id items elemType fixed hc =>
    show (position k.toInt (h.list id).items.size >>= fun p =>
      pure ((h.list id).items.getD p .nil)) = _
    rw [list_eq hc, position, Array.length_toList]
    split
    · show Except.ok _ = Except.ok _
      simp [List.getD]
    · rfl

/-! ## Cutting -/

/-- A bound is where it says, if that is from the start of the sequence to its end. -/
theorem sliceBound_eq (h : Heap) (bound : Option Int64) {default : Nat} (hdefault : default ≤ n) :
    h.sliceBound (bound.map .int) default n =
      if 0 ≤ boundAt default bound ∧ boundAt default bound ≤ n then
        .ok (boundAt default bound).toNat
      else .error (.fault (.indexOutOfRange (boundAt default bound) n)) := by
  cases bound with
  | some i => rfl
  | none =>
    have hrange : (0 : Int) ≤ default ∧ (default : Int) ≤ n := by omega
    exact (if_pos hrange).symm

/-- The bounds are looked at one after the other. -/
theorem sliceBounds_eq (h : Heap) (start stop : Option Int64) (n : Nat) :
    h.sliceBounds (start.map .int) (stop.map .int) n =
      if ¬ (0 ≤ boundAt 0 start ∧ boundAt 0 start ≤ n) then
        .error (.fault (.indexOutOfRange (boundAt 0 start) n))
      else if ¬ (0 ≤ boundAt n stop ∧ boundAt n stop ≤ n) then
        .error (.fault (.indexOutOfRange (boundAt n stop) n))
      else if boundAt n stop < boundAt 0 start then
        .error (.fault (.invalidSliceIndex (boundAt 0 start) (boundAt n stop)))
      else .ok ((boundAt 0 start).toNat, (boundAt n stop).toNat) := by
  rw [sliceBounds, sliceBound_eq h start (Nat.zero_le n), sliceBound_eq h stop (Nat.le_refl n)]
  by_cases hstart : 0 ≤ boundAt 0 start ∧ boundAt 0 start ≤ n
  · by_cases hstop : 0 ≤ boundAt n stop ∧ boundAt n stop ≤ n
    · rw [if_pos hstart, if_pos hstop, if_neg (not_not_intro hstart), if_neg (not_not_intro hstop)]
      show (if (boundAt n stop).toNat < (boundAt 0 start).toNat then
        Except.error (Failure.fault (.invalidSliceIndex _ _)) else _) = _
      rw [Int.toNat_of_nonneg hstart.1, Int.toNat_of_nonneg hstop.1]
      have hless : (boundAt n stop).toNat < (boundAt 0 start).toNat ↔
          boundAt n stop < boundAt 0 start := by omega
      simp only [hless]
      rfl
    · rw [if_pos hstart, if_neg hstop, if_neg (not_not_intro hstart), if_pos hstop]
      rfl
  · rw [if_neg hstart, if_pos hstart]
    rfl

/-- What is between two positions of a sequence, as a sequence of its own. -/
def cutOut (h : Heap) (x : Value) (i j : Nat) : Value × Heap :=
  match x with
  | .list id => h.addList ⟨(h.list id).items.extract i j, (h.list id).elemType, false⟩
  | .str s => (.str (String.ofList ((s.toList.drop i).take (j - i))), h)
  | v => (v, h)

theorem Sequence.slice_eq (hx : h.Sequence kind x xs) (start stop : Option Value) :
    h.slice x start stop =
      (h.sliceBounds start stop xs.length).map fun bounds => h.cutOut x bounds.1 bounds.2 := by
  cases hx with
  | text s =>
    rw [Text.characters, List.length_map]
    show (h.sliceBounds start stop s.toList.length >>= _) = _
    cases h.sliceBounds start stop s.toList.length <;> rfl
  | @list id items elemType fixed hc =>
    have hsize : items.toList.length = (h.list id).items.size := by
      rw [list_eq hc, Array.length_toList]
    rw [hsize]
    show (h.sliceBounds start stop (h.list id).items.size >>= _) = _
    cases h.sliceBounds start stop (h.list id).items.size <;> rfl

theorem Sequence.part_cutOut (hx : h.Sequence kind x xs) (i j : Nat) :
    (h.cutOut x i j).2.Sequence kind.part (h.cutOut x i j).1 ((xs.drop i).take (j - i)) ∧
      h.Grows (h.cutOut x i j).2 ∧
      ∀ new, (h.cutOut x i j).1 = .list new → h.lists.get? new = none := by
  cases hx with
  | text s =>
    refine ⟨?_, .refl h, nofun⟩
    have hpart := Sequence.text (h := h) (String.ofList ((s.toList.drop i).take (j - i)))
    rwa [Text.characters, String.toList_ofList, List.map_take, List.map_drop] at hpart
  | @list id items elemType fixed hc =>
    refine ⟨?_, grows_addList _ _, ?_⟩
    · have hpart := Sequence.list (h := (h.addList ⟨items.extract i j, elemType, false⟩).2)
        (Store.get?_push_next _ _)
      rw [Array.toList_extract, List.extract_eq_take_drop] at hpart
      simp only [Heap.cutOut, list_eq hc]
      exact hpart
    · rintro new ⟨⟩
      exact Store.get?_eq_none (Nat.le_refl _)

/-! ## Writing -/

/-- **Values are written into one list**, one after the other, each over an item or behind the last one. -/
inductive WritesTo (id : ListId) : Heap → Heap → Prop where
  | none {h : Heap} : WritesTo id h h
  | store {h h₁ h₂ : Heap} {index : Int} {v : Value} (hbefore : WritesTo id h h₁)
      (hstore : h₁.storeItem id index v = .ok h₂) : WritesTo id h h₂
  | push {h h₁ h₂ : Heap} {v : Value} (hbefore : WritesTo id h h₁)
      (hpush : h₁.pushItem id v = .ok h₂) : WritesTo id h h₂

/-- Writing an item leaves every other list as it was. -/
theorem get?_of_storeItem {id other : ListId} {index : Int} {v : Value} {c : ListCell}
    (hstore : h.storeItem id index v = .ok h') (hother : other ≠ id)
    (hc : h.lists.get? other = some c) : h'.lists.get? other = some c := by
  obtain ⟨⟨x, h₁⟩, hprepare, hperform⟩ := Outcome.bind_eq_ok.mp hstore
  obtain ⟨⟨w, h₂⟩, hconvert, hx⟩ := Outcome.bind_eq_ok.mp hprepare
  have hgrown := (grows_convertTo hconvert).lists.get?_some hc
  simp only at hx
  split at hx
  · cases hx
    cases hperform
    exact (Store.get?_modify_of_ne hother).trans hgrown
  · cases hx

theorem get?_of_pushItem {id other : ListId} {v : Value} {c : ListCell}
    (hpush : h.pushItem id v = .ok h') (hother : other ≠ id)
    (hc : h.lists.get? other = some c) : h'.lists.get? other = some c := by
  unfold pushItem at hpush
  split at hpush
  · cases hpush
  · obtain ⟨⟨w, h₁⟩, hconvert, hmodify⟩ := Outcome.bind_eq_ok.mp hpush
    have hgrown := (grows_convertTo hconvert).lists.get?_some hc
    cases hmodify
    exact (Store.get?_modify_of_ne hother).trans hgrown

/-- **What is written into one list** is not seen in any other sequence. -/
theorem WritesTo.sequence {id : ListId} (hw : WritesTo id h h') (hother : x ≠ .list id)
    (hx : h.Sequence kind x xs) : h'.Sequence kind x xs := by
  cases hx with
  | text s => exact .text s
  | @list other items elemType fixed hc =>
    have hne : other ≠ id := fun heq => hother (congrArg _ heq)
    refine .list ?_
    induction hw with
    | none => exact hc
    | store _ hstore ih => exact get?_of_storeItem hstore hne ih
    | push _ hpush ih => exact get?_of_pushItem hpush hne ih

/-! ## Putting together -/

/-- A text is its own text. -/
theorem text_str (h : Heap) (s : String) : h.text (.str s) = s := by
  obtain ⟨levels, hlevels⟩ : ∃ n, h.textLevels = n + 1 :=
    Nat.exists_eq_add_one_of_ne_zero (Nat.ne_of_gt (Nat.add_pos_left (by decide) _))
  rw [text, hlevels]
  rfl

/-- **Sequences of one kind are put together** to one of this kind, which is not of a fixed length. -/
theorem Sequence.add (hx : h.Sequence kind x xs) (hy : h.Sequence kind y ys) :
    ∃ z h', h.binary .add x y = .ok (z, h') ∧ h'.Sequence kind.part z (xs ++ ys) ∧ h.Grows h' := by
  cases hx with
  | text s =>
    cases hy with
    | text t =>
      refine ⟨.str (s ++ t), h, ?_, ?_, .refl h⟩
      · show Except.ok (Value.str (h.text (.str s) ++ h.text (.str t)), h) = _
        rw [text_str, text_str]
      · have hjoined := Sequence.text (h := h) (s ++ t)
        rwa [Text.characters, String.toList_append, List.map_append] at hjoined
  | @list a items elemType fixed ha =>
    cases hy with
    | @list b items' _ _ hb =>
      refine ⟨_, _, rfl, ?_, grows_addList _ _⟩
      have hjoined := Sequence.list (h := (h.addList ⟨items ++ items', elemType, false⟩).2)
        (Store.get?_push_next _ _)
      simp only [list_eq ha, list_eq hb, if_true]
      rwa [Array.toList_append] at hjoined

/-- Two slices that meet. -/
theorem take_drop_append (xs : List Value) {i j k : Nat} (hij : i ≤ j) (hjk : j ≤ k) :
    (xs.drop i).take (j - i) ++ (xs.drop j).take (k - j) = (xs.drop i).take (k - i) := by
  have hsplit : k - i = (j - i) + (k - j) := by omega
  have hdrop : xs.drop j = (xs.drop i).drop (j - i) := by
    rw [List.drop_drop, Nat.add_sub_cancel' hij]
  rw [hsplit, List.take_add, hdrop]

/-! ## Slices -/

/-- **A slice of a sequence**, from one position to another.  It has the elements in between and is of the
same kind, with no fixed length; if it is a list, it is a new one; nothing that was there before has changed;
and whatever is written into it later, the sequence that it was cut out of stays as it is. -/
structure IsCut (h : Heap) (kind : SequenceKind) (x : Value) (xs : List Value) (i j : Nat) (y : Value)
    (h' : Heap) : Prop where
  sequence : ∃ ys, h'.Sequence kind.part y ys ∧ ys.length = j - i ∧ ∀ k < j - i, ys[k]? = xs[i + k]?
  read : ∀ k m : Int64, 0 ≤ k.toInt → i + k.toInt < j → m.toInt = i + k.toInt →
    ∃ v, h.index x (.int m) = .ok v ∧ h'.index y (.int k) = .ok v
  new : ∀ id, y = .list id → h.lists.get? id = none
  unchanged : h.Grows h'
  apart : ∀ id h'', y = .list id → WritesTo id h' h'' → h''.Sequence kind x xs

theorem Sequence.isCut_cutOut (hx : h.Sequence kind x xs) (hij : i ≤ j) (hj : j ≤ xs.length) :
    h.IsCut kind x xs i j (h.cutOut x i j).1 (h.cutOut x i j).2 := by
  obtain ⟨hpart, hgrows, hnew⟩ := hx.part_cutOut i j
  have hlength : ((xs.drop i).take (j - i)).length = j - i := by
    rw [List.length_take, List.length_drop]
    omega
  have hget {k : Nat} (hk : k < j - i) : ((xs.drop i).take (j - i))[k]? = xs[i + k]? := by
    rw [List.getElem?_take_of_lt hk, List.getElem?_drop]
  refine ⟨⟨_, hpart, hlength, fun k hk => hget hk⟩, fun k m hk hkj hm => ?_, hnew, hgrows,
    fun id h'' hid hw => ?_⟩
  · refine ⟨xs.getD m.toInt.toNat .nil, ?_, ?_⟩
    · rw [hx.index_eq, if_pos (by omega)]
    · rw [hpart.index_eq, if_pos (by omega), List.getD_eq_getElem?_getD, hget (by omega),
        List.getD_eq_getElem?_getD]
      congr 4
      omega
  · refine hw.sequence (fun hsame => ?_) (hx.grows hgrows)
    rw [hsame] at hx
    have hnone := hnew id hid
    cases hx with
    | list hc =>
      rw [hc] at hnone
      cases hnone

/-- A slice between bounds that are in range and in order. -/
theorem Sequence.slice_of_range (hx : h.Sequence kind x xs) (start stop : Option Int64)
    (hstart : 0 ≤ boundAt 0 start) (horder : boundAt 0 start ≤ boundAt xs.length stop)
    (hstop : boundAt xs.length stop ≤ xs.length) :
    h.slice x (start.map .int) (stop.map .int) =
      .ok (h.cutOut x (boundAt 0 start).toNat (boundAt xs.length stop).toNat) := by
  rw [hx.slice_eq, sliceBounds_eq, if_neg (by omega), if_neg (by omega), if_neg (by omega)]
  rfl

end Heap

/-- **Slices are cut exactly where they are asked for, and rejoined.**  Two bounds cut a slice out of a list
or a text exactly if both are in range and the first is not behind the second; otherwise the first bound out
of range is at fault, and only if there is none the order of the two.  And two slices that meet are put
together to a sequence with the elements and the type of the slice from the first start to the last end. -/
theorem slices_cut_and_rejoin {h : Heap} {kind : SequenceKind} {x : Value} {xs : List Value}
    (hx : h.Sequence kind x xs) :
    (∀ start stop : Option Int64,
      (¬ (0 ≤ boundAt 0 start ∧ boundAt 0 start ≤ xs.length) →
        h.slice x (start.map .int) (stop.map .int) =
          .error (.fault (.indexOutOfRange (boundAt 0 start) xs.length))) ∧
      (0 ≤ boundAt 0 start ∧ boundAt 0 start ≤ xs.length →
        ¬ (0 ≤ boundAt xs.length stop ∧ boundAt xs.length stop ≤ xs.length) →
        h.slice x (start.map .int) (stop.map .int) =
          .error (.fault (.indexOutOfRange (boundAt xs.length stop) xs.length))) ∧
      (boundAt 0 start ≤ xs.length → 0 ≤ boundAt xs.length stop →
        boundAt xs.length stop < boundAt 0 start →
        h.slice x (start.map .int) (stop.map .int) =
          .error (.fault (.invalidSliceIndex (boundAt 0 start) (boundAt xs.length stop)))) ∧
      (0 ≤ boundAt 0 start → boundAt 0 start ≤ boundAt xs.length stop →
        boundAt xs.length stop ≤ xs.length →
        ∃ y h', h.slice x (start.map .int) (stop.map .int) = .ok (y, h') ∧
          h.IsCut kind x xs (boundAt 0 start).toNat (boundAt xs.length stop).toNat y h')) ∧
    (∀ (start stop : Option Int64) (cut : Int64), 0 ≤ boundAt 0 start →
      boundAt 0 start ≤ cut.toInt → cut.toInt ≤ boundAt xs.length stop →
      boundAt xs.length stop ≤ xs.length →
      ∃ a h₁ b h₂ joined h₃ whole h₄,
        h.slice x (start.map .int) (some (.int cut)) = .ok (a, h₁) ∧
        h₁.slice x (some (.int cut)) (stop.map .int) = .ok (b, h₂) ∧
        h₂.binary .add a b = .ok (joined, h₃) ∧
        h₃.slice x (start.map .int) (stop.map .int) = .ok (whole, h₄) ∧
        h₃.IsCut kind x xs (boundAt 0 start).toNat (boundAt xs.length stop).toNat whole h₄ ∧
        (∃ ys, h₄.Sequence kind.part joined ys ∧ h₄.Sequence kind.part whole ys) ∧
        h₄.typeName joined = h₄.typeName whole) := by
  refine ⟨fun start stop => ⟨fun hstart => ?_, fun hstart hstop => ?_, fun hstart hstop hless => ?_,
    fun hstart horder hstop => ?_⟩, fun start stop cut hstart hfirst hsecond hstop => ?_⟩
  · rw [hx.slice_eq, Heap.sliceBounds_eq, if_pos hstart]
    rfl
  · rw [hx.slice_eq, Heap.sliceBounds_eq, if_neg (not_not_intro hstart), if_pos hstop]
    rfl
  · rw [hx.slice_eq, Heap.sliceBounds_eq, if_neg (by omega), if_neg (by omega), if_pos hless]
    rfl
  · exact ⟨_, _, hx.slice_of_range start stop hstart horder hstop, hx.isCut_cutOut (by omega) (by omega)⟩
  · obtain ⟨ha, hgrows₁, -⟩ := hx.part_cutOut (boundAt 0 start).toNat cut.toInt.toNat
    have hx₁ := hx.grows hgrows₁
    obtain ⟨hb, hgrows₂, -⟩ := hx₁.part_cutOut cut.toInt.toNat (boundAt xs.length stop).toNat
    obtain ⟨joined, h₃, hadd, hjoined, hgrows₃⟩ := (ha.grows hgrows₂).add hb
    have hx₃ := (hx₁.grows hgrows₂).grows hgrows₃
    obtain ⟨hwhole, hgrows₄, -⟩ :=
      hx₃.part_cutOut (boundAt 0 start).toNat (boundAt xs.length stop).toNat
    rw [Heap.take_drop_append xs (by omega) (by omega), SequenceKind.part_part] at hjoined
    have hcut : 0 ≤ cut.toInt ∧ cut.toInt ≤ xs.length := by omega
    exact ⟨_, _, _, _, joined, h₃, _, _, hx.slice_of_range start (some cut) hstart hfirst hcut.2,
      hx₁.slice_of_range (some cut) stop hcut.1 hsecond hstop, hadd,
      hx₃.slice_of_range start stop hstart (Int.le_trans hfirst hsecond) hstop,
      hx₃.isCut_cutOut (by omega) (by omega), ⟨_, hjoined.grows hgrows₄, hwhole⟩,
      (hjoined.grows hgrows₄).typeName_eq hwhole⟩

/-- A heap with one list, an array of three integers. -/
def withTriple : Heap where
  lists := Store.push {} ⟨#[.int 1, .int 2, .int 3], some (.int .int64), true⟩

/-- Nothing is behind the end of the array, and nothing from its end back; what is from its second item on
is a slice of two; and the first two items are put together with the third one. -/
theorem slices_cut_and_rejoin_triple :
    withTriple.Sequence (.list (some (.int .int64)) true) (.list 0) [.int 1, .int 2, .int 3] ∧
    withTriple.slice (.list 0) (some (.int 2)) (some (.int 4)) =
      .error (.fault (.indexOutOfRange 4 3)) ∧
    withTriple.slice (.list 0) (some (.int 3)) (some (.int 2)) =
      .error (.fault (.invalidSliceIndex 3 2)) ∧
    (∃ y h', withTriple.slice (.list 0) (some (.int 1)) none = .ok (y, h') ∧
      withTriple.IsCut (.list (some (.int .int64)) true) (.list 0) [.int 1, .int 2, .int 3] 1 3 y h') ∧
    ∃ a h₁ b h₂ joined h₃ whole h₄, withTriple.slice (.list 0) none (some (.int 2)) = .ok (a, h₁) ∧
      h₁.slice (.list 0) (some (.int 2)) none = .ok (b, h₂) ∧
      h₂.binary .add a b = .ok (joined, h₃) ∧ h₃.slice (.list 0) none none = .ok (whole, h₄) ∧
      h₄.typeName joined = h₄.typeName whole := by
  have htriple : withTriple.Sequence (.list (some (.int .int64)) true) (.list 0)
      #[.int 1, .int 2, .int 3].toList := .list rfl
  obtain ⟨hcut, hrejoin⟩ := slices_cut_and_rejoin htriple
  obtain ⟨-, hbehind, -, -⟩ := hcut (some 2) (some 4)
  obtain ⟨-, -, hback, -⟩ := hcut (some 3) (some 2)
  obtain ⟨-, -, -, hslice⟩ := hcut (some 1) none
  obtain ⟨a, h₁, b, h₂, joined, h₃, whole, h₄, ha, hb, hadd, hwhole, -, -, hname⟩ :=
    hrejoin none none 2 (by decide) (by decide) (by decide) (by decide)
  exact ⟨htriple, hbehind (by decide) (by decide), hback (by decide) (by decide) (by decide),
    hslice (by decide) (by decide) (by decide), a, h₁, b, h₂, joined, h₃, whole, h₄, ha, hb, hadd,
    hwhole, hname⟩

end ScriptEngine
