import ScriptEngine.Proofs.Heap.Growth

/-! # How a conversion fails

A conversion that has no result fails with an error, unless the type has an array that is too long
to be held.  Lists and maps tell any failure inside as a mismatch of the whole value with the whole
type.  A map that becomes a struct does not: what an entry fails with, be it a field that the struct
does not have or a value that does not fit the field, is passed on as it is (`Heap.Unfit`).
-/
namespace ScriptEngine

/-! ## Failures of outcomes -/

namespace Failure

/-- A failure whose fault is one of `P`, or an overflow that `Q` allows. -/
def Within (P : Fault → Prop) (Q : Prop) : Failure → Prop
  | .fault f => P f
  | .overflow => Q

end Failure

namespace Outcome
variable {α β : Type} {P P' : Fault → Prop} {Q Q' : Prop}

/-- The outcome is a result, a fault of `P`, or an overflow that `Q` allows. -/
def FailsWithin (P : Fault → Prop) (Q : Prop) (o : Outcome α) : Prop :=
  ∀ e, o = .error e → e.Within P Q

theorem failsWithin_ok (a : α) : FailsWithin P Q (.ok a : Outcome α) := nofun

theorem failsWithin_fault {f : Fault} (hf : P f) :
    FailsWithin P Q (.error (.fault f) : Outcome α) := by
  rintro _ ⟨⟩
  exact hf

theorem FailsWithin.mono {o : Outcome α} (ho : o.FailsWithin P Q) (hP : ∀ f, P f → P' f)
    (hQ : Q → Q') : o.FailsWithin P' Q' := by
  intro e he
  cases e with
  | fault f => exact hP f (ho _ he)
  | overflow => exact hQ (ho _ he)

theorem FailsWithin.bind {x : Outcome α} {k : α → Outcome β} (hx : x.FailsWithin P Q)
    (hk : ∀ a, x = .ok a → (k a).FailsWithin P Q) : (x >>= k).FailsWithin P Q := by
  intro e he
  cases x with
  | ok a => exact hk a rfl e he
  | error e' =>
    cases he
    exact hx _ rfl

/-- Which fault it is may be left open. -/
theorem FailsWithin.anyhow {o : Outcome α} (ho : o.FailsWithin P Q) (hQ : Q → Q') :
    o.FailsWithin (fun _ => True) Q' :=
  ho.mono (fun _ _ => trivial) hQ

/-- Told as a mismatch, any fault is that mismatch. -/
theorem FailsWithin.orMismatch {o : Outcome α} (ho : o.FailsWithin P Q) {h : Heap}
    {type : HostType} {v : Value} (hm : P' (.typeMismatch type.text (h.typeName v))) :
    (o.orMismatch h type v).FailsWithin P' Q := by
  intro e he
  match o, ho, he with
  | .error (.fault _), _, he =>
    cases he
    exact hm
  | .error .overflow, ho, he =>
    cases he
    exact ho _ rfl

/-- What can happen is one of three. -/
theorem FailsWithin.cases {o : Outcome α} (ho : o.FailsWithin P Q) :
    (∃ a, o = .ok a) ∨ (∃ f, o = .error (.fault f) ∧ P f) ∨ (o = .error .overflow ∧ Q) := by
  match o, ho with
  | .ok a, _ => exact .inl ⟨a, rfl⟩
  | .error (.fault f), ho => exact .inr (.inl ⟨f, rfl, ho _ rfl⟩)
  | .error .overflow, ho => exact .inr (.inr ⟨rfl, ho _ rfl⟩)

end Outcome

/-! ## Types without arrays that are too long -/

namespace HostType

mutual

/-- No array anywhere in the type is too long to be held. -/
def holdable : HostType → Bool
  | .slice elem => elem.holdable
  | .array elem len => elem.holdable && len ≤ longestArray
  | .map key value => key.holdable && value.holdable
  | .struct _ fields => allHoldable fields
  | _ => true

def allHoldable : List (String × HostType) → Bool
  | [] => true
  | (_, type) :: rest => type.holdable && allHoldable rest

end

mutual

theorem hasZero_of_holdable : ∀ {type : HostType}, type.holdable → type.hasZero
  | .any, _ | .bool, _ | .int _, _ | .float _, _ | .string, _ | .slice _, _ | .map _ _, _
  | .chan _, _ | .func, _ | .handle _, _ => rfl
  | .array elem len, h => by
    simp only [holdable, Bool.and_eq_true] at h
    simp only [hasZero, Bool.and_eq_true]
    exact ⟨hasZero_of_holdable h.1, h.2⟩
  | .struct _ fields, h => haveZeros_of_allHoldable fields h

theorem haveZeros_of_allHoldable :
    ∀ fields : List (String × HostType), allHoldable fields → haveZeros fields
  | [], _ => rfl
  | (_, type) :: rest, h => by
    simp only [allHoldable, Bool.and_eq_true] at h
    simp only [haveZeros, Bool.and_eq_true]
    exact ⟨hasZero_of_holdable h.1, haveZeros_of_allHoldable rest h.2⟩

end

end HostType

namespace Heap
variable {P : Fault → Prop} {Q : Prop}

/-! ## Values that do not fit -/

/-- The fault that a value of the heap does not convert to the type with. -/
inductive Unfit : Heap → Value → HostType → Fault → Prop where
  /-- Other than a map that is to become a struct, the whole is at fault. -/
  | whole {h : Heap} {v : Value} {type : HostType}
      (hmap : ∀ name fields id, type = .struct name fields → v = .map id → h.has v = false) :
      Unfit h v type (.typeMismatch type.text (h.typeName v))
  /-- A key of the map is no text. -/
  | key {h : Heap} {id : MapId} {name : String} {fields : List (String × HostType)}
      {entry : MapKey × Value} (hmem : entry ∈ (h.map id).entries)
      (hkey : ∀ field, entry.1 ≠ .str field) :
      Unfit h (.map id) (.struct name fields) (.typeMismatch name (h.typeName (.map id)))
  /-- A key of the map is the name of no field. -/
  | noField {h : Heap} {id : MapId} {name field : String} {fields : List (String × HostType)}
      {w : Value} (hmem : (.str field, w) ∈ (h.map id).entries)
      (hfield : ∀ f ∈ fields, f.1 ≠ field) :
      Unfit h (.map id) (.struct name fields)
        (.invalidOperation ("type " ++ name ++ " has no field " ++ field))
  /-- The value at a key does not fit the field of this name. -/
  | field {h h' : Heap} {id : MapId} {name field field' : String}
      {fields : List (String × HostType)} {w : Value} {type : HostType} {f : Fault}
      (hmem : (.str field, w) ∈ (h.map id).entries)
      (hfield : fields.find? (·.1 == field) = some (field', type))
      (hgrow : h.Grows h') (hw : Unfit h' w type f) :
      Unfit h (.map id) (.struct name fields) f

/-- All but maps that are to become structs fail with the mismatch of the whole. -/
theorem Unfit.eq_mismatch {h : Heap} {v : Value} {type : HostType} {f : Fault}
    (hf : h.Unfit v type f) (hmap : ∀ name fields id, type = .struct name fields → v ≠ .map id) :
    f = .typeMismatch type.text (h.typeName v) := by
  cases hf with
  | whole => rfl
  | key => exact absurd rfl (hmap _ _ _ rfl)
  | noField => exact absurd rfl (hmap _ _ _ rfl)
  | field => exact absurd rfl (hmap _ _ _ rfl)

/-! ## Zero values and lengths -/

theorem failsWithin_zero (h : Heap) (type : HostType) :
    (h.zero type).FailsWithin P (¬type.holdable) := by
  intro e he
  unfold zero at he
  split at he
  · cases he
  · cases he
    exact fun hh => absurd (HostType.hasZero_of_holdable hh) ‹_›

theorem failsWithin_zeroFields (h : Heap) (fields : List (String × HostType)) :
    (h.zeroFields fields).FailsWithin P (¬HostType.allHoldable fields) := by
  intro e he
  unfold zeroFields at he
  split at he
  · cases he
  · cases he
    exact fun hh => absurd (HostType.haveZeros_of_allHoldable _ hh) ‹_›

theorem failsWithin_padded (items : List Value) (len : Nat) (v : Value) :
    (padded items len v).FailsWithin P (¬len ≤ HostType.longestArray) := by
  intro e he
  unfold padded at he
  split at he
  · cases he
  · cases he
    assumption

/-! ## What a container holds -/

theorem failsWithin_keyOf (h : Heap) (v : Value) : (h.keyOf v).FailsWithin (fun _ => True) Q := by
  unfold keyOf
  split
  · exact Outcome.failsWithin_ok _
  · exact Outcome.failsWithin_fault trivial

theorem failsWithin_convertItems {f : Heap → Value → Outcome (Value × Heap)}
    (hf : ∀ h v, (f h v).FailsWithin P Q) :
    ∀ (vs : List Value) (h : Heap), (convertItems f h vs).FailsWithin P Q
  | [], _ => Outcome.failsWithin_ok _
  | v :: rest, h =>
    (hf h v).bind fun _ _ => (failsWithin_convertItems hf rest _).bind fun _ _ =>
      Outcome.failsWithin_ok _

theorem failsWithin_convertEntries {f g : Heap → Value → Outcome (Value × Heap)}
    (hf : ∀ h v, (f h v).FailsWithin (fun _ => True) Q)
    (hg : ∀ h v, (g h v).FailsWithin (fun _ => True) Q) :
    ∀ (es stored : List (MapKey × Value)) (h : Heap),
      (convertEntries f g h stored es).FailsWithin (fun _ => True) Q
  | [], _, _ => Outcome.failsWithin_ok _
  | (key, value) :: rest, _, h =>
    (hf h key.toValue).bind fun _ _ => (failsWithin_keyOf _ _).bind fun _ _ =>
      (hg _ value).bind fun _ _ => failsWithin_convertEntries hf hg rest _ _

/-- Filling fails with what an entry fails with, or with the failure for keys that are no text. -/
theorem failsWithin_fillFields {f : Heap → List Value → String → Value → Outcome (List Value × Heap)}
    (hgrow : ∀ {h vs n v ws h'}, f h vs n v = .ok (ws, h') → h.Grows h')
    {failure : Outcome (List Value × Heap)} :
    ∀ (es : List (MapKey × Value)) {h : Heap} {vs : List Value},
      (∀ e ∈ es, (∀ field, e.1 ≠ .str field) → failure.FailsWithin P Q) →
      (∀ h', h.Grows h' → ∀ vs' field w, (.str field, w) ∈ es →
        (f h' vs' field w).FailsWithin P Q) →
      (fillFields f failure h vs es).FailsWithin P Q
  | [], h, vs, _, _ => Outcome.failsWithin_ok _
  | (key, w) :: rest, h, vs, hfail, hf => by
    cases key with
    | str field =>
      refine (hf h (.refl h) vs field w List.mem_cons_self).bind fun r hr => ?_
      refine failsWithin_fillFields hgrow rest (fun e he => hfail e (List.mem_cons_of_mem _ he))
        fun h' hg vs' field' w' hw => ?_
      exact hf h' ((hgrow hr).trans hg) vs' field' w' (List.mem_cons_of_mem _ hw)
    | _ => exact hfail _ List.mem_cons_self nofun

/-! ## Conversion -/

/-- Setting a field fails with what the value does not fit the field with, or there is no such field. -/
theorem failsWithin_setField (fields : List (String × HostType))
    (hfields : ∀ f ∈ fields, ∀ (h : Heap) (v : Value),
      (h.convert v f.2).FailsWithin (h.Unfit v f.2) (¬f.2.holdable))
    (h : Heap) (name : String) (i : Nat) (field : String) (v : Value) (values : List Value) :
    (h.setField name fields i field v values).FailsWithin
      (fun f => (∀ g ∈ fields, g.1 ≠ field) ∧
          f = .invalidOperation ("type " ++ name ++ " has no field " ++ field) ∨
        ∃ n type, fields.find? (·.1 == field) = some (n, type) ∧ h.Unfit v type f)
      (¬HostType.allHoldable fields) := by
  induction fields generalizing i with
  | nil =>
    unfold setField
    exact Outcome.failsWithin_fault (.inl ⟨List.forall_mem_nil _, rfl⟩)
  | cons first rest ih =>
    obtain ⟨n, type⟩ := first
    have hrest : ¬HostType.allHoldable rest → ¬HostType.allHoldable ((n, type) :: rest) :=
      fun hr ha => hr (Bool.and_eq_true_iff.mp ha).2
    have htype : ¬type.holdable → ¬HostType.allHoldable ((n, type) :: rest) :=
      fun ht ha => ht (Bool.and_eq_true_iff.mp ha).1
    unfold setField
    split
    case isTrue hn =>
      refine ((hfields _ List.mem_cons_self h v).mono (fun f hf => ?_) htype).bind fun _ _ =>
        Outcome.failsWithin_ok _
      exact .inr ⟨n, type, List.find?_cons_of_pos hn, hf⟩
    case isFalse hn =>
      refine (ih (fun f hf => hfields f (List.mem_cons_of_mem _ hf)) (i + 1)).mono
        (fun f hf => ?_) hrest
      obtain ⟨hno, hf⟩ | ⟨n', type', hfind, hf⟩ := hf
      · exact .inl ⟨List.forall_mem_cons.mpr ⟨fun he => hn (beq_iff_eq.mpr he), hno⟩, hf⟩
      · refine .inr ⟨n', type', ?_, hf⟩
        rw [List.find?_cons_of_neg]
        · exact hfind
        · exact hn

/-- **What a conversion fails with**: the value does not fit the type, or an array would be too long. -/
theorem failsWithin_convert (type : HostType) (h : Heap) (v : Value) :
    (h.convert v type).FailsWithin (h.Unfit v type) (¬type.holdable) := by
  induction type using HostType.induct generalizing h v with
  | parts type ih =>
    have hconversion := conversion h v type
    generalize h.convert v type = o at hconversion
    cases hconversion with
    | adapts => exact Outcome.failsWithin_ok _
    | mismatch hmap => exact Outcome.failsWithin_fault (.whole hmap)
    | zero => exact failsWithin_zero _ _
    | slice id elem =>
      have hitems := failsWithin_convertItems
        (fun h v => (ih elem (by simp [HostType.parts]) h v).anyhow fun he => he)
        (h.list id).items.toList h
      exact (hitems.orMismatch (.whole fun _ _ _ htype => by cases htype)).bind fun _ _ => Outcome.failsWithin_ok _
    | @array id elem len _ =>
      have hlong : ¬elem.holdable → ¬(HostType.array elem len).holdable :=
        fun he ha => he (Bool.and_eq_true_iff.mp ha).1
      have hlen : ¬len ≤ HostType.longestArray → ¬(HostType.array elem len).holdable :=
        fun hl ha => hl (of_decide_eq_true (Bool.and_eq_true_iff.mp ha).2)
      have hitems := failsWithin_convertItems
        (fun h v => (ih elem (by simp [HostType.parts]) h v).anyhow hlong)
        (h.list id).items.toList h
      refine (hitems.orMismatch (.whole fun _ _ _ htype => by cases htype)).bind fun _ _ => ?_
      refine ((failsWithin_zero _ elem).mono (fun _ hf => hf) hlong).bind fun _ _ => ?_
      exact ((failsWithin_padded _ len _).mono (fun _ hf => hf) hlen).bind fun _ _ =>
        Outcome.failsWithin_ok _
    | map id key value =>
      have hkey : ¬key.holdable → ¬(HostType.map key value).holdable :=
        fun hk hm => hk (Bool.and_eq_true_iff.mp hm).1
      have hvalue : ¬value.holdable → ¬(HostType.map key value).holdable :=
        fun hv hm => hv (Bool.and_eq_true_iff.mp hm).2
      have hentries := failsWithin_convertEntries
        (fun h v => (ih key (by simp [HostType.parts]) h v).anyhow hkey)
        (fun h v => (ih value (by simp [HostType.parts]) h v).anyhow hvalue) (h.map id).entries [] h
      exact (hentries.orMismatch (.whole fun _ _ _ htype => by cases htype)).bind fun _ _ => Outcome.failsWithin_ok _
    | struct id name fields =>
      refine (failsWithin_zeroFields h fields).bind fun r hr => ?_
      have hzero : h.Grows r.2 := by
        rw [zeroFields_eq_ok hr]
        exact grows_zeroValues fields h
      refine Outcome.FailsWithin.bind ?_ fun _ _ => Outcome.failsWithin_ok _
      refine failsWithin_fillFields grows_setField _ (fun e he hkey => ?_)
        fun h' hg vs field w hw => ?_
      · exact Outcome.failsWithin_fault (.key he hkey)
      · have hset := failsWithin_setField fields
          (fun f hf => ih f.2 (HostType.mem_parts hf)) h' name 0 field w vs
        refine hset.mono (fun f hf => ?_) fun hf => hf
        obtain ⟨hno, rfl⟩ | ⟨n, type, hfind, hf⟩ := hf
        · exact .noField hw hno
        · exact .field hw hfind (hzero.trans hg) hf

/-- **A conversion has a result, or fails with an error that says which part of the value does not
fit, or the type has an array that is too long.**  For all but maps that are to become structs the
error is the mismatch that names the type and the type of the value. -/
theorem conversion_errors (h : Heap) (v : Value) (type : HostType) :
    (∃ r, h.convert v type = .ok r) ∨
    (∃ f, h.convert v type = .error (.fault f) ∧ h.Unfit v type f ∧
      ((∀ name fields id, type = .struct name fields → v ≠ .map id) →
        f = .typeMismatch type.text (h.typeName v))) ∨
    (h.convert v type = .error .overflow ∧ ¬type.holdable) := by
  obtain hok | ⟨f, hfault, hf⟩ | hlong := (failsWithin_convert type h v).cases
  · exact .inl hok
  · exact .inr (.inl ⟨f, hfault, hf, hf.eq_mismatch⟩)
  · exact .inr (.inr hlong)

/-- A struct of one field. -/
def point : HostType := .struct "P" [("x", .int .int64)]

/-- A map with a key that names no field of `point`. -/
def strayed : Heap := (Heap.addMap {} ⟨[(.str "zz", .int 1)], none, none⟩).2

/-- The error for a key that names no field is not the mismatch of the map with the struct, though
a list of such maps fails with the mismatch of the list. -/
theorem stray_key_is_no_mismatch :
    strayed.convert (.map 0) point =
        .error (.fault (.invalidOperation "type P has no field zz")) ∧
      Fault.invalidOperation "type P has no field zz" ≠
        .typeMismatch point.text (strayed.typeName (.map 0)) ∧
      (strayed.addList ⟨#[.map 0], none, false⟩).2.convert (.list 0) (.slice point) =
        .error (.fault (.typeMismatch "[]P" "[]interface \x7b\x7d")) :=
  ⟨by rfl, by decide, by rfl⟩

end Heap

end ScriptEngine
