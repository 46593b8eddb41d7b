import ScriptEngine.Proofs.Heap.Growth
import ScriptEngine.Proofs.KeyOrder

/-! # Entries of maps

Binding a key and taking one out change what is found behind that key and behind no other
(`findIn_insertIn`, `findIn_eraseIn`), whether or not the entries are in order.  Both keep entries in
order if they were (`ordered_insertIn`, `ordered_eraseIn`), and of ordered entries there is one for every
key behind which something is found (`mem_iff_findIn`).
-/
namespace ScriptEngine

/-- What is prepared for an entry is the normalised key with the converted value. -/
theorem Heap.prepareEntry_eq_ok {h : Heap} {id : MapId} {key v : Value} {r : Write × Heap} :
    h.prepareEntry id key v = .ok r ↔ ∃ k w h₁, h.mapKey id key = .ok k ∧
      h.convertTo v (h.map id).valueType = .ok (w, h₁) ∧ r = (.entry id k w, h₁) := by
  constructor
  · intro hr
    obtain ⟨k, hkey, hr⟩ := Outcome.bind_eq_ok.mp hr
    obtain ⟨⟨w, h₁⟩, hv, hr⟩ := Outcome.bind_eq_ok.mp hr
    exact ⟨k, w, h₁, hkey, hv, (Except.ok.inj hr).symm⟩
  · rintro ⟨k, w, h₁, hkey, hv, rfl⟩
    exact Outcome.bind_eq_ok.mpr ⟨k, hkey, Outcome.bind_eq_ok.mpr ⟨(w, h₁), hv, rfl⟩⟩

namespace MapCell

variable {key other : MapKey} {v : Value} {es : List (MapKey × Value)}

/-! ## What is found -/

theorem findIn_cons_self (key : MapKey) (v : Value) (es : List (MapKey × Value)) :
    findIn key ((key, v) :: es) = some v :=
  if_pos (MapKey.same_iff.mpr rfl)

theorem findIn_cons_of_ne (h : other ≠ key) : findIn other ((key, v) :: es) = findIn other es :=
  if_neg fun hsame => h (MapKey.same_iff.mp hsame)

theorem findIn_insertIn_self (key : MapKey) (v : Value) (es : List (MapKey × Value)) :
    findIn key (insertIn key v es) = some v := by
  induction es with
  | nil => exact findIn_cons_self key v []
  | cons e rest ih =>
    obtain ⟨k, w⟩ := e
    unfold insertIn
    cases horder : key.compare k with
    | lt => exact findIn_cons_self key v _
    | eq =>
      obtain rfl := (MapKey.compare_eq_eq_iff key k).mp horder
      exact findIn_cons_self key v rest
    | gt =>
      have hne : key ≠ k := ((MapKey.compare_eq_gt_iff key k).mp horder).ne.symm
      exact (findIn_cons_of_ne hne).trans ih

theorem findIn_insertIn_of_ne (h : other ≠ key) (v : Value) (es : List (MapKey × Value)) :
    findIn other (insertIn key v es) = findIn other es := by
  induction es with
  | nil => exact findIn_cons_of_ne h
  | cons e rest ih =>
    obtain ⟨k, w⟩ := e
    unfold insertIn
    cases horder : key.compare k with
    | lt => exact findIn_cons_of_ne h
    | eq =>
      obtain rfl := (MapKey.compare_eq_eq_iff key k).mp horder
      exact (findIn_cons_of_ne h).trans (findIn_cons_of_ne h).symm
    | gt =>
      by_cases hother : other = k
      · subst other
        exact (findIn_cons_self k w _).trans (findIn_cons_self k w rest).symm
      · exact (findIn_cons_of_ne hother).trans (ih.trans (findIn_cons_of_ne hother).symm)

/-- **Binding a key** changes what is found behind it, and behind no other key. -/
theorem findIn_insertIn (key other : MapKey) (v : Value) (es : List (MapKey × Value)) :
    findIn other (insertIn key v es) = if other = key then some v else findIn other es := by
  by_cases h : other = key
  · subst other
    rw [if_pos rfl, findIn_insertIn_self]
  · rw [if_neg h, findIn_insertIn_of_ne h]

theorem eraseIn_cons_self (key : MapKey) (v : Value) (es : List (MapKey × Value)) :
    eraseIn key ((key, v) :: es) = eraseIn key es := by
  have hsame : key.same key = true := MapKey.same_iff.mpr rfl
  simp [eraseIn, hsame]

theorem eraseIn_cons_of_ne (h : key ≠ other) :
    eraseIn key ((other, v) :: es) = (other, v) :: eraseIn key es := by
  have hsame : key.same other = false := by
    rw [← Bool.not_eq_true, MapKey.same_iff]
    exact h
  simp [eraseIn, hsame]

/-- **Taking a key out** leaves nothing behind it, and what is behind other keys. -/
theorem findIn_eraseIn (key other : MapKey) (es : List (MapKey × Value)) :
    findIn other (eraseIn key es) = if other = key then none else findIn other es := by
  induction es with
  | nil => split <;> rfl
  | cons e rest ih =>
    obtain ⟨k, w⟩ := e
    by_cases hk : key = k
    · subst k
      rw [eraseIn_cons_self, ih]
      by_cases h : other = key
      · rw [if_pos h, if_pos h]
      · rw [if_neg h, if_neg h, findIn_cons_of_ne h]
    · rw [eraseIn_cons_of_ne hk]
      by_cases h : other = k
      · subst other
        rw [findIn_cons_self, if_neg (Ne.symm hk), findIn_cons_self]
      · rw [findIn_cons_of_ne h, findIn_cons_of_ne h, ih]

/-! ## Order -/

/-- **The entries are in the order of their keys**, so no key occurs twice. -/
def Ordered (es : List (MapKey × Value)) : Prop := es.Pairwise fun e f => e.1.Before f.1

theorem mem_of_mem_insertIn {e : MapKey × Value} (he : e ∈ insertIn key v es) :
    e = (key, v) ∨ e ∈ es := by
  induction es with
  | nil => exact .inl (List.mem_singleton.mp he)
  | cons f rest ih =>
    obtain ⟨k, w⟩ := f
    unfold insertIn at he
    cases horder : key.compare k with
    | lt =>
      rw [horder] at he
      exact List.mem_cons.mp he
    | eq =>
      rw [horder] at he
      obtain rfl := (MapKey.compare_eq_eq_iff key k).mp horder
      rcases List.mem_cons.mp he with rfl | he
      · exact .inl rfl
      · exact .inr (List.mem_cons_of_mem _ he)
    | gt =>
      rw [horder] at he
      rcases List.mem_cons.mp he with rfl | he
      · exact .inr List.mem_cons_self
      · rcases ih he with rfl | he
        · exact .inl rfl
        · exact .inr (List.mem_cons_of_mem _ he)

theorem ordered_insertIn (h : Ordered es) (key : MapKey) (v : Value) :
    Ordered (insertIn key v es) := by
  induction es with
  | nil => exact List.pairwise_singleton _ _
  | cons f rest ih =>
    obtain ⟨k, w⟩ := f
    obtain ⟨hfirst, hrest⟩ := List.pairwise_cons.mp h
    unfold insertIn
    cases horder : key.compare k with
    | lt =>
      have hbefore := (MapKey.compare_eq_lt_iff key k).mp horder
      refine List.pairwise_cons.mpr ⟨fun e he => ?_, h⟩
      rcases List.mem_cons.mp he with rfl | he
      · exact hbefore
      · exact hbefore.trans (hfirst e he)
    | eq => exact List.pairwise_cons.mpr ⟨hfirst, hrest⟩
    | gt =>
      have hafter := (MapKey.compare_eq_gt_iff key k).mp horder
      refine List.pairwise_cons.mpr ⟨fun e he => ?_, ih hrest⟩
      rcases mem_of_mem_insertIn he with rfl | he
      · exact hafter
      · exact hfirst e he

theorem ordered_eraseIn (h : Ordered es) (key : MapKey) : Ordered (eraseIn key es) :=
  h.sublist List.filter_sublist

/-- **Of ordered entries there is one for every key that something is found behind.** -/
theorem mem_iff_findIn (h : Ordered es) : (key, v) ∈ es ↔ findIn key es = some v := by
  induction es with
  | nil => exact iff_of_false List.not_mem_nil nofun
  | cons f rest ih =>
    obtain ⟨k, w⟩ := f
    obtain ⟨hfirst, hrest⟩ := List.pairwise_cons.mp h
    by_cases hk : key = k
    · subst k
      rw [findIn_cons_self, List.mem_cons]
      constructor
      · rintro (he | he)
        · cases he
          rfl
        · exact absurd (hfirst _ he) (MapKey.before_irrefl key)
      · intro he
        exact .inl (Option.some.inj he ▸ rfl)
    · rw [findIn_cons_of_ne hk, ← ih hrest, List.mem_cons]
      exact or_iff_right fun he => hk (congrArg Prod.fst he)

end MapCell

end ScriptEngine
