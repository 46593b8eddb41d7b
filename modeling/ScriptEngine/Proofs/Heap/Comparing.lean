import Mathlib.Data.Finset.Card
import Mathlib.Data.Finset.Prod
import Mathlib.Data.Finset.Union
import ScriptEngine.Proofs.Heap.Growth
import ScriptEngine.Proofs.Heap.Unfolding

/-! # Comparing values item by item

`Heap.equalBy?` compares two values and takes a pair of containers whose comparison is under way for
equal.  It always ends (`exists_equalBy`): no pair is entered inside itself, and only pairs of lists or
maps that are there have items to compare.

The answer is right, although it relies on comparisons that are not finished.  If the values differ
somewhere, take a **shortest** path to a difference.  Every step along it brings the difference nearer,
so the pairs on the way, which are the ones under comparison, all have their nearest difference farther
away than the pair that is being looked at; no pair on the way comes up twice, and the difference is found
(`equalBy_ne_true`).  If the values differ nowhere, nothing is ever found unequal (`equalBy_ne_false`).
-/
namespace ScriptEngine.Heap

variable {h : Heap} {leaf : Value → Value → Bool} {v w x y : Value} {path : List Nat} {i n : Nat}
  {fuel : Nat} {visited : List Pair}

/-! ## Checks in order -/

section
variable {α : Type} {f : α → Option Bool} {l : List α}

theorem allM_cons (a : α) (l : List α) :
    (a :: l).allM f = (f a).bind fun b => if b then l.allM f else some false := by
  show (f a >>= _) = _
  cases f a with
  | none => rfl
  | some b => cases b <;> rfl

theorem allM_eq_some_true : l.allM f = some true ↔ ∀ a ∈ l, f a = some true := by
  induction l with
  | nil => exact ⟨fun _ => nofun, fun _ => rfl⟩
  | cons a l ih =>
    rw [allM_cons, List.forall_mem_cons, ← ih]
    cases f a with
    | none => simp
    | some b => cases b <;> simp

theorem allM_ne_some_false (hf : ∀ a ∈ l, f a ≠ some false) : l.allM f ≠ some false := by
  induction l with
  | nil => exact nofun
  | cons a l ih =>
    obtain ⟨ha, hl⟩ := List.forall_mem_cons.mp hf
    rw [allM_cons]
    cases hb : f a with
    | none => exact nofun
    | some b =>
      cases b with
      | false => exact absurd hb ha
      | true => exact ih hl

/-- Checks that have answers already keep them. -/
theorem allM_mono {g : α → Option Bool} (hfg : ∀ a r, f a = some r → g a = some r) {r : Bool}
    (hr : l.allM f = some r) : l.allM g = some r := by
  induction l with
  | nil => exact hr
  | cons a l ih =>
    rw [allM_cons] at hr ⊢
    obtain ⟨b, hb, hr⟩ := Option.bind_eq_some_iff.mp hr
    rw [hfg a b hb, Option.bind_some]
    cases b with
    | false => exact hr
    | true => exact ih hr

theorem exists_allM (hf : ∀ a ∈ l, ∃ b, f a = some b) : ∃ b, l.allM f = some b := by
  induction l with
  | nil => exact ⟨true, rfl⟩
  | cons a l ih =>
    obtain ⟨⟨b, hb⟩, hl⟩ := List.forall_mem_cons.mp hf
    rw [allM_cons, hb]
    cases b with
    | false => exact ⟨false, rfl⟩
    | true => exact ih hl

end

/-! ## It ends -/

/-- The pairs of lists and the pairs of maps that there are. -/
def pairs (h : Heap) : Finset Pair :=
  (Finset.range h.lists.next ×ˢ Finset.range h.lists.next).image (fun p => .lists p.1 p.2) ∪
    (Finset.range h.maps.next ×ˢ Finset.range h.maps.next).image (fun p => .maps p.1 p.2)

theorem card_pairs_le (h : Heap) :
    h.pairs.card ≤ h.lists.next * h.lists.next + h.maps.next * h.maps.next := by
  refine (Finset.card_union_le _ _).trans (Nat.add_le_add ?_ ?_)
  all_goals
    refine Finset.card_image_le.trans (Nat.le_of_eq ?_)
    rw [Finset.card_product, Finset.card_range]

/-- Pairs of containers with something to compare are there. -/
theorem lists_mem_pairs {a b : ListId} {row : Value × Value} (hr : row ∈ h.listRows a b) :
    .lists a b ∈ h.pairs := by
  obtain ⟨ha, hb⟩ := List.of_mem_zip hr
  refine Finset.mem_union_left _ (Finset.mem_image.mpr ⟨(a, b), ?_, rfl⟩)
  exact Finset.mem_product.mpr
    ⟨Finset.mem_range.mpr (lt_of_mem_items ha), Finset.mem_range.mpr (lt_of_mem_items hb)⟩

theorem maps_mem_pairs {a b : MapId} {row : (MapKey × Value) × (MapKey × Value)}
    (hr : row ∈ h.mapRows a b) : .maps a b ∈ h.pairs := by
  obtain ⟨ha, hb⟩ := List.of_mem_zip hr
  refine Finset.mem_union_right _ (Finset.mem_image.mpr ⟨(a, b), ?_, rfl⟩)
  exact Finset.mem_product.mpr
    ⟨Finset.mem_range.mpr (lt_of_mem_entries ha), Finset.mem_range.mpr (lt_of_mem_entries hb)⟩

/-- What is under comparison are different pairs of the heap. -/
def UnderComparison (h : Heap) (visited : List Pair) : Prop :=
  visited.Nodup ∧ ∀ p ∈ visited, p ∈ h.pairs

theorem UnderComparison.cons {p : Pair} (hv : h.UnderComparison visited)
    (hp : visited.contains p = false) (hmem : p ∈ h.pairs) : h.UnderComparison (p :: visited) :=
  ⟨List.nodup_cons.mpr ⟨fun hin => by simp [hin] at hp, hv.1⟩, List.forall_mem_cons.mpr ⟨hmem, hv.2⟩⟩

theorem UnderComparison.length_le (hv : h.UnderComparison visited) :
    visited.length ≤ h.pairs.card := by
  rw [← List.toFinset_card_of_nodup hv.1]
  exact Finset.card_le_card fun p hp => hv.2 p (List.mem_toFinset.mp hp)

/-- **A comparison ends**, whatever is under comparison already. -/
theorem exists_equalBy (leaf : Value → Value → Bool) (hv : h.UnderComparison visited)
    (hfuel : h.pairs.card < fuel + visited.length) :
    ∃ b, h.equalBy? leaf fuel visited v w = some b := by
  induction fuel generalizing visited v w with
  | zero =>
    have hle := hv.length_le
    omega
  | succ fuel ih =>
    have hrow {p : Pair} (hp : visited.contains p = false) (hmem : p ∈ h.pairs) (x y : Value) :
        ∃ b, h.equalBy? leaf fuel (p :: visited) x y = some b := by
      refine ih (hv.cons hp hmem) ?_
      rw [List.length_cons]
      omega
    unfold equalBy?
    split
    · rename_i a b
      split
      · exact ⟨true, rfl⟩
      · rename_i hnew
        obtain ⟨-, hnew⟩ := Bool.or_eq_false_iff.mp (Bool.eq_false_iff.mpr hnew)
        split
        · exact exists_allM fun row hr => hrow hnew (lists_mem_pairs hr) row.1 row.2
        · exact ⟨false, rfl⟩
    · rename_i a b
      split
      · exact ⟨true, rfl⟩
      · rename_i hnew
        obtain ⟨-, hnew⟩ := Bool.or_eq_false_iff.mp (Bool.eq_false_iff.mpr hnew)
        split
        · refine exists_allM fun ((j, x), (k, y)) hr => ?_
          show ∃ r, (if sameLeaf j.toValue k.toValue = true then
            h.equalBy? leaf fuel (.maps a b :: visited) x y else some false) = some r
          split
          · exact hrow hnew (maps_mem_pairs hr) x y
          · exact ⟨false, rfl⟩
        · exact ⟨false, rfl⟩
    · exact ⟨_, rfl⟩

theorem exists_equalBy_of_levels (h : Heap) (leaf : Value → Value → Bool) (v w : Value)
    (hfuel : h.equalityLevels ≤ fuel) : ∃ b, h.equalBy? leaf fuel [] v w = some b := by
  have hcard := h.card_pairs_le
  rw [equalityLevels] at hfuel
  refine exists_equalBy leaf ⟨.nil, nofun⟩ ?_
  rw [List.length_nil]
  omega

/-- More levels do not change an answer. -/
theorem equalBy_mono {more : Nat} {r : Bool} (hr : h.equalBy? leaf fuel visited v w = some r)
    (hle : fuel ≤ more) : h.equalBy? leaf more visited v w = some r := by
  induction fuel generalizing more visited v w r with
  | zero => cases hr
  | succ fuel ih =>
    obtain ⟨more, rfl⟩ := Nat.exists_eq_add_of_lt (Nat.lt_of_lt_of_le (Nat.zero_lt_succ _) hle)
    rw [Nat.zero_add] at hle ⊢
    have hle := Nat.le_of_succ_le_succ hle
    unfold equalBy? at hr ⊢
    split at hr
    · simp only at hr ⊢
      split
      · rwa [if_pos ‹_›] at hr
      · rw [if_neg ‹_›] at hr
        split
        · rw [if_pos ‹_›] at hr
          exact allM_mono (fun row r hrow => ih hrow hle) hr
        · rwa [if_neg ‹_›] at hr
    · simp only at hr ⊢
      split
      · rwa [if_pos ‹_›] at hr
      · rw [if_neg ‹_›] at hr
        split
        · rw [if_pos ‹_›] at hr
          refine allM_mono (fun row r hrow => ?_) hr
          split
          · rw [if_pos ‹_›] at hrow
            exact ih hrow hle
          · rwa [if_neg ‹_›] at hrow
        · rwa [if_neg ‹_›] at hr
    · exact hr

/-- The levels that are reckoned with are enough, and more do not change the answer. -/
theorem equalBy_of_levels (h : Heap) (leaf : Value → Value → Bool) (v w : Value)
    (hfuel : h.equalityLevels ≤ fuel) : h.equalBy? leaf fuel [] v w =
      some ((h.equalBy? leaf h.equalityLevels [] v w).getD false) := by
  obtain ⟨r, hr⟩ := exists_equalBy_of_levels h leaf v w (Nat.le_refl _)
  rw [hr, Option.getD_some]
  exact equalBy_mono hr hfuel

/-! ## Rows -/

/-- What stands at one place of two lists. -/
theorem mem_listRows {a b : ListId} :
    (x, y) ∈ h.listRows a b ↔
      ∃ i : Nat, (h.children (.list a))[i]? = some x ∧ (h.children (.list b))[i]? = some y := by
  simp only [listRows, children, List.mem_iff_getElem?, List.getElem?_zip_eq_some]

/-- What stands at one place of two maps. -/
theorem exists_mapRow {a b : MapId} (hx : (h.children (.map a))[i]? = some x)
    (hy : (h.children (.map b))[i]? = some y) :
    ∃ j k, ((j, x), (k, y)) ∈ h.mapRows a b := by
  simp only [children, List.getElem?_map, Option.map_eq_some_iff] at hx hy
  obtain ⟨⟨j, _⟩, hj, rfl⟩ := hx
  obtain ⟨⟨k, _⟩, hk, rfl⟩ := hy
  exact ⟨j, k, List.mem_iff_getElem?.mpr ⟨i, List.getElem?_zip_eq_some.mpr ⟨hj, hk⟩⟩⟩

theorem children_of_mem_mapRows {a b : MapId} {j k : MapKey}
    (hr : ((j, x), (k, y)) ∈ h.mapRows a b) :
    ∃ i : Nat, (h.children (.map a))[i]? = some x ∧ (h.children (.map b))[i]? = some y := by
  obtain ⟨i, hi⟩ := List.mem_iff_getElem?.mp hr
  obtain ⟨hj, hk⟩ := List.getElem?_zip_eq_some.mp hi
  exact ⟨i, by simp [children, hj], by simp [children, hk]⟩

/-- Maps agree if they have equally many entries, with equal keys at the same places. -/
theorem agree_map {a b : MapId} : h.Agree leaf (.map a) (.map b) ↔
    (h.map a).entries.length = (h.map b).entries.length ∧
      ∀ row ∈ h.mapRows a b, sameLeaf row.1.1.toValue row.2.1.toValue = true := by
  rw [Agree, MapCell.keys, MapCell.keys, List.forall₂_map_left_iff, List.forall₂_map_right_iff,
    List.forall₂_iff_zip]
  exact and_congr_right fun _ => ⟨fun hr row => hr, fun hr _ _ => hr (_, _)⟩

/-! ## Nothing that is equal is found unequal -/

theorem equalBy_ne_false (hsame : ∀ path, ¬ h.DifferAt leaf v w path) :
    h.equalBy? leaf fuel visited v w ≠ some false := by
  induction fuel generalizing visited v w with
  | zero => exact nofun
  | succ fuel ih =>
    have hagree : h.Agree leaf v w := by
      by_contra hne
      exact hsame [] (differAt_nil.mpr hne)
    have hrow {i : Nat} {x y : Value} (hx : (h.children v)[i]? = some x)
        (hy : (h.children w)[i]? = some y) (visited : List Pair) :
        h.equalBy? leaf fuel visited x y ≠ some false :=
      ih fun path hd => hsame (i :: path) (differAt_cons.mpr ⟨x, y, hx, hy, hd⟩)
    unfold equalBy?
    split
    · split
      · exact nofun
      · rw [if_pos (beq_iff_eq.mpr hagree)]
        refine allM_ne_some_false fun row hr => ?_
        obtain ⟨i, hx, hy⟩ := mem_listRows.mp hr
        exact hrow hx hy _
    · obtain ⟨hlen, hkeys⟩ := agree_map.mp hagree
      split
      · exact nofun
      · rw [if_pos (beq_iff_eq.mpr hlen)]
        refine allM_ne_some_false fun ((j, x), (k, y)) hr => ?_
        have hkey : sameLeaf j.toValue k.toValue = true := hkeys _ hr
        simp only [hkey, if_true]
        obtain ⟨i, hx, hy⟩ := children_of_mem_mapRows hr
        exact hrow hx hy _
    · rename_i hlists hmaps
      unfold Agree at hagree
      split at hagree
      · exact absurd rfl (hlists _ _ rfl)
      · exact absurd rfl (hmaps _ _ rfl)
      · rw [hagree]
        exact nofun

/-! ## A nearest difference is found -/

/-- The values differ at a path of at most `n` steps. -/
def DifferWithin (h : Heap) (leaf : Value → Value → Bool) (n : Nat) (v w : Value) : Prop :=
  ∃ path, path.length ≤ n ∧ h.DifferAt leaf v w path

theorem DifferWithin.mono {m : Nat} (hd : h.DifferWithin leaf n v w) (hle : n ≤ m) :
    h.DifferWithin leaf m v w :=
  let ⟨path, hlen, hd⟩ := hd
  ⟨path, hlen.trans hle, hd⟩

/-- Differences within no steps are seen at a glance; others are differences of children. -/
theorem DifferWithin.cases (hd : h.DifferWithin leaf n v w) : ¬ h.Agree leaf v w ∨
    ∃ (m i : Nat) (x y : Value), n = m + 1 ∧ (h.children v)[i]? = some x ∧ (h.children w)[i]? = some y ∧
      h.DifferWithin leaf m x y := by
  obtain ⟨path, hlen, hd⟩ := hd
  cases path with
  | nil => exact .inl (differAt_nil.mp hd)
  | cons i path =>
    obtain ⟨x, y, hx, hy, hd⟩ := differAt_cons.mp hd
    obtain ⟨m, rfl⟩ := Nat.exists_eq_add_of_lt (Nat.lt_of_lt_of_le (Nat.zero_lt_succ _) hlen)
    rw [Nat.zero_add] at hlen ⊢
    exact .inr ⟨m, i, x, y, rfl, hx, hy, path, Nat.le_of_succ_le_succ hlen, hd⟩

/-- The values of a pair. -/
def Pair.values : Pair → Value × Value
  | .lists a b => (.list a, .list b)
  | .maps a b => (.map a, .map b)

/-- The pairs under comparison have no difference within `n` steps. -/
def AllFarther (h : Heap) (leaf : Value → Value → Bool) (n : Nat) (visited : List Pair) : Prop :=
  ∀ p ∈ visited, ¬ h.DifferWithin leaf n p.values.1 p.values.2

theorem AllFarther.mono {m : Nat} (hfar : h.AllFarther leaf n visited) (hle : m ≤ n) :
    h.AllFarther leaf m visited :=
  fun p hp hd => hfar p hp (hd.mono hle)

/-- Where there is a difference, neither is the pair one container nor is it under comparison. -/
theorem AllFarther.isNew {p : Pair} (same : Bool) (hfar : h.AllFarther leaf n visited)
    (hv : h.SelfSame leaf p.values.1) (hd : h.DifferWithin leaf n p.values.1 p.values.2)
    (hsame : same = true → p.values.1 = p.values.2) :
    (same || visited.contains p) = false := by
  refine Bool.or_eq_false_iff.mpr ⟨Bool.eq_false_iff.mpr fun he => ?_, ?_⟩
  · obtain ⟨path, -, hd⟩ := hd
    rw [← hsame he] at hd
    exact hv.not_differAt hd
  · exact Bool.eq_false_iff.mpr fun hp => hfar p (List.contains_iff_mem.mp hp) hd

theorem equalBy_ne_true_of_not_agree (hv : h.SelfSame leaf v) (hne : ¬ h.Agree leaf v w)
    (hfar : h.AllFarther leaf 0 visited) : h.equalBy? leaf fuel visited v w ≠ some true := by
  have hd : h.DifferWithin leaf 0 v w := ⟨[], Nat.le_refl _, differAt_nil.mpr hne⟩
  cases fuel with
  | zero => exact nofun
  | succ fuel =>
    unfold equalBy?
    split
    · rename_i a b
      have hnew := hfar.isNew (p := .lists a b) (a == b) hv hd
        fun he => congrArg Value.list (beq_iff_eq.mp he)
      rw [if_neg (Bool.eq_false_iff.mp hnew), if_neg fun he => hne (beq_iff_eq.mp he)]
      exact nofun
    · rename_i a b
      have hnew := hfar.isNew (p := .maps a b) (a == b) hv hd
        fun he => congrArg Value.map (beq_iff_eq.mp he)
      rw [if_neg (Bool.eq_false_iff.mp hnew)]
      split
      · rename_i hlen
        intro hall
        refine hne (agree_map.mpr ⟨beq_iff_eq.mp hlen, fun row hr => ?_⟩)
        have hrow := allM_eq_some_true.mp hall row hr
        simp only at hrow
        split at hrow
        · assumption
        · cases hrow
      · exact nofun
    · rename_i hlists hmaps
      intro hleaf
      refine hne ?_
      unfold Agree
      split
      · exact absurd rfl (hlists _ _ rfl)
      · exact absurd rfl (hmaps _ _ rfl)
      · exact Option.some.inj hleaf

/-- A list and a map are never equal. -/
def KeepsKinds (leaf : Value → Value → Bool) : Prop :=
  ∀ a b, leaf (.list a) (.map b) = false ∧ leaf (.map b) (.list a) = false

theorem KeepsKinds.eq_false (hleaf : KeepsKinds leaf) (hx : (h.children v)[i]? = some x)
    (hy : (h.children w)[i]? = some y) (hlists : ∀ a b, v = .list a → w ≠ .list b)
    (hmaps : ∀ a b, v = .map a → w ≠ .map b) : leaf v w = false := by
  cases v with
  | list a =>
    cases w with
    | list b => exact absurd rfl (hlists a b rfl)
    | map b => exact (hleaf a b).1
    | _ => cases hy
  | map a =>
    cases w with
    | map b => exact absurd rfl (hmaps a b rfl)
    | list b => exact (hleaf b a).2
    | _ => cases hy
  | _ => cases hx

/-- **A difference is found**, if whatever is under comparison has its differences farther away. -/
theorem equalBy_ne_true (hleaf : KeepsKinds leaf) (hv : h.SelfSame leaf v) (hd : h.DifferWithin leaf n v w)
    (hfar : h.AllFarther leaf n visited) : h.equalBy? leaf fuel visited v w ≠ some true := by
  induction n generalizing fuel visited v w with
  | zero =>
    obtain hne | ⟨m, -, -, -, hm, -⟩ := hd.cases
    · exact equalBy_ne_true_of_not_agree hv hne hfar
    · cases hm
  | succ n ih =>
    by_cases hnear : h.DifferWithin leaf n v w
    · exact ih hv hnear (hfar.mono (Nat.le_succ n))
    obtain hne | ⟨m, i, x, y, hm, hx, hy, hchild⟩ := hd.cases
    · exact equalBy_ne_true_of_not_agree hv hne (hfar.mono (Nat.zero_le _))
    obtain rfl := Nat.succ.inj hm
    -- The pair itself has its nearest difference one step farther away than this child.
    have hrow {p : Pair} (hp : p.values = (v, w)) (fuel : Nat) :
        h.equalBy? leaf fuel (p :: visited) x y ≠ some true := by
      refine ih (hv.child hx) hchild (List.forall_mem_cons.mpr ⟨?_, hfar.mono (Nat.le_succ n)⟩)
      rw [hp]
      exact hnear
    cases fuel with
    | zero => exact nofun
    | succ fuel =>
      unfold equalBy?
      split
      · rename_i a b
        have hnew := hfar.isNew (p := .lists a b) (a == b) hv hd
          fun he => congrArg Value.list (beq_iff_eq.mp he)
        rw [if_neg (Bool.eq_false_iff.mp hnew)]
        split
        · intro hall
          exact hrow (p := .lists a b) rfl fuel
            (allM_eq_some_true.mp hall (x, y) (mem_listRows.mpr ⟨i, hx, hy⟩))
        · exact nofun
      · rename_i a b
        have hnew := hfar.isNew (p := .maps a b) (a == b) hv hd
          fun he => congrArg Value.map (beq_iff_eq.mp he)
        rw [if_neg (Bool.eq_false_iff.mp hnew)]
        split
        · intro hall
          obtain ⟨j, k, hr⟩ := exists_mapRow hx hy
          have hsame := allM_eq_some_true.mp hall _ hr
          simp only at hsame
          split at hsame
          · exact hrow (p := .maps a b) rfl fuel hsame
          · cases hsame
        · exact nofun
      · rename_i hlists hmaps
        rw [hleaf.eq_false hx hy hlists hmaps]
        exact nofun

/-! ## The answer -/

/-- **Comparing decides whether there is a difference anywhere**, where everything agrees with
itself. -/
theorem equalBy_iff {r : Bool} (hleaf : KeepsKinds leaf) (hv : h.SelfSame leaf v)
    (hr : h.equalBy? leaf fuel [] v w = some r) :
    r = true ↔ ∀ path, ¬ h.DifferAt leaf v w path := by
  constructor
  · rintro rfl path hd
    exact equalBy_ne_true hleaf hv ⟨path, Nat.le_refl _, hd⟩ (fun p hp => by cases hp) hr
  · intro hsame
    by_contra hne
    obtain rfl := Bool.eq_false_iff.mpr hne
    exact equalBy_ne_false hsame hr

end ScriptEngine.Heap
