import ScriptEngine.Heap.Text
import ScriptEngine.Proofs.Heap.Contents

/-! # How deep writing goes

Writing a value ends exactly if no struct stands inside itself (`Heap.exists_text_iff`).  Where a list or
a map is met inside its own text, it is cut off.  The description of a struct is another matter: lists
and maps start afresh in every field, and of the structs around nothing is known, so one that stands
inside itself is described inside its own description, and so on.

If writing ends then all structs that are **met** on the way (`Heap.Meets`) are founded: those that one
comes to through lists and maps, none of which is entered twice.
-/
namespace ScriptEngine.Heap

section Options
variable {α β : Type} {f g : α → Option β} {l : List α} {bs : List β}

theorem mapM_cons_eq_some {a : α} : (a :: l).mapM f = some bs ↔
    ∃ b bs', f a = some b ∧ l.mapM f = some bs' ∧ bs = b :: bs' := by
  rw [List.mapM_cons]
  constructor
  · intro hm
    obtain ⟨b, hb, hm⟩ := Option.bind_eq_some_iff.mp hm
    obtain ⟨bs', hbs, hm⟩ := Option.bind_eq_some_iff.mp hm
    cases hm
    exact ⟨b, bs', hb, hbs, rfl⟩
  · rintro ⟨b, bs', hb, hbs, rfl⟩
    exact Option.bind_eq_some_iff.mpr ⟨b, hb, Option.bind_eq_some_iff.mpr ⟨bs', hbs, rfl⟩⟩

theorem exists_of_mapM (hm : l.mapM f = some bs) : ∀ a ∈ l, ∃ b, f a = some b := by
  induction l generalizing bs with
  | nil => exact nofun
  | cons a l ih =>
    obtain ⟨b, bs', hb, hbs, -⟩ := mapM_cons_eq_some.mp hm
    exact List.forall_mem_cons.mpr ⟨⟨b, hb⟩, ih hbs⟩

theorem exists_mapM (hf : ∀ a ∈ l, ∃ b, f a = some b) : ∃ bs, l.mapM f = some bs := by
  induction l with
  | nil => exact ⟨[], rfl⟩
  | cons a l ih =>
    obtain ⟨⟨b, hb⟩, hl⟩ := List.forall_mem_cons.mp hf
    obtain ⟨bs, hbs⟩ := ih hl
    exact ⟨b :: bs, mapM_cons_eq_some.mpr ⟨b, bs, hb, hbs, rfl⟩⟩

theorem mapM_mono (hfg : ∀ {a b}, f a = some b → g a = some b) (hm : l.mapM f = some bs) :
    l.mapM g = some bs := by
  induction l generalizing bs with
  | nil => exact hm
  | cons a l ih =>
    obtain ⟨b, bs', hb, hbs, rfl⟩ := mapM_cons_eq_some.mp hm
    exact mapM_cons_eq_some.mpr ⟨b, bs', hfg hb, ih hbs, rfl⟩

end Options

variable {h : Heap} {fuel fuel' : Nat} {inside : List Container} {v : Value} {o o' x : Object}
variable {id : HandleId} {s : String} {path : Finset HandleId}

/-! ## Lists and maps that are being written -/

def Container.object : Container → Object
  | .list id => .list id
  | .map id => .map id

/-- The lists and maps that are being written. -/
def entered (inside : List Container) : Finset Object := (inside.map Container.object).toFinset

@[simp] theorem entered_nil : entered [] = ∅ := rfl

@[simp] theorem entered_cons (c : Container) : entered (c :: inside) = insert c.object (entered inside) :=
  List.toFinset_cons

theorem object_mem_entered {c : Container} : c.object ∈ entered inside ↔ inside.contains c = true := by
  rw [entered, List.mem_toFinset, List.mem_map, List.contains_iff_mem]
  constructor
  · rintro ⟨d, hd, he⟩
    have hsame : d = c := by cases c <;> cases d <;> cases he <;> rfl
    exact hsame ▸ hd
  · exact fun hc => ⟨c, hc, rfl⟩

theorem text_list {a : ListId} : h.text? (fuel + 1) inside (.list a) =
    if .list a ∈ entered inside then some "[...]"
    else ((h.list a).items.toList.mapM (h.text? fuel (.list a :: inside))).map fun items =>
      "[" ++ String.intercalate " " items ++ "]" := by
  rw [text?]
  exact if_congr object_mem_entered.symm rfl (Option.map_eq_bind).symm

theorem text_map {a : MapId} : h.text? (fuel + 1) inside (.map a) =
    if .map a ∈ entered inside then some "map[...]"
    else ((h.map a).entries.mapM fun e =>
        (h.text? fuel (.map a :: inside) e.2).map fun s => keyText e.1 ++ ":" ++ s).map fun items =>
      "map[" ++ String.intercalate " " items ++ "]" := by
  rw [text?]
  refine if_congr object_mem_entered.symm rfl ?_
  simp only [Option.map_eq_bind]
  rfl

theorem describe_struct {c : StructCell} : h.describeHandle? (fuel + 1) (.struct c) =
    (c.values.mapM (h.describe? fuel)).map (describeStruct c) := by
  rw [describeHandle?]
  exact (Option.map_eq_bind).symm

/-! ## More levels -/

/-- What is written on so many levels is written alike on the others. -/
structure Lasting (h : Heap) (fuel fuel' : Nat) : Prop where
  text : ∀ {inside v s}, h.text? fuel inside v = some s → h.text? fuel' inside v = some s
  handle : ∀ {o s}, h.describeHandle? fuel o = some s → h.describeHandle? fuel' o = some s
  value : ∀ {v s}, h.describe? fuel v = some s → h.describe? fuel' v = some s

/-- More levels do not change a text. -/
theorem lasting (h : Heap) (hle : fuel ≤ fuel') : h.Lasting fuel fuel' := by
  induction fuel generalizing fuel' with
  | zero => exact ⟨nofun, nofun, nofun⟩
  | succ fuel ih =>
    obtain ⟨fuel', rfl⟩ := Nat.exists_eq_add_of_lt (Nat.lt_of_succ_le hle)
    have hlast : h.Lasting fuel (fuel + fuel') := ih (Nat.le_add_right _ _)
    constructor
    · intro inside v s hs
      cases v with
      | list a =>
        rw [text_list] at hs ⊢
        split at hs
        · rw [if_pos ‹_›]
          exact hs
        · rw [if_neg ‹_›]
          obtain ⟨items, hitems, rfl⟩ := Option.map_eq_some_iff.mp hs
          exact Option.map_eq_some_iff.mpr ⟨items, mapM_mono hlast.text hitems, rfl⟩
      | map a =>
        rw [text_map] at hs ⊢
        split at hs
        · rw [if_pos ‹_›]
          exact hs
        · rw [if_neg ‹_›]
          obtain ⟨items, hitems, rfl⟩ := Option.map_eq_some_iff.mp hs
          refine Option.map_eq_some_iff.mpr ⟨items, mapM_mono (fun he => ?_) hitems, rfl⟩
          obtain ⟨s, hs, rfl⟩ := Option.map_eq_some_iff.mp he
          exact Option.map_eq_some_iff.mpr ⟨s, hlast.text hs, rfl⟩
      | handle id => exact hlast.handle hs
      | _ => exact hs
    · intro o s hs
      cases o with
      | token name => exact hs
      | struct c =>
        rw [describe_struct] at hs ⊢
        obtain ⟨values, hvalues, rfl⟩ := Option.map_eq_some_iff.mp hs
        exact Option.map_eq_some_iff.mpr ⟨values, mapM_mono hlast.value hvalues, rfl⟩
    · intro v s hs
      cases v with
      | list a | map a =>
        obtain ⟨text, htext, rfl⟩ := Option.map_eq_some_iff.mp hs
        exact Option.map_eq_some_iff.mpr ⟨text, hlast.text htext, rfl⟩
      | handle id =>
        obtain ⟨text, htext, rfl⟩ := Option.map_eq_some_iff.mp hs
        exact Option.map_eq_some_iff.mpr ⟨text, hlast.handle htext, rfl⟩
      | _ => exact hs

/-! ## Levels that are enough -/

/-- What can be written on so many levels, if the structs of `path` are not met. -/
structure Enough (h : Heap) (path : Finset HandleId) (fuel : Nat) : Prop where
  text : ∀ inside {v}, (v.In fun o => h.Founded o ∧ h.Avoids path o) →
    (h.structs \ path).card * (h.containers.card + 3) +
      (h.containers \ entered inside).card + 1 < fuel → ∃ s, h.text? fuel inside v = some s
  handle : ∀ {id}, h.Founded (.handle id) → h.Avoids path (.handle id) →
    (h.structs \ path).card * (h.containers.card + 3) < fuel →
      ∃ s, h.describeHandle? fuel (h.handle id) = some s
  value : ∀ {v}, (v.In fun o => h.Founded o ∧ h.Avoids path o) →
    (h.structs \ path).card * (h.containers.card + 3) + h.containers.card + 2 < fuel →
      ∃ s, h.describe? fuel v = some s

/-- Inside the text of a list or a map there is one of them less to write. -/
theorem Enough.item (he : h.Enough path fuel) {c : Container} (hfounded : h.Founded c.object)
    (havoids : h.Avoids path c.object) (hy : ∀ o, v.object? = some o → h.Holds c.object o)
    (hin : c.object ∈ h.containers) (hnew : c.object ∉ entered inside)
    (hfuel : (h.structs \ path).card * (h.containers.card + 3) +
      (h.containers \ entered inside).card < fuel) : ∃ s, h.text? fuel (c :: inside) v = some s := by
  have hless := card_sdiff_insert_lt hin hnew
  rw [← entered_cons] at hless
  exact he.text (c :: inside) (fun o ho => ⟨hfounded.held (hy o ho), havoids.held (hy o ho)⟩)
    (by omega)

/-- Inside the description of a struct there is one struct less left to describe, but every list and map
may be written again. -/
theorem Enough.field {c : StructCell} (he : h.Enough (insert id path) fuel)
    (hc : h.handle id = .struct c) (hfounded : h.Founded (.handle id))
    (havoids : h.Avoids path (.handle id))
    (hfuel : (h.structs \ path).card * (h.containers.card + 3) ≤ fuel) :
    ∀ y ∈ c.values, ∃ s, h.describe? fuel y = some s := by
  intro y hy
  have hless := card_sdiff_insert_lt (mem_structs_of_field hc hy) fun hid => havoids id hid .refl
  have hmore := Nat.mul_le_mul_right (h.containers.card + 3) (Nat.succ_le_of_lt hless)
  rw [Nat.succ_mul] at hmore
  exact he.value (fun o ho => ⟨hfounded.held (holds_field hc hy ho),
    havoids.insert hfounded (holds_field hc hy ho)⟩) (by omega)

/-- **With enough levels there is a text.**  Each struct may be described once, and inside of its
description every list and map may be written once. -/
theorem enough (h : Heap) (path : Finset HandleId) (fuel : Nat) : h.Enough path fuel := by
  induction fuel generalizing path with
  | zero => exact ⟨fun _ _ _ => nofun, fun _ _ => nofun, fun _ => nofun⟩
  | succ fuel ih =>
    constructor
    · intro inside v hv hfuel
      cases v with
      | list a =>
        rw [text_list]
        split
        · exact ⟨_, rfl⟩
        · rename_i hnew
          obtain ⟨hfounded, havoids⟩ := hv _ rfl
          obtain ⟨items, hitems⟩ := exists_mapM fun y hy => (ih path).item (c := .list a) hfounded
            havoids (fun _ => holds_item hy) (mem_containers_of_item hy) hnew (by omega)
          exact ⟨_, Option.map_eq_some_iff.mpr ⟨items, hitems, rfl⟩⟩
      | map a =>
        rw [text_map]
        split
        · exact ⟨_, rfl⟩
        · rename_i hnew
          obtain ⟨hfounded, havoids⟩ := hv _ rfl
          obtain ⟨items, hitems⟩ := exists_mapM (l := (h.map a).entries)
            (f := fun e => (h.text? fuel (.map a :: inside) e.2).map fun s => keyText e.1 ++ ":" ++ s)
            fun e he => by
              have hy := List.mem_map_of_mem (f := Prod.snd) he
              obtain ⟨s, hs⟩ := (ih path).item (c := .map a) hfounded havoids
                (fun _ => holds_entry hy) (mem_containers_of_entry hy) hnew (by omega)
              exact ⟨_, Option.map_eq_some_iff.mpr ⟨s, hs, rfl⟩⟩
          exact ⟨_, Option.map_eq_some_iff.mpr ⟨items, hitems, rfl⟩⟩
      | handle id =>
        obtain ⟨hfounded, havoids⟩ := hv _ rfl
        exact (ih path).handle hfounded havoids (by omega)
      | _ => exact ⟨_, rfl⟩
    · intro id hfounded havoids hfuel
      cases hc : h.handle id with
      | token name => exact ⟨_, rfl⟩
      | struct c =>
        rw [describe_struct]
        obtain ⟨values, hvalues⟩ := exists_mapM
          ((ih (insert id path)).field hc hfounded havoids (Nat.le_of_lt_succ hfuel))
        exact ⟨_, Option.map_eq_some_iff.mpr ⟨values, hvalues, rfl⟩⟩
    · intro v hv hfuel
      have htext : (h.containers \ entered []).card = h.containers.card := by
        rw [entered_nil, Finset.sdiff_empty]
      cases v with
      | list a | map a =>
        obtain ⟨s, hs⟩ := (ih path).text [] hv (by omega)
        exact ⟨_, Option.map_eq_some_iff.mpr ⟨s, hs, rfl⟩⟩
      | handle id =>
        obtain ⟨hfounded, havoids⟩ := hv _ rfl
        obtain ⟨s, hs⟩ := (ih path).handle hfounded havoids (by omega)
        exact ⟨_, Option.map_eq_some_iff.mpr ⟨s, hs, rfl⟩⟩
      | _ => exact ⟨_, rfl⟩

/-! ## What ends is founded -/

/-- One comes from the object to the struct through lists and maps that are not among those `seen`, and
through none of them twice. -/
inductive Meets (h : Heap) : Finset Object → Object → HandleId → Prop
  | struct {seen : Finset Object} (id : HandleId) : Meets h seen (.handle id) id
  | inside {seen : Finset Object} {o x : Object} {id : HandleId} (ho : o.isContainer = true)
      (hnew : o ∉ seen) (hx : h.Holds o x) (hm : Meets h (insert o seen) x id) : Meets h seen o id

theorem Meets.mono {seen seen' : Finset Object} (hm : h.Meets seen' o id) (hsub : seen ⊆ seen') :
    h.Meets seen o id := by
  induction hm generalizing seen with
  | struct id => exact .struct id
  | inside ho hnew hx hm ih =>
    exact .inside ho (fun hin => hnew (hsub hin)) hx (ih (Finset.insert_subset_insert _ hsub))

/-- Who comes past an object may as well start where that object is left for the last time. -/
theorem Meets.avoid {seen : Finset Object} (hm : h.Meets seen x id) (o : Object) :
    h.Meets (insert o seen) x id ∨ ∃ y, h.Holds o y ∧ h.Meets (insert o seen) y id := by
  induction hm with
  | struct id => exact .inl (.struct id)
  | @inside seen o' x' id ho hnew hx hm ih =>
    obtain hm | ⟨y, hy, hm⟩ := ih
    · by_cases heq : o' = o
      · subst heq
        exact .inr ⟨x', hx, hm.mono (Finset.subset_insert _ _)⟩
      · refine .inl (.inside ho (fun hin => ?_) hx (Finset.insert_comm o o' seen ▸ hm))
        exact (Finset.mem_insert.mp hin).elim heq hnew
    · exact .inr ⟨y, hy, hm.mono (Finset.insert_subset_insert _ (Finset.subset_insert _ _))⟩

/-- A value is founded if all structs that are met are. -/
theorem founded_of_meets (hv : v.object? = some o)
    (hm : ∀ id, h.Meets ∅ o id → h.Founded (.handle id)) : h.Founded o := by
  refine founded_of_closed (P := fun o => (∃ v : Value, v.object? = some o) ∧
    ∀ id, h.Meets ∅ o id → h.Founded (.handle id)) (fun o ⟨⟨v, hv⟩, hm⟩ => ?_) ⟨⟨v, hv⟩, hm⟩
  -- Whatever is met from inside a list or a map is met from the list or map.
  have hinside (ho : o.isContainer = true) (hnew : o ∉ (∅ : Finset Object)) (x : Object)
      (hx : h.Holds o x) (id : HandleId) (hid : h.Meets ∅ x id) : h.Founded (.handle id) := by
    obtain hid | ⟨y, hy, hid⟩ := hid.avoid o
    · exact hm id (.inside ho hnew hx hid)
    · exact hm id (.inside ho hnew hy hid)
  have hvalue {x : Object} (hx : h.Holds o x) := exists_value_of_holds hv hx
  cases v with
  | list a | map a =>
    cases hv
    exact .inr ⟨rfl, fun x hx => ⟨hvalue hx, hinside rfl (Finset.notMem_empty _) x hx⟩⟩
  | handle id =>
    cases hv
    exact .inl (hm id (.struct id))
  | func id | chan id =>
    cases hv
    exact .inl (Leaf.founded trivial)
  | _ => cases hv

/-- What is known of what has been written on so many levels. -/
structure Told (h : Heap) (fuel : Nat) : Prop where
  text : ∀ {inside v s}, h.text? fuel inside v = some s →
    v.In fun o => ∀ id, h.Meets (entered inside) o id → h.Founded (.handle id)
  handle : ∀ {id s}, h.describeHandle? fuel (h.handle id) = some s → h.Founded (.handle id)
  value : ∀ {v s}, h.describe? fuel v = some s → v.In h.Founded

theorem told (h : Heap) (fuel : Nat) : h.Told fuel := by
  induction fuel with
  | zero => exact ⟨nofun, nofun, nofun⟩
  | succ fuel ih =>
    constructor
    · intro inside v s hs
      cases v with
      | list a =>
        refine Value.in_list.mpr fun id hm => ?_
        obtain - | ⟨-, hnew, hx, hm⟩ := hm
        rw [text_list, if_neg hnew] at hs
        obtain ⟨items, hitems, -⟩ := Option.map_eq_some_iff.mp hs
        obtain ⟨y, hy, hx⟩ := List.mem_filterMap.mp hx
        obtain ⟨s, hs⟩ := exists_of_mapM hitems y hy
        exact ih.text hs _ hx id (by rwa [entered_cons])
      | map a =>
        refine Value.in_map.mpr fun id hm => ?_
        obtain - | ⟨-, hnew, hx, hm⟩ := hm
        rw [text_map, if_neg hnew] at hs
        obtain ⟨items, hitems, -⟩ := Option.map_eq_some_iff.mp hs
        obtain ⟨y, hy, hx⟩ := List.mem_filterMap.mp hx
        obtain ⟨e, he, rfl⟩ := List.mem_map.mp hy
        obtain ⟨s, hs⟩ := exists_of_mapM hitems e he
        obtain ⟨s, hs, -⟩ := Option.map_eq_some_iff.mp hs
        exact ih.text hs _ hx id (by rwa [entered_cons])
      | handle id =>
        refine Value.in_handle.mpr fun other hm => ?_
        cases hm with
        | struct => exact ih.handle hs
        | inside ho => cases ho
      | func id | chan id =>
        intro o ho other hm
        cases ho
        cases hm with
        | inside ho => cases ho
      | _ => exact Value.in_scalar rfl
    · intro id s hs
      refine founded_struct fun x hx => ?_
      cases hc : h.handle id with
      | token name =>
        rw [Holds, contents, hc] at hx
        cases hx
      | struct c =>
        rw [Holds, contents, hc] at hx
        rw [hc, describe_struct] at hs
        obtain ⟨values, hvalues, -⟩ := Option.map_eq_some_iff.mp hs
        obtain ⟨y, hy, hx⟩ := List.mem_filterMap.mp hx
        obtain ⟨s, hs⟩ := exists_of_mapM hvalues y hy
        exact ih.value hs x hx
    · intro v s hs
      cases v with
      | list a | map a =>
        obtain ⟨text, htext, -⟩ := Option.map_eq_some_iff.mp hs
        exact fun o ho => founded_of_meets ho (ih.text htext o ho)
      | handle id =>
        obtain ⟨text, htext, -⟩ := Option.map_eq_some_iff.mp hs
        exact Value.in_handle.mpr (ih.handle htext)
      | func id => exact Value.in_func.mpr (Leaf.founded trivial)
      | chan id => exact Value.in_chan.mpr (Leaf.founded trivial)
      | _ => exact Value.in_scalar rfl

/-! ## Texts -/

/-- **Writing a value ends exactly if no struct stands inside itself.** -/
theorem exists_text_iff : (∃ fuel s, h.text? fuel [] v = some s) ↔ v.In h.Founded := by
  constructor
  · rintro ⟨fuel, s, hs⟩ o ho
    exact founded_of_meets ho ((h.told fuel).text hs o ho)
  · intro hv
    exact ⟨_, (h.enough ∅ _).text [] (fun o ho => ⟨hv o ho, nofun⟩) (Nat.lt_succ_self _)⟩

theorem text_eq (hv : v.In h.Founded)
    (hfuel : h.structs.card * (h.containers.card + 3) + h.containers.card + 1 < fuel) :
    h.text? fuel [] v = some (h.text v) := by
  have hcontainers := h.card_containers_le
  have hlevels : h.structs.card * (h.containers.card + 3) + h.containers.card + 1 < h.textLevels := by
    have hle := Nat.mul_le_mul (Nat.add_le_add_right hcontainers 4)
      (Nat.add_le_add_right h.card_structs_le 2)
    rw [Nat.mul_add, Nat.add_mul, Nat.mul_comm _ h.structs.card] at hle
    unfold textLevels
    rw [Nat.mul_add]
    omega
  have hall (fuel : Nat)
      (hfuel : h.structs.card * (h.containers.card + 3) + h.containers.card + 1 < fuel) :
      ∃ s, h.text? fuel [] v = some s :=
    (h.enough ∅ fuel).text [] (fun o ho => ⟨hv o ho, nofun⟩)
      (by rwa [entered_nil, Finset.sdiff_empty, Finset.sdiff_empty])
  obtain ⟨s, hs⟩ := hall fuel hfuel
  obtain ⟨s', hs'⟩ := hall h.textLevels hlevels
  have hmax := (h.lasting (Nat.le_max_left fuel h.textLevels)).text hs
  have hsame := hmax.symm.trans ((h.lasting (Nat.le_max_right fuel h.textLevels)).text hs')
  cases hsame
  rw [hs, text, hs', Option.getD_some]

end ScriptEngine.Heap
