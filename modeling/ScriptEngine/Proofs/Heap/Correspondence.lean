import Mathlib.Order.CompleteBooleanAlgebra
import ScriptEngine.Proofs.Heap.Duplicates
import ScriptEngine.Proofs.Heap.Unfolding

/-! # Originals and copies

Copying pairs lists, maps and structs with their copies (`Heap.Pairing`).  A copy is declared like the
original and made of what becomes of its parts (`Heap.Duplicate`, `Heap.Becomes`): a leaf stays as it
is, everything else becomes a copy of it.

The copy of a list or a map is known before it is filled, so while copying is under way some pairs are
of copies that are not finished.  What one call of the copier **adds** (`Heap.Adds`) is therefore told
in terms of the pairs that it found (`M`) and of those that it made (`R`): only the latter are finished,
and their parts may be of both kinds.

Inside structs nothing is remembered, so the same list may be copied there many times.  Each of the copies
stands in the copy of what the original stands in, and at the same place (`Heap.Stems`).
-/
namespace ScriptEngine.Heap

/-- Which object is a copy of which one. -/
abbrev Pairing := Object → Object → Prop

variable {source h h' h'' g : Heap} {M M' M'' R R' : Pairing} {N : Zone} {o p q x : Object}
variable {v w : Value} {vs ws : List Value} {memo memo' : Copies} {fuel : Nat} {path : List Nat}

/-- The values that stand in a list, a map or a struct. -/
def elements (h : Heap) : Object → List Value
  | .list id => (h.list id).items.toList
  | .map id => (h.map id).entries.map (·.2)
  | .handle id => (h.handle id).values
  | .func _ | .chan _ | .scope _ => []

/-- There is a value with this object at this place. -/
def RefersAt (vs : List Value) (i : Nat) (o : Object) : Prop := vs[i]?.bind Value.object? = some o

/-- The object is a struct, or stands somewhere in one. -/
def Enclosed (h : Heap) (N : Zone) (o : Object) : Prop :=
  ∃ id, N (.handle id) ∧ (h.handle id).isStruct = true ∧ h.Comprises (.handle id) o

theorem elements_congr (hcell : g.cell? o = h.cell? o) : g.elements o = h.elements o := by
  cases o with
  | list id => rw [elements, elements, list_congr hcell]
  | map id => rw [elements, elements, map_congr hcell]
  | handle id => rw [elements, elements, handle_congr hcell]
  | func id | chan id | scope id => rfl

theorem RefersAt.holds {i : Nat} (hx : RefersAt (h.elements o) i x) : h.Holds o x := by
  obtain ⟨v, hv, hobject⟩ := Option.bind_eq_some_iff.mp hx
  have hmem := List.mem_of_getElem? hv
  cases o with
  | list id => exact holds_item hmem hobject
  | map id => exact holds_entry hmem hobject
  | handle id =>
    cases hc : h.handle id with
    | struct c =>
      rw [elements, hc] at hmem
      exact holds_field hc hmem hobject
    | token name =>
      rw [elements, hc] at hmem
      cases hmem
  | func id | chan id | scope id => cases hmem

/-- What becomes of a value.  A leaf stays as it is. -/
inductive Becomes (source : Heap) (R : Pairing) : Value → Value → Prop
  | leaf {v : Value} (hv : v.In source.Leaf) : Becomes source R v v
  | copy {v w : Value} {o p : Object} (ho : v.object? = some o) (hp : w.object? = some p)
      (hR : R o p) : Becomes source R v w

/-- The second object is in the heap, declared as the first one is in the source, and made of what
becomes of its parts. -/
inductive Duplicate (source h : Heap) (R : Pairing) : Object → Object → Prop
  | list {a b : ListId} {c : ListCell} (hc : h.cell? (.list b) = some (.list c))
      (helem : c.elemType = (source.list a).elemType) (hfixed : c.fixed = (source.list a).fixed)
      (hitems : List.Forall₂ (Becomes source R) (source.list a).items.toList c.items.toList) :
      Duplicate source h R (.list a) (.list b)
  | map {a b : MapId} {c : MapCell} (hc : h.cell? (.map b) = some (.map c))
      (hkey : c.keyType = (source.map a).keyType) (hvalue : c.valueType = (source.map a).valueType)
      (hkeys : c.entries.map (·.1) = (source.map a).entries.map (·.1))
      (hvalues : List.Forall₂ (Becomes source R) ((source.map a).entries.map (·.2))
        (c.entries.map (·.2))) :
      Duplicate source h R (.map a) (.map b)
  | struct {a b : HandleId} {c d : StructCell} (hd : h.cell? (.handle b) = some (.handle (.struct d)))
      (hc : source.handle a = .struct c) (hname : d.name = c.name) (hfields : d.fields = c.fields)
      (hvalues : List.Forall₂ (Becomes source R) c.values d.values) :
      Duplicate source h R (.handle a) (.handle b)

theorem Becomes.mono (hb : Becomes source R v w) (hle : R ≤ R') : Becomes source R' v w := by
  cases hb with
  | leaf hv => exact .leaf hv
  | copy ho hp hR => exact .copy ho hp (hle _ _ hR)

theorem Duplicate.mono (hd : Duplicate source h R o p) (hcell : h'.cell? p = h.cell? p)
    (hle : R ≤ R') : Duplicate source h' R' o p := by
  cases hd with
  | list hc helem hfixed hitems =>
    exact .list (hcell.trans hc) helem hfixed (hitems.imp fun _ _ hb => hb.mono hle)
  | map hc hkey hvalue hkeys hvalues =>
    exact .map (hcell.trans hc) hkey hvalue hkeys (hvalues.imp fun _ _ hb => hb.mono hle)
  | struct hd hc hname hfields hvalues =>
    exact .struct (hcell.trans hd) hc hname hfields (hvalues.imp fun _ _ hb => hb.mono hle)

theorem Duplicate.not_leaf (hd : Duplicate source h R o p) : ¬ source.Leaf o := by
  intro hleaf
  cases hd with
  | list | map => cases hleaf
  | struct hd hc =>
    rw [Leaf, hc] at hleaf
    cases hleaf

/-! ## Where copies come from -/

/-- The two objects stand at the same place among these values. -/
def Beside (vs ws : List Value) (o p : Object) : Prop := ∃ i, RefersAt vs i o ∧ RefersAt ws i p

/-- **Whatever was copied was come upon** among these values, or in an object that was copied too, and
its copy stands at the same place. -/
def Stems (source h : Heap) (R : Pairing) (vs ws : List Value) : Prop :=
  ∀ o p, R o p →
    Beside vs ws o p ∨ ∃ o' p', R o' p' ∧ Beside (source.elements o') (h.elements p') o p

theorem Beside.single (ho : v.object? = some o) (hp : w.object? = some p) : Beside [v] [w] o p :=
  ⟨0, ho, hp⟩

theorem Beside.of_single (hb : Beside [v] [w] o p) : v.object? = some o ∧ w.object? = some p := by
  obtain ⟨i, ho, hp⟩ := hb
  cases i with
  | zero => exact ⟨ho, hp⟩
  | succ i => cases ho

theorem Beside.head (hb : Beside [v] [w] o p) : Beside (v :: vs) (w :: ws) o p :=
  ⟨0, hb.of_single⟩

theorem Beside.tail (hb : Beside vs ws o p) : Beside (v :: vs) (w :: ws) o p := by
  obtain ⟨i, ho, hp⟩ := hb
  exact ⟨i + 1, ho, hp⟩

theorem Stems.nil (source h : Heap) (vs ws : List Value) : Stems source h ⊥ vs ws :=
  fun _ _ hR => hR.elim

/-- One more value is copied, before the others are. -/
theorem Stems.cons (hs : Stems source h R [v] [w]) (hs' : Stems source h' R' vs ws)
    (hkept : ∀ {o p}, R o p → h'.cell? p = h.cell? p) :
    Stems source h' (R ⊔ R') (v :: vs) (w :: ws) := by
  rintro o p (hR | hR)
  · obtain hb | ⟨o', p', hR', hb⟩ := hs o p hR
    · exact .inl hb.head
    · exact .inr ⟨o', p', .inl hR', (elements_congr (hkept hR')).symm ▸ hb⟩
  · obtain hb | ⟨o', p', hR', hb⟩ := hs' o p hR
    · exact .inl hb.tail
    · exact .inr ⟨o', p', .inr hR', hb⟩

/-! ## What copying adds -/

/-- **What copying something in `N` adds**, if `M` are the copies that are known before and `M'` those
that are known afterwards. -/
structure Adds (source h h' : Heap) (N : Zone) (M M' R : Pairing) : Prop where
  gains : h.Gains (fun _ => True) h'
  fresh : ∀ {o p}, R o p → h.Unused p ∧ ¬ h'.Unused p
  met : ∀ {o p}, R o p → N o
  injective : ∀ {o o' p}, R o p → R o' p → o = o'
  duplicate : ∀ {o p}, R o p → Duplicate source h' (M ⊔ R) o p
  kept : M ≤ M'
  known : M' ≤ M ⊔ R
  /-- Only what is copied inside of a struct is not known afterwards. -/
  remembered : ∀ {o p}, R o p → M' o p ∨ source.Enclosed N o

theorem Adds.refl (source h : Heap) (N : Zone) (M : Pairing) : Adds source h h N M M ⊥ where
  gains := h.encloses_all.gains
  fresh := nofun
  met := nofun
  injective := nofun
  duplicate := nofun
  kept := le_rfl
  known := le_sup_left
  remembered := nofun

theorem Adds.trans (ha : Adds source h h' N M M' R) (ha' : Adds source h' h'' N M' M'' R') :
    Adds source h h'' N M M'' (R ⊔ R') where
  gains := ha.gains.trans ha'.gains
  fresh := by
    rintro o p (hR | hR)
    · exact ⟨(ha.fresh hR).1, fun hp => (ha.fresh hR).2 (ha'.gains.unused p hp)⟩
    · exact ⟨ha.gains.unused p (ha'.fresh hR).1, (ha'.fresh hR).2⟩
  met := by
    rintro o p (hR | hR)
    · exact ha.met hR
    · exact ha'.met hR
  injective := by
    rintro o o' p (hR | hR) (hR' | hR')
    · exact ha.injective hR hR'
    · exact absurd (ha'.fresh hR').1 (ha.fresh hR).2
    · exact absurd (ha'.fresh hR).1 (ha.fresh hR').2
    · exact ha'.injective hR hR'
  duplicate := by
    rintro o p (hR | hR)
    · exact (ha.duplicate hR).mono (ha'.gains.kept p (ha.fresh hR).2)
        (sup_le_sup_left le_sup_left _)
    · refine (ha'.duplicate hR).mono rfl (sup_le (ha.known.trans ?_) ?_)
      · exact sup_le_sup_left le_sup_left _
      · exact le_sup_of_le_right le_sup_right
  kept := ha.kept.trans ha'.kept
  known := ha'.known.trans (sup_le (ha.known.trans (sup_le_sup_left le_sup_left _))
    (le_sup_of_le_right le_sup_right))
  remembered := by
    rintro o p (hR | hR)
    · exact (ha.remembered hR).imp_left (ha'.kept o p)
    · exact ha'.remembered hR

/-- Inside a struct nothing has to be remembered. -/
theorem Adds.forget {id : HandleId} (hin : ∀ {x}, source.Comprises (.handle id) x → N x)
    (hs : (source.handle id).isStruct = true)
    (ha : Adds source h h' (source.Comprises (.handle id)) ⊥ M' R) : Adds source h h' N ⊥ ⊥ R :=
  { ha with
    met := fun hR => hin (ha.met hR)
    kept := le_rfl
    known := bot_le
    remembered := fun hR => .inr ⟨id, hin .refl, hs, ha.met hR⟩ }

/-- The pair of these two objects. -/
def single (o p : Object) : Pairing := fun x y => x = o ∧ y = p

/-- The copy of one more object is finished, once those of its parts are: they were added to the heap
`hb`, where the copy had been begun. -/
theorem Adds.finish {hb : Heap} {Mb : Pairing} (ha : Adds source hb h' N Mb M' R)
    (hgains : h.Gains (fun _ => True) h'') (hbegun : ∀ y, hb.Unused y → h.Unused y)
    (ho : N o) (hp : h.Unused p) (hmade : ¬ h''.Unused p) (hparts : ∀ {x y}, R x y → y ≠ p)
    (hcell : ∀ y, y ≠ p → h''.cell? y = h'.cell? y) (hunused : ∀ y, h''.Unused y → h'.Unused y)
    (hduplicate : Duplicate source h'' (M ⊔ (single o p ⊔ R)) o p)
    (hMb : Mb ≤ M ⊔ single o p) (hkept : M ≤ M'') (hknown : M'' ≤ M ⊔ (single o p ⊔ R))
    (hremembered : ∀ x y, (single o p ⊔ R) x y → M'' x y ∨ source.Enclosed N x) :
    Adds source h h'' N M M'' (single o p ⊔ R) where
  gains := hgains
  fresh := by
    rintro x y (⟨rfl, rfl⟩ | hR)
    · exact ⟨hp, hmade⟩
    · exact ⟨hbegun y (ha.fresh hR).1, fun hy => (ha.fresh hR).2 (hunused y hy)⟩
  met := by
    rintro x y (⟨rfl, rfl⟩ | hR)
    · exact ho
    · exact ha.met hR
  injective := by
    rintro x x' y (⟨rfl, rfl⟩ | hR) (⟨rfl, hy⟩ | hR')
    · rfl
    · exact absurd rfl (hparts hR')
    · exact absurd hy (hparts hR)
    · exact ha.injective hR hR'
  duplicate := by
    rintro x y (⟨rfl, rfl⟩ | hR)
    · exact hduplicate
    · refine (ha.duplicate hR).mono (hcell y (hparts hR)) ?_
      rw [← sup_assoc]
      exact sup_le_sup_right hMb _
  kept := hkept
  known := hknown
  remembered := hremembered _ _

/-- What was copied on behalf of an object stems from it. -/
theorem Stems.finish (hs : Stems source h' R vs ws) (hvs : source.elements o = vs)
    (hws : h''.elements p = ws) (hcell : ∀ {x y}, R x y → h''.cell? y = h'.cell? y)
    (ho : v.object? = some o) (hp : w.object? = some p) :
    Stems source h'' (single o p ⊔ R) [v] [w] := by
  subst hvs hws
  rintro x y (⟨rfl, rfl⟩ | hR)
  · exact .inl (.single ho hp)
  · obtain hb | ⟨o', p', hR', hb⟩ := hs x y hR
    · exact .inr ⟨o, p, .inl ⟨rfl, rfl⟩, hb⟩
    · exact .inr ⟨o', p', .inr hR', (elements_congr (hcell hR')).symm ▸ hb⟩

/-- One more copy is known. -/
structure Notes (M M' : Pairing) (o p : Object) : Prop where
  pair : M' o p
  kept : M ≤ M'
  known : M' ≤ M ⊔ single o p

/-- The copy of a list or a map that was begun, and noted, is filled. -/
theorem Adds.fill {hb : Heap} {Mb : Pairing} (ha : Adds source hb h' N Mb M' R)
    (hnotes : Notes M Mb o p) (hbegun : h.Gains (fun _ => True) hb)
    (hgains : h.Gains (fun _ => True) h'') (ho : N o) (hp : h.Unused p) (hold : ¬ hb.Unused p)
    (hparts : ∀ {x y}, R x y → y ≠ p) (hcell : ∀ y, y ≠ p → h''.cell? y = h'.cell? y)
    (hunused : ∀ y, h''.Unused y → h'.Unused y)
    (hduplicate : Duplicate source h'' (M ⊔ (single o p ⊔ R)) o p) :
    Adds source h h'' N M M' (single o p ⊔ R) := by
  refine ha.finish hgains hbegun.unused ho hp ?_ hparts hcell hunused hduplicate hnotes.known
    (hnotes.kept.trans ha.kept) ?_ ?_
  · exact fun hmade => hold (ha.gains.unused p (hunused p hmade))
  · rw [← sup_assoc]
    exact ha.known.trans (sup_le_sup_right hnotes.known _)
  · rintro x y (⟨rfl, rfl⟩ | hR)
    · exact .inl (ha.kept _ _ hnotes.pair)
    · exact ha.remembered hR

/-! ## What has been copied so far -/

/-- The pairs of the copies made so far. -/
def Copies.pairing (memo : Copies) : Pairing
  | .list a, .list b => memo.lists.lookup a = some b
  | .map a, .map b => memo.maps.lookup a = some b
  | _, _ => False

@[simp] theorem Copies.pairing_empty : Copies.pairing {} = ⊥ := by
  funext o p
  cases o <;> cases p <;> simp [pairing]

theorem Copies.pairing_functional (ho : memo.pairing o p) (ho' : memo.pairing o q) : p = q := by
  cases o with
  | list a =>
    cases p <;> try cases ho
    cases q <;> try cases ho'
    exact congrArg Object.list (Option.some.inj (ho.symm.trans ho'))
  | map a =>
    cases p <;> try cases ho
    cases q <;> try cases ho'
    exact congrArg Object.map (Option.some.inj (ho.symm.trans ho'))
  | _ => cases ho

theorem Copies.notes_list {id : ListId} (copy : ListId) (hl : memo.lists.lookup id = none) :
    Notes memo.pairing (Copies.pairing { memo with lists := (id, copy) :: memo.lists })
      (.list id) (.list copy) where
  pair := List.lookup_cons_self
  kept := by
    intro o p hM
    cases o <;> cases p <;> first | exact hM | exact lookup_cons_of_lookup hl hM
  known := by
    intro o p hM
    cases o <;> cases p <;> try exact .inl hM
    obtain ⟨rfl, rfl⟩ | hM := lookup_of_cons hM
    · exact .inr ⟨rfl, rfl⟩
    · exact .inl hM

theorem Copies.notes_map {id : MapId} (copy : MapId) (hm : memo.maps.lookup id = none) :
    Notes memo.pairing (Copies.pairing { memo with maps := (id, copy) :: memo.maps })
      (.map id) (.map copy) where
  pair := List.lookup_cons_self
  kept := by
    intro o p hM
    cases o <;> cases p <;> first | exact hM | exact lookup_cons_of_lookup hm hM
  known := by
    intro o p hM
    cases o <;> cases p <;> try exact .inl hM
    obtain ⟨rfl, rfl⟩ | hM := lookup_of_cons hM
    · exact .inr ⟨rfl, rfl⟩
    · exact .inl hM

theorem list_of_cell {b : ListId} {c : ListCell} (hc : h.cell? (.list b) = some (.list c)) :
    h.list b = c := by
  obtain ⟨d, hd, he⟩ := Option.map_eq_some_iff.mp hc
  cases he
  exact list_eq hd

theorem map_of_cell {b : MapId} {c : MapCell} (hc : h.cell? (.map b) = some (.map c)) :
    h.map b = c := by
  obtain ⟨d, hd, he⟩ := Option.map_eq_some_iff.mp hc
  cases he
  rw [map, hd, Option.getD_some]

theorem handle_of_cell {b : HandleId} {c : Handle} (hc : h.cell? (.handle b) = some (.handle c)) :
    h.handle b = c := by
  obtain ⟨d, hd, he⟩ := Option.map_eq_some_iff.mp hc
  cases he
  rw [handle, hd, Option.getD_some]

/-! ## Copying values -/

/-- What copying this value has to add, where `f` tells which copies are known. -/
def AddsCopy (source : Heap) (N : Zone) (f : Copies → Pairing)
    (copyItem : Heap → Copies → Value → Option (Value × Heap × Copies)) (v : Value) : Prop :=
  ∀ {h h' : Heap} {memo memo' : Copies} {w : Value}, copyItem h memo v = some (w, h', memo') →
    ∃ R, Adds source h h' N (f memo) (f memo') R ∧ Becomes source (f memo ⊔ R) v w ∧
      Stems source h' R [v] [w]

section
variable {copyItem : Heap → Copies → Value → Option (Value × Heap × Copies)}

theorem adds_copyItems {f : Copies → Pairing} (hitem : ∀ v ∈ vs, AddsCopy source N f copyItem v)
    (hc : copyItems copyItem h memo vs = some (ws, h', memo')) :
    ∃ R, Adds source h h' N (f memo) (f memo') R ∧
      List.Forall₂ (Becomes source (f memo ⊔ R)) vs ws ∧ Stems source h' R vs ws := by
  induction vs generalizing h memo ws with
  | nil =>
    cases hc
    exact ⟨⊥, .refl _ _ N _, .nil, .nil _ _ _ _⟩
  | cons v rest ih =>
    obtain ⟨w, h₁, memo₁, ws', hv, hrest, rfl⟩ := copyItems_cons.mp hc
    obtain ⟨hone, hmore⟩ := List.forall_mem_cons.mp hitem
    obtain ⟨R, ha, hw, hstems⟩ := hone hv
    obtain ⟨R', ha', hws, hstems'⟩ := ih hmore hrest
    refine ⟨R ⊔ R', ha.trans ha', .cons (hw.mono (sup_le_sup_left le_sup_left _))
      (hws.imp fun _ _ hb => hb.mono (sup_le (ha.known.trans ?_) ?_)), ?_⟩
    · exact hstems.cons hstems' fun hR => ha'.gains.kept _ (ha.fresh hR).2
    · exact sup_le_sup_left le_sup_left _
    · exact le_sup_of_le_right le_sup_right

theorem adds_list {id : ListId} {items : List Value} (hid : N (.list id))
    (hitem : ∀ v ∈ (source.list id).items.toList, AddsCopy source N Copies.pairing copyItem v)
    (hl : memo.lists.lookup id = none)
    (hitems : copyItems copyItem (h.addList { source.list id with items := #[] }).2
      { memo with lists := (id, h.lists.next) :: memo.lists } (source.list id).items.toList =
        some (items, h', memo')) :
    ∃ R, Adds source h (h'.modifyList h.lists.next fun c => { c with items := items.toArray }) N
      memo.pairing memo'.pairing R ∧ R (.list id) (.list h.lists.next) ∧
      Stems source (h'.modifyList h.lists.next fun c => { c with items := items.toArray }) R
        [.list id] [.list h.lists.next] := by
  have hbegun := h.encloses_all.gains.addList (c := { source.list id with items := #[] })
    fun _ _ _ _ => trivial
  obtain ⟨R, ha, hbecome, hstems⟩ := adds_copyItems hitem hitems
  have hold : ¬ (h.addList { source.list id with items := #[] }).2.Unused (.list h.lists.next) := by
    simp [Unused, Heap.addList]
  have hbefore : h'.cell? (.list h.lists.next) =
      some (.list { source.list id with items := #[] }) := by
    rw [ha.gains.kept _ hold, cell?_addList, if_pos rfl]
  have hnotes := memo.notes_list h.lists.next hl
  have hfilled : (h'.modifyList h.lists.next fun c => { c with items := items.toArray }).cell?
      (.list h.lists.next) = some (.list { source.list id with items := items.toArray }) := by
    rw [cell?_modifyList, if_pos rfl]
    obtain ⟨c, hc, hcell⟩ := Option.map_eq_some_iff.mp hbefore
    cases hcell
    rw [hc, Option.map_some]
  have hparts {x y : Object} (hR : R x y) : y ≠ .list h.lists.next := by
    rintro rfl
    exact hold (ha.fresh hR).1
  refine ⟨_, ha.fill hnotes hbegun ((hbegun.trans ha.gains).modifyList (Nat.le_refl _) trivial
    fun _ _ _ _ _ => trivial) hid (Nat.le_refl _) hold hparts (fun y hy => ?_) (fun y hy => ?_) ?_,
    .inl ⟨rfl, rfl⟩, hstems.finish rfl ?_ (fun hR => ?_) rfl rfl⟩
  · rw [cell?_modifyList, if_neg hy]
  · cases y <;> simpa [Unused, Heap.modifyList] using hy
  · refine .list hfilled rfl rfl ?_
    rw [List.toList_toArray, ← sup_assoc]
    exact hbecome.imp fun _ _ hb => hb.mono (sup_le_sup_right hnotes.known _)
  · rw [elements, list_of_cell hfilled]
  · rw [cell?_modifyList, if_neg (hparts hR)]

theorem adds_map {id : MapId} {values : List Value} (hid : N (.map id))
    (hitem : ∀ v ∈ (source.map id).entries.map (·.2), AddsCopy source N Copies.pairing copyItem v)
    (hm : memo.maps.lookup id = none)
    (hvalues : copyItems copyItem (h.addMap { source.map id with entries := [] }).2
      { memo with maps := (id, h.maps.next) :: memo.maps } ((source.map id).entries.map (·.2)) =
        some (values, h', memo')) :
    ∃ R, Adds source h (h'.modifyMap h.maps.next fun c =>
        { c with entries := ((source.map id).entries.map (·.1)).zip values }) N
      memo.pairing memo'.pairing R ∧ R (.map id) (.map h.maps.next) ∧
      Stems source (h'.modifyMap h.maps.next fun c =>
        { c with entries := ((source.map id).entries.map (·.1)).zip values }) R
        [.map id] [.map h.maps.next] := by
  have hbegun := h.encloses_all.gains.addMap (c := { source.map id with entries := [] })
    fun _ _ _ _ => trivial
  obtain ⟨R, ha, hbecome, hstems⟩ := adds_copyItems hitem hvalues
  have hold : ¬ (h.addMap { source.map id with entries := [] }).2.Unused (.map h.maps.next) := by
    simp [Unused, Heap.addMap]
  have hbefore : h'.cell? (.map h.maps.next) = some (.map { source.map id with entries := [] }) := by
    rw [ha.gains.kept _ hold, cell?_addMap, if_pos rfl]
  have hnotes := memo.notes_map h.maps.next hm
  have hlength : values.length = ((source.map id).entries.map (·.1)).length := by
    rw [← hbecome.length_eq, List.length_map, List.length_map]
  have hfilled : (h'.modifyMap h.maps.next fun c =>
      { c with entries := ((source.map id).entries.map (·.1)).zip values }).cell?
        (.map h.maps.next) = some (.map { source.map id with
          entries := ((source.map id).entries.map (·.1)).zip values }) := by
    rw [cell?_modifyMap, if_pos rfl]
    obtain ⟨c, hc, hcell⟩ := Option.map_eq_some_iff.mp hbefore
    cases hcell
    rw [hc, Option.map_some]
  have hparts {x y : Object} (hR : R x y) : y ≠ .map h.maps.next := by
    rintro rfl
    exact hold (ha.fresh hR).1
  refine ⟨_, ha.fill hnotes hbegun ((hbegun.trans ha.gains).modifyMap (Nat.le_refl _) trivial
    fun _ _ _ _ _ => trivial) hid (Nat.le_refl _) hold hparts (fun y hy => ?_) (fun y hy => ?_) ?_,
    .inl ⟨rfl, rfl⟩, hstems.finish rfl ?_ (fun hR => ?_) rfl rfl⟩
  · rw [cell?_modifyMap, if_neg hy]
  · cases y <;> simpa [Unused, Heap.modifyMap] using hy
  · refine .map hfilled rfl rfl (List.map_fst_zip (Nat.le_of_eq hlength.symm)) ?_
    rw [List.map_snd_zip (Nat.le_of_eq hlength), ← sup_assoc]
    exact hbecome.imp fun _ _ hb => hb.mono (sup_le_sup_right hnotes.known _)
  · rw [elements, map_of_cell hfilled, List.map_snd_zip (Nat.le_of_eq hlength)]
  · rw [cell?_modifyMap, if_neg (hparts hR)]

/-- Each field is copied on its own, and what was copied along is not known afterwards. -/
theorem adds_struct {id : HandleId} {c : StructCell} {values : List Value}
    (hin : ∀ {x}, source.Comprises (.handle id) x → N x) (hstruct : source.handle id = .struct c)
    (hitem : ∀ v ∈ c.values,
      AddsCopy source (source.Comprises (.handle id)) Copies.pairing copyItem v)
    (hvalues : copyItems (fun h _ v => copyItem h {} v) h {} c.values = some (values, h', memo')) :
    ∃ R, Adds source h (h'.addHandle (.struct { c with values })).2 N memo.pairing memo.pairing R ∧
      R (.handle id) (.handle h'.handles.next) ∧
      Stems source (h'.addHandle (.struct { c with values })).2 R
        [.handle id] [.handle h'.handles.next] := by
  have his : (source.handle id).isStruct = true := by rw [hstruct, Handle.isStruct]
  obtain ⟨R, ha, hbecome, hstems⟩ := adds_copyItems (f := fun _ => ⊥) (N := N)
    (fun y hy h h' _ memo' w hc => by
      obtain ⟨R, ha, hb, hstems⟩ := hitem y hy hc
      rw [Copies.pairing_empty] at ha hb
      exact ⟨R, ha.forget hin his, hb, hstems⟩) hvalues
  have hlater (y : Object) (hy : (h'.addHandle (.struct { c with values })).2.Unused y) :
      h'.Unused y := by
    cases y <;> first | exact hy | exact Store.le_of_push hy
  have hmade : (h'.addHandle (.struct { c with values })).2.cell? (.handle h'.handles.next) =
      some (.handle (.struct { c with values })) := by
    rw [cell?_addHandle, if_pos rfl]
  have hparts {x y : Object} (hR : R x y) : y ≠ .handle h'.handles.next := by
    rintro rfl
    exact (ha.fresh hR).2 (Nat.le_refl _)
  -- What was copied was met in the struct, or it is the struct itself.
  refine ⟨_, ha.finish (ha.gains.addHandle fun _ _ => trivial) (fun _ hy => hy) (hin .refl)
    (ha.gains.unused _ (Nat.le_refl _)) (by simp [Unused, Heap.addHandle]) hparts
    (fun y hy => ?_) hlater ?_ bot_le le_rfl le_sup_left ?_, .inl ⟨rfl, rfl⟩,
    hstems.finish ?_ ?_ (fun hR => ?_) rfl rfl⟩
  · rw [cell?_addHandle, if_neg hy]
  · refine .struct hmade hstruct rfl rfl (hbecome.imp fun _ _ hb => hb.mono ?_)
    exact sup_le bot_le (le_sup_of_le_right le_sup_right)
  · rintro x y (⟨rfl, rfl⟩ | hR)
    · exact .inr ⟨id, hin .refl, his, .refl⟩
    · obtain hnone | hin := ha.remembered hR
      · exact hnone.elim
      · exact .inr hin
  · rw [elements, hstruct, Handle.values]
  · rw [elements, handle_of_cell hmade, Handle.values]
  · rw [cell?_addHandle, if_neg (hparts hR)]

end

/-- **Copying adds copies of what is copied**, and the value becomes one of them or was copied before. -/
theorem addsCopy_copy (hN : ∀ {o x}, N o → source.Holds o x → N x) (hv : v.In N) (fuel : Nat) :
    AddsCopy source N Copies.pairing (copy? source fuel) v := by
  induction fuel generalizing v N with
  | zero => exact fun hc => nomatch hc
  | succ fuel ih =>
    intro h h' memo memo' w hc
    have hnothing : Stems source h ⊥ [v] [w] := .nil _ _ _ _
    cases copy_succ_iff.mp hc with
    | leaf hleaf => exact ⟨⊥, .refl source h N _, .leaf hleaf, hnothing⟩
    | listAgain hl => exact ⟨⊥, .refl source h N _, .copy rfl rfl (.inl hl), hnothing⟩
    | list hl hitems =>
      obtain ⟨R, ha, hR, hstems⟩ := adds_list (hv _ rfl)
        (fun y hy => ih hN fun o ho => hN (hv _ rfl) (holds_item hy ho)) hl hitems
      exact ⟨R, ha, .copy rfl rfl (.inr hR), hstems⟩
    | mapAgain hm => exact ⟨⊥, .refl _ _ N _, .copy rfl rfl (.inl hm), hnothing⟩
    | map hm hvalues =>
      obtain ⟨R, ha, hR, hstems⟩ := adds_map (hv _ rfl)
        (fun y hy => ih hN fun o ho => hN (hv _ rfl) (holds_entry hy ho)) hm hvalues
      exact ⟨R, ha, .copy rfl rfl (.inr hR), hstems⟩
    | struct hstruct hvalues =>
      have hin {id : HandleId} (hid : N (.handle id)) {x : Object}
          (hx : source.Comprises (.handle id) x) : N x := by
        induction hx with
        | refl => exact hid
        | tail _ hx ih => exact hN ih hx
      -- The fields are copied on their own, and what is met in them stands in the struct.
      obtain ⟨R, ha, hR, hstems⟩ := adds_struct (hin (hv _ rfl)) hstruct
        (fun y hy => ih .tail fun o ho => .single (holds_field hstruct hy ho)) hvalues
      exact ⟨R, ha, .copy rfl rfl (.inr hR), hstems⟩

/-! ## What originals and copies have in common -/

theorem exists_of_forall₂ {α β : Type} {S : α → β → Prop} {as : List α} {bs : List β}
    (hs : List.Forall₂ S as bs) : ∀ a ∈ as, ∃ b ∈ bs, S a b := by
  induction hs with
  | nil => exact nofun
  | cons hab _ ih =>
    refine List.forall_mem_cons.mpr ⟨⟨_, List.mem_cons_self, hab⟩, fun a ha => ?_⟩
    obtain ⟨b, hb, hab⟩ := ih a ha
    exact ⟨b, List.mem_cons_of_mem _ hb, hab⟩

theorem rel_getElem? {α β : Type} {S : α → β → Prop} {as : List α} {bs : List β}
    (hs : List.Forall₂ S as bs) (i : Nat) : Option.Rel S as[i]? bs[i]? := by
  induction hs generalizing i with
  | nil => exact .none
  | cons hab _ ih =>
    cases i with
    | zero => exact .some hab
    | succ i => exact ih i

/-- What stands in an object, and what stands in a copy of it. -/
theorem Duplicate.exists_contents (hd : Duplicate source h R o p) : ∃ vs ws,
    source.contents o = Value.objects vs ∧ h.contents p = Value.objects ws ∧
      List.Forall₂ (Becomes source R) vs ws := by
  cases hd with
  | list hc helem hfixed hitems => exact ⟨_, _, rfl, by rw [contents, list_of_cell hc], hitems⟩
  | map hc hkey hvalue hkeys hvalues => exact ⟨_, _, rfl, by rw [contents, map_of_cell hc], hvalues⟩
  | struct hd hc hname hfields hvalues =>
    refine ⟨_, _, by rw [contents, hc]; rfl, by rw [contents, handle_of_cell hd]; rfl, hvalues⟩

/-- What stands in an object is a leaf, or there is a copy of it in the copy. -/
theorem Duplicate.holds (hd : Duplicate source h R o p) (hx : source.Holds o x) :
    source.Leaf x ∨ ∃ q, R x q ∧ h.Holds p q := by
  obtain ⟨vs, ws, hvs, hws, hb⟩ := hd.exists_contents
  rw [Holds, hvs] at hx
  obtain ⟨v, hv, hx⟩ := List.mem_filterMap.mp hx
  obtain ⟨w, hw, hb⟩ := exists_of_forall₂ hb v hv
  cases hb with
  | leaf hleaf => exact .inl (hleaf x hx)
  | copy ho hp hR =>
    cases hx.symm.trans ho
    refine .inr ⟨_, hR, ?_⟩
    rw [Holds, hws]
    exact List.mem_filterMap.mpr ⟨w, hw, hp⟩

/-- What stands in a copy is a leaf of the source, or a copy. -/
theorem Duplicate.held (hd : Duplicate source h R o p) (hq : h.Holds p q) :
    source.Leaf q ∨ ∃ x, R x q := by
  obtain ⟨vs, ws, -, hws, hb⟩ := hd.exists_contents
  rw [Holds, hws] at hq
  obtain ⟨w, hw, hq⟩ := List.mem_filterMap.mp hq
  obtain ⟨v, -, hb⟩ := exists_of_forall₂ (S := flip (Becomes source R)) hb.flip w hw
  cases hb with
  | leaf hleaf => exact .inl (hleaf q hq)
  | copy ho hp hR =>
    cases hq.symm.trans hp
    exact .inr ⟨_, hR⟩

theorem Gains.leaf {Z : Zone} (hg : h.Gains Z h') (ho : h.Leaf o) : h'.Leaf o := by
  cases o with
  | func id | chan id => trivial
  | list id | map id | scope id => cases ho
  | handle id =>
    have hmade : ¬ h.Unused (.handle id) := by
      intro hunused
      rw [Leaf, handle, Store.get?_eq_none hunused] at ho
      cases ho
    rw [Leaf, handle_congr (hg.kept _ hmade)]
    exact ho

theorem Gains.leaf_of_made {Z : Zone} (hg : h.Gains Z h') (hmade : ¬ h.Unused o) (ho : h'.Leaf o) :
    h.Leaf o := by
  cases o with
  | handle id =>
    rw [Leaf, handle_congr (hg.kept _ hmade)] at ho
    exact ho
  | _ => exact ho

/-! ## A source that has grown -/

theorem becomes_of_gains {Z : Zone} (hg : source.Gains Z g)
    (hvs : ∀ o ∈ Value.objects vs, ¬ source.Unused o) (hb : List.Forall₂ (Becomes g R) vs ws) :
    List.Forall₂ (Becomes source R) vs ws := by
  have hmade : ∀ v ∈ vs, v.In fun o => ¬ source.Unused o := Value.forall_objects.mp hvs
  refine ((List.forall₂_and_left _ _).mpr ⟨hmade, hb⟩).imp fun v w ⟨hmade, hb⟩ => ?_
  cases hb with
  | leaf hleaf => exact .leaf fun o ho => hg.leaf_of_made (hmade o ho) (hleaf o ho)
  | copy ho hp hR => exact .copy ho hp hR

/-- What has been made before is copied as it was. -/
theorem Duplicate.of_gains {Z : Zone} (hg : source.Gains Z g) (ho : ¬ source.Unused o)
    (hheld : ∀ x, source.Holds o x → ¬ source.Unused x) (hd : Duplicate g h R o p) :
    Duplicate source h R o p := by
  have hcell := hg.kept o ho
  cases hd with
  | list hc helem hfixed hitems =>
    rw [list_congr hcell] at helem hfixed hitems
    exact .list hc helem hfixed (becomes_of_gains hg hheld hitems)
  | map hc hkey hvalue hkeys hvalues =>
    rw [map_congr hcell] at hkey hvalue hkeys hvalues
    exact .map hc hkey hvalue hkeys (becomes_of_gains hg hheld hvalues)
  | struct hd hc hname hfields hvalues =>
    rw [handle_congr hcell] at hc
    refine .struct hd hc hname hfields (becomes_of_gains hg (fun x hx => hheld x ?_) hvalues)
    rw [Holds, contents, hc]
    exact hx

section
variable (hdup : ∀ o p, R o p → Duplicate source h R o p)
include hdup

/-- What an object comprises is a leaf, or its copy comprises a copy of it. -/
theorem exists_copy_of_comprises (hx : source.Comprises o x) (hR : R o p) :
    source.Leaf x ∨ ∃ q, R x q ∧ h.Comprises p q := by
  induction hx with
  | refl => exact .inr ⟨p, hR, .refl⟩
  | tail _ hx ih =>
    obtain hleaf | ⟨q, hq, hcomp⟩ := ih
    · exact absurd hx hleaf.not_holds
    · exact ((hdup _ _ hq).holds hx).imp_right fun ⟨r, hr, hheld⟩ => ⟨r, hr, hcomp.tail hheld⟩

/-- What a copy comprises is a leaf of the source, or a copy. -/
theorem exists_original_of_comprises (hleaf : ∀ {o}, source.Leaf o → h.Leaf o)
    (hq : h.Comprises p q) (hR : R o p) : source.Leaf q ∨ ∃ x, R x q := by
  induction hq with
  | refl => exact .inr ⟨o, hR⟩
  | tail _ hq ih =>
    obtain hl | ⟨x, hx⟩ := ih
    · exact absurd hq (hleaf hl).not_holds
    · exact (hdup _ _ hx).held hq

/-! ## Unfoldings -/

theorem Becomes.children (hb : Becomes source R v w) :
    List.Forall₂ (Becomes source R) (source.children v) (h.children w) := by
  cases hb with
  | leaf hleaf =>
    cases v with
    | list id | map id => cases hleaf _ rfl
    | _ => exact .nil
  | copy ho hp hR =>
    cases hdup _ _ hR with
    | list hc helem hfixed hitems =>
      cases v <;> cases ho
      cases w <;> cases hp
      rw [Heap.children, Heap.children, list_of_cell hc]
      exact hitems
    | map hc hkey hvalue hkeys hvalues =>
      cases v <;> cases ho
      cases w <;> cases hp
      rw [Heap.children, Heap.children, map_of_cell hc]
      exact hvalues
    | struct =>
      cases v <;> cases ho
      cases w <;> cases hp
      exact .nil

/-- A path leads in the copy to what becomes of what it leads to in the original. -/
theorem Becomes.at? (hb : Becomes source R v w) (path : List Nat) :
    Option.Rel (Becomes source R) (source.at? path v) (h.at? path w) := by
  induction path generalizing v w with
  | nil => exact .some hb
  | cons i path ih =>
    have hrel := rel_getElem? (hb.children hdup) i
    rw [at?_cons, at?_cons]
    generalize (source.children v)[i]? = a at hrel ⊢
    generalize (h.children w)[i]? = b at hrel ⊢
    cases hrel with
    | none => exact .none
    | some hb => exact ih hb

/-- If no struct is copied, original and copy look the same. -/
theorem Becomes.sight_eq (hplain : ∀ {id p}, ¬ R (.handle id) p) (hb : Becomes source R v w) :
    source.sight v = h.sight w ∧ (h.ShowsNaN w → source.ShowsNaN v) := by
  cases hb with
  | leaf hleaf =>
    cases v with
    | list id | map id => cases hleaf _ rfl
    | _ => exact ⟨rfl, id⟩
  | copy ho hp hR =>
    cases hdup _ _ hR with
    | list hc helem hfixed hitems =>
      cases v <;> cases ho
      cases w <;> cases hp
      rw [sight, sight, list_of_cell hc]
      exact ⟨congrArg Sight.list hitems.length_eq, id⟩
    | map hc hkey hvalue hkeys hvalues =>
      cases v <;> cases ho
      cases w <;> cases hp
      have hsame {a b : MapCell} (he : b.entries.map (·.1) = a.entries.map (·.1)) :
          b.keys = a.keys := by
        have hkeys := congrArg (List.map MapKey.toValue) he
        rwa [List.map_map, List.map_map] at hkeys
      rw [sight, sight, ShowsNaN, ShowsNaN, map_of_cell hc, hsame hkeys]
      exact ⟨rfl, id⟩
    | struct => exact absurd hR hplain

theorem Becomes.unfolding_eq (hplain : ∀ {id p}, ¬ R (.handle id) p) (hb : Becomes source R v w) :
    h.unfolding w = source.unfolding v := by
  funext path
  have hrel := hb.at? hdup path
  rw [unfolding, unfolding]
  generalize source.at? path v = a at hrel ⊢
  generalize h.at? path w = b at hrel ⊢
  cases hrel with
  | none => rfl
  | some hb => exact congrArg some (hb.sight_eq hdup hplain).1.symm

theorem Becomes.nanFree (hplain : ∀ {id p}, ¬ R (.handle id) p) (hb : Becomes source R v w)
    (hv : source.NaNFree v) : h.NaNFree w := by
  intro path y hy hnan
  have hrel := hb.at? hdup path
  rw [hy] at hrel
  generalize hx : source.at? path v = a at hrel
  cases hrel with
  | some hb => exact hv path _ hx ((hb.sight_eq hdup hplain).2 hnan)

end

/-! ## Heaps that agree -/

theorem children_congr (hcell : ∀ o, v.object? = some o → o.isContainer = true → g.cell? o = h.cell? o) :
    g.children v = h.children v ∧ g.sight v = h.sight v := by
  cases v with
  | list id =>
    have hsame := list_congr (hcell _ rfl rfl)
    exact ⟨by rw [children, children, hsame], by rw [sight, sight, hsame]⟩
  | map id =>
    have hsame := map_congr (hcell _ rfl rfl)
    exact ⟨by rw [children, children, hsame], by rw [sight, sight, hsame]⟩
  | _ => exact ⟨rfl, rfl⟩

/-- What is seen of a value depends on the lists and maps only that it leads to. -/
theorem unfolding_congr {P : Zone} (hP : ∀ o x, P o → h.Holds o x → P x)
    (hcell : ∀ o, P o → o.isContainer = true → g.cell? o = h.cell? o) (hv : v.In P) :
    g.unfolding v = h.unfolding v := by
  funext path
  induction path generalizing v with
  | nil => exact congrArg some (children_congr fun o ho => hcell o (hv o ho)).2
  | cons i path ih =>
    simp only [unfolding, at?_cons] at ih ⊢
    rw [(children_congr fun o ho => hcell o (hv o ho)).1]
    cases hx : (h.children v)[i]? with
    | none => rfl
    | some x =>
      refine ih fun o ho => ?_
      have hmem := List.mem_of_getElem? hx
      cases v with
      | list id => exact hP _ _ (hv _ rfl) (holds_item hmem ho)
      | map id => exact hP _ _ (hv _ rfl) (holds_entry hmem ho)
      | _ => cases hmem

end ScriptEngine.Heap
