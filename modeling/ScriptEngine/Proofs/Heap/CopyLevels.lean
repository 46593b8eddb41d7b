import ScriptEngine.Proofs.Heap.Copying

/-! # How deep copying goes

Copying ends exactly if no struct stands inside itself (`Heap.exists_copy_iff`).  A list or a map that
is met again has its copy already, so between two structs each of them is entered at most once.  Of
structs nothing is remembered: one that stands inside itself is copied inside its own copy, and so on.

The levels that copying goes down are bounded by what is left to be entered.
-/
namespace ScriptEngine.Heap
variable {source h h' : Heap} {fuel fuel' : Nat} {memo memo' : Copies} {v w : Value} {o : Object}
variable {path : Finset HandleId}
variable {r : Value × Heap × Copies} {copyItem copyItem' : Heap → Copies → Value → Option (Value × Heap × Copies)}

/-! ## More levels -/

theorem copyItems_mono
    (hitem : ∀ {h memo v r}, copyItem h memo v = some r → copyItem' h memo v = some r)
    {vs ws : List Value} (hc : copyItems copyItem h memo vs = some (ws, h', memo')) :
    copyItems copyItem' h memo vs = some (ws, h', memo') := by
  induction vs generalizing h memo ws with
  | nil => exact hc
  | cons v rest ih =>
    obtain ⟨w, h₁, memo₁, ws', hv, hrest, rfl⟩ := copyItems_cons.mp hc
    exact copyItems_cons.mpr ⟨w, h₁, memo₁, ws', hitem hv, ih hrest, rfl⟩

/-- More levels do not change a copy. -/
theorem copy_mono (hc : copy? source fuel h memo v = some r) (hle : fuel ≤ fuel') :
    copy? source fuel' h memo v = some r := by
  induction fuel generalizing fuel' h memo v r with
  | zero => cases hc
  | succ fuel ih =>
    obtain ⟨fuel', rfl⟩ := Nat.exists_eq_add_of_lt (Nat.lt_of_succ_le hle)
    have hitem {h : Heap} {memo : Copies} {v : Value} {r : Value × Heap × Copies}
        (hc : copy? source fuel h memo v = some r) :
        copy? source (fuel + fuel') h memo v = some r :=
      ih hc (Nat.le_add_right _ _)
    rw [copy_succ_iff] at hc ⊢
    cases hc with
    | leaf hv => exact .leaf hv
    | listAgain hl => exact .listAgain hl
    | list hl hitems => exact .list hl (copyItems_mono hitem hitems)
    | mapAgain hm => exact .mapAgain hm
    | map hm hvalues => exact .map hm (copyItems_mono hitem hvalues)
    | struct hc hvalues => exact .struct hc (copyItems_mono hitem hvalues)

/-! ## What has been copied -/

/-- The lists and maps that have been copied. -/
def Copies.copied (memo : Copies) : Finset Object :=
  (memo.lists.map (Object.list ·.1) ++ memo.maps.map (Object.map ·.1)).toFinset

theorem Copies.list_mem_copied {id : ListId} :
    .list id ∈ memo.copied ↔ (memo.lists.lookup id).isSome = true := by
  simp [copied]

theorem Copies.map_mem_copied {id : MapId} :
    .map id ∈ memo.copied ↔ (memo.maps.lookup id).isSome = true := by
  simp [copied]

theorem Copies.isContainer_of_mem (ho : o ∈ memo.copied) : o.isContainer = true := by
  simp only [copied, List.mem_toFinset, List.mem_append, List.mem_map] at ho
  obtain ⟨p, -, rfl⟩ | ⟨p, -, rfl⟩ := ho <;> rfl

@[simp] theorem Copies.copied_empty : Copies.copied {} = ∅ := rfl

@[simp] theorem Copies.copied_list (memo : Copies) (id copy : ListId) :
    Copies.copied { memo with lists := (id, copy) :: memo.lists } = insert (.list id) memo.copied := by
  simp [copied]

@[simp] theorem Copies.copied_map (memo : Copies) (id copy : MapId) :
    Copies.copied { memo with maps := (id, copy) :: memo.maps } = insert (.map id) memo.copied := by
  simp [copied]

/-! ## Levels that are enough -/

theorem exists_copyItems {I : Copies → Prop} {vs : List Value}
    (hitem : ∀ v ∈ vs, ∀ h memo, I memo → ∃ w h' memo',
      copyItem h memo v = some (w, h', memo') ∧ I memo') (h : Heap) (memo : Copies) (hmemo : I memo) :
    ∃ ws h' memo', copyItems copyItem h memo vs = some (ws, h', memo') ∧ I memo' := by
  induction vs generalizing h memo with
  | nil => exact ⟨[], h, memo, rfl, hmemo⟩
  | cons v rest ih =>
    obtain ⟨hv, hrest⟩ := List.forall_mem_cons.mp hitem
    obtain ⟨w, h₁, memo₁, hone, hmemo⟩ := hv h memo hmemo
    obtain ⟨ws, h₂, memo₂, hmore, hmemo⟩ := ih hrest h₁ memo₁ hmemo
    exact ⟨w :: ws, h₂, memo₂, copyItems_cons.mpr ⟨w, h₁, memo₁, ws, hone, hmore, rfl⟩, hmemo⟩

/-- Whatever can be copied is copied on so many levels, if the structs of `path` are not met. -/
def EnoughToCopy (source : Heap) (path : Finset HandleId) (fuel : Nat) : Prop :=
  ∀ (h : Heap) (memo : Copies) {v : Value}, (v.In fun o => source.Founded o ∧ source.Avoids path o) →
    (source.structs \ path).card * (source.containers.card + 2) +
      (source.containers \ memo.copied).card < fuel →
    ∃ w h' memo', copy? source fuel h memo v = some (w, h', memo') ∧ memo.copied ⊆ memo'.copied

/-- Inside a list or a map there is one of them less to enter. -/
theorem EnoughToCopy.items (he : source.EnoughToCopy path fuel) {begun : Copies} {vs : List Value}
    (h : Heap) (ho : source.Founded o ∧ source.Avoids path o)
    (hvs : ∀ y ∈ vs, o ∈ source.containers ∧ ∀ x, y.object? = some x → source.Holds o x)
    (hnew : o ∉ memo.copied) (hbegun : begun.copied = insert o memo.copied)
    (hfuel : (source.structs \ path).card * (source.containers.card + 2) +
      (source.containers \ memo.copied).card ≤ fuel) :
    ∃ ws h' memo', copyItems (copy? source fuel) h begun vs = some (ws, h', memo') ∧
      memo.copied ⊆ memo'.copied := by
  have hsub : memo.copied ⊆ begun.copied := hbegun ▸ Finset.subset_insert _ _
  obtain ⟨ws, h', memo', hc, hle⟩ := exists_copyItems (I := fun memo => begun.copied ⊆ memo.copied)
    (fun y hy h m hm => by
      obtain ⟨hin, hheld⟩ := hvs y hy
      have hless := card_sdiff_insert_lt hin hnew
      have hle := Finset.card_le_card
        (Finset.sdiff_subset_sdiff (Finset.Subset.refl source.containers) hm)
      rw [hbegun] at hle
      obtain ⟨w, h', m', hc, hsub⟩ := he h m
        (fun x hx => ⟨ho.1.held (hheld x hx), ho.2.held (hheld x hx)⟩) (by omega)
      exact ⟨w, h', m', hc, hm.trans hsub⟩) h begun (Finset.Subset.refl _)
  exact ⟨ws, h', memo', hc, hsub.trans hle⟩

/-- Inside a struct there is one struct less left to enter, but every list and map may be entered
again. -/
theorem EnoughToCopy.fields {id : HandleId} {c : StructCell}
    (he : source.EnoughToCopy (insert id path) fuel) (h : Heap) (hc : source.handle id = .struct c)
    (ho : source.Founded (.handle id) ∧ source.Avoids path (.handle id))
    (hfuel : (source.structs \ path).card * (source.containers.card + 2) ≤ fuel) :
    ∃ ws h' memo', copyItems (fun h _ v => copy? source fuel h {} v) h {} c.values =
      some (ws, h', memo') := by
  have hfield : ∀ y ∈ c.values, ∀ (h : Heap) (_ : Copies), True → ∃ w h' m',
      copy? source fuel h {} y = some (w, h', m') ∧ True := by
    intro y hy h m _
    have hless := card_sdiff_insert_lt (mem_structs_of_field hc hy) fun hid => ho.2 id hid .refl
    have hmore := Nat.mul_le_mul_right (source.containers.card + 2) (Nat.succ_le_of_lt hless)
    rw [Nat.succ_mul] at hmore
    have hall := Finset.card_le_card (Finset.sdiff_subset (s := source.containers)
      (t := Copies.copied {}))
    obtain ⟨w, h', m', hcopy, -⟩ := he h {} (fun x hx => ⟨ho.1.held (holds_field hc hy hx),
      ho.2.insert ho.1 (holds_field hc hy hx)⟩) (by omega)
    exact ⟨w, h', m', hcopy, trivial⟩
  obtain ⟨ws, h', memo', hcopy, -⟩ := exists_copyItems hfield h {} trivial
  exact ⟨ws, h', memo', hcopy⟩

/-- **With enough levels there is a copy.**  Of the structs that are not in `path` each may be entered
once, and inside of it every list and map once. -/
theorem enoughToCopy (source : Heap) (path : Finset HandleId) (fuel : Nat) :
    source.EnoughToCopy path fuel := by
  induction fuel generalizing path with
  | zero => exact fun _ _ _ _ => nofun
  | succ fuel ih =>
    intro h memo v hv hfuel
    have hend {r : Value × Heap × Copies} (hs : CopyStep source (copy? source fuel) h memo v r)
        (hle : memo.copied ⊆ r.2.2.copied) : ∃ w h' memo',
          copy? source (fuel + 1) h memo v = some (w, h', memo') ∧ memo.copied ⊆ memo'.copied :=
      ⟨r.1, r.2.1, r.2.2, copy_succ_iff.mpr hs, hle⟩
    cases v with
    | list id =>
      cases hl : memo.lists.lookup id with
      | some copy => exact hend (.listAgain hl) (Finset.Subset.refl _)
      | none =>
        have hnew : .list id ∉ memo.copied := by rw [Copies.list_mem_copied, hl]; exact Bool.noConfusion
        obtain ⟨items, h₁, memo₁, hitems, hsub⟩ := (ih path).items
          (h.addList { source.list id with items := #[] }).2 (hv _ rfl)
          (fun _ hy => ⟨mem_containers_of_item hy, fun _ => holds_item hy⟩) hnew
          (memo.copied_list id h.lists.next) (Nat.le_of_lt_succ hfuel)
        exact hend (.list hl hitems) hsub
    | map id =>
      cases hm : memo.maps.lookup id with
      | some copy => exact hend (.mapAgain hm) (Finset.Subset.refl _)
      | none =>
        have hnew : .map id ∉ memo.copied := by rw [Copies.map_mem_copied, hm]; exact Bool.noConfusion
        obtain ⟨values, h₁, memo₁, hvalues, hsub⟩ := (ih path).items
          (h.addMap { source.map id with entries := [] }).2 (hv _ rfl)
          (fun _ hy => ⟨mem_containers_of_entry hy, fun _ => holds_entry hy⟩) hnew
          (memo.copied_map id h.maps.next) (Nat.le_of_lt_succ hfuel)
        exact hend (.map hm hvalues) hsub
    | handle id =>
      cases hc : source.handle id with
      | token name =>
        exact hend (.leaf (Value.in_handle.mpr (by rw [Leaf, hc, Handle.isStruct])))
          (Finset.Subset.refl _)
      | struct c =>
        obtain ⟨values, h₁, m₁, hvalues⟩ :=
          (ih (insert id path)).fields h hc (hv _ rfl) (by omega)
        exact hend (.struct hc hvalues) (Finset.Subset.refl _)
    | func id => exact hend (.leaf (Value.in_func.mpr trivial)) (Finset.Subset.refl _)
    | chan id => exact hend (.leaf (Value.in_chan.mpr trivial)) (Finset.Subset.refl _)
    | nil | bool _ | int _ | float _ | str _ =>
      exact hend (.leaf (Value.in_scalar rfl)) (Finset.Subset.refl _)

/-! ## What ends is founded -/

/-- The object has been copied, or can be. -/
def Known (source : Heap) (memo : Copies) (o : Object) : Prop :=
  o ∈ memo.copied ∨ source.Founded o

/-- What stands in the lists and maps that have been copied since is known. -/
structure Settles (source : Heap) (memo memo' : Copies) : Prop where
  subset : memo.copied ⊆ memo'.copied
  known : ∀ o ∈ memo'.copied, o ∈ memo.copied ∨ ∀ x, source.Holds o x → source.Known memo' x

theorem Known.mono (ho : source.Known memo o) (hsub : memo.copied ⊆ memo'.copied) :
    source.Known memo' o :=
  ho.imp_left fun ho => hsub ho

theorem Settles.refl (memo : Copies) : source.Settles memo memo :=
  ⟨Finset.Subset.refl _, fun _ ho => .inl ho⟩

theorem Settles.trans {memo'' : Copies} (hs : source.Settles memo memo')
    (hs' : source.Settles memo' memo'') : source.Settles memo memo'' where
  subset := hs.subset.trans hs'.subset
  known o ho := by
    obtain ho | hx := hs'.known o ho
    · exact (hs.known o ho).imp_right fun hx x hheld => (hx x hheld).mono hs'.subset
    · exact .inr hx

theorem settles_copyItems
    (hitem : ∀ {h memo v r}, copyItem h memo v = some r →
      source.Settles memo r.2.2 ∧ v.In (source.Known r.2.2))
    {vs ws : List Value} (hc : copyItems copyItem h memo vs = some (ws, h', memo')) :
    source.Settles memo memo' ∧ ∀ v ∈ vs, v.In (source.Known memo') := by
  induction vs generalizing h memo ws with
  | nil =>
    cases hc
    exact ⟨.refl _, nofun⟩
  | cons v rest ih =>
    obtain ⟨w, h₁, memo₁, ws', hv, hrest, rfl⟩ := copyItems_cons.mp hc
    obtain ⟨hs, hin⟩ := hitem hv
    obtain ⟨hs', hins⟩ := ih hrest
    exact ⟨hs.trans hs', List.forall_mem_cons.mpr ⟨fun o ho => (hin o ho).mono hs'.subset, hins⟩⟩

/-- A list or a map that is entered has been copied in the end. -/
theorem Settles.enter {begun : Copies} (hs : source.Settles begun memo')
    (hbegun : begun.copied = insert o memo.copied)
    (hin : ∀ x, source.Holds o x → source.Known memo' x) :
    source.Settles memo memo' ∧ source.Known memo' o := by
  have hsub := hbegun ▸ hs.subset
  refine ⟨⟨(Finset.subset_insert _ _).trans hsub, fun x hx => ?_⟩, .inl (hsub (Finset.mem_insert_self _ _))⟩
  obtain hx | hx := hs.known x hx
  · obtain rfl | hx := Finset.mem_insert.mp (hbegun ▸ hx)
    · exact .inr hin
    · exact .inl hx
  · exact .inr hx

theorem copyItems_forall {Q : Value → Prop} (hitem : ∀ {h memo v r}, copyItem h memo v = some r → Q v)
    {vs ws : List Value} (hc : copyItems copyItem h memo vs = some (ws, h', memo')) :
    ∀ v ∈ vs, Q v := by
  induction vs generalizing h memo ws with
  | nil => exact nofun
  | cons v rest ih =>
    obtain ⟨w, h₁, memo₁, ws', hv, hrest, rfl⟩ := copyItems_cons.mp hc
    exact List.forall_mem_cons.mpr ⟨hitem hv, ih hrest⟩

/-- If everything that has been copied is settled, then it is founded. -/
theorem Settles.founded (hs : source.Settles {} memo) (ho : source.Known memo o) :
    source.Founded o := by
  refine founded_of_closed (P := source.Known memo) (fun o ho => ?_) ho
  obtain ho | ho := ho
  · obtain hnone | hin := hs.known o ho
    · cases hnone
    · exact .inr ⟨Copies.isContainer_of_mem ho, hin⟩
  · exact .inl ho

theorem settles_copy (hc : copy? source fuel h memo v = some r) :
    source.Settles memo r.2.2 ∧ v.In (source.Known r.2.2) := by
  induction fuel generalizing h memo v r with
  | zero => cases hc
  | succ fuel ih =>
    have hall {h h' : Heap} {memo memo' : Copies} {vs ws : List Value}
        (hc : copyItems (copy? source fuel) h memo vs = some (ws, h', memo')) :=
      settles_copyItems ih hc
    cases copy_succ_iff.mp hc with
    | leaf hv => exact ⟨.refl _, fun o ho => .inr (hv o ho).founded⟩
    | listAgain hl =>
      refine ⟨.refl _, Value.in_list.mpr (.inl (Copies.list_mem_copied.mpr ?_))⟩
      rw [hl, Option.isSome_some]
    | list hl hitems =>
      obtain ⟨hs, hin⟩ := hall hitems
      obtain ⟨hs, hknown⟩ := hs.enter (memo.copied_list _ _) (Value.forall_objects.mpr hin)
      exact ⟨hs, Value.in_list.mpr hknown⟩
    | mapAgain hm =>
      refine ⟨.refl _, Value.in_map.mpr (.inl (Copies.map_mem_copied.mpr ?_))⟩
      rw [hm, Option.isSome_some]
    | map hm hvalues =>
      obtain ⟨hs, hin⟩ := hall hvalues
      obtain ⟨hs, hknown⟩ := hs.enter (memo.copied_map _ _) (Value.forall_objects.mpr hin)
      exact ⟨hs, Value.in_map.mpr hknown⟩
    | struct hstruct hvalues =>
      -- The copy of a field begins with nothing copied, so whatever is known in the end is founded.
      have hfields := copyItems_forall (Q := fun y => y.In source.Founded)
        (fun hc o ho => (ih hc).1.founded ((ih hc).2 o ho)) hvalues
      refine ⟨.refl _, Value.in_handle.mpr (.inr (founded_struct fun x hx => ?_))⟩
      rw [Holds, contents, hstruct] at hx
      exact Value.forall_objects.mpr hfields x hx

/-! ## Deep copies -/

/-- **Copying a value ends exactly if no struct stands inside itself.** -/
theorem exists_copy_iff : (∃ fuel r, copy? source fuel h {} v = some r) ↔ v.In source.Founded := by
  constructor
  · rintro ⟨fuel, r, hc⟩ o ho
    obtain ⟨hs, hin⟩ := settles_copy hc
    exact hs.founded (hin o ho)
  · intro hv
    obtain ⟨w, h', memo', hc, -⟩ := enoughToCopy source ∅ _ h {}
      (fun o ho => ⟨hv o ho, nofun⟩) (Nat.lt_succ_self _)
    exact ⟨_, _, hc⟩

/-- Structs that are not met are not entered. -/
theorem copy_eq_deepCopy (path : Finset HandleId) (hv : v.In fun o => h.Founded o ∧ h.Avoids path o)
    (hfuel : (h.structs \ path).card * (h.containers.card + 2) + h.containers.card < fuel) :
    ∃ memo, copy? h fuel h {} v = some ((h.deepCopy v).1, (h.deepCopy v).2, memo) := by
  have hcontainers := h.card_containers_le
  have hstructs := Nat.mul_le_mul_right (h.containers.card + 2)
    (Finset.card_le_card (Finset.sdiff_subset (s := h.structs) (t := path)))
  have hlevels : (h.structs \ path).card * (h.containers.card + 2) + h.containers.card <
      h.copyLevels := by
    have hle := Nat.mul_le_mul (Nat.add_le_add_right hcontainers 2)
      (Nat.add_le_add_right h.card_structs_le 2)
    rw [Nat.mul_add, Nat.mul_comm _ h.structs.card] at hle
    unfold copyLevels
    omega
  have hsdiff : (h.containers \ Copies.copied {}).card = h.containers.card := by
    rw [Copies.copied_empty, Finset.sdiff_empty]
  obtain ⟨w, h', memo, hc, -⟩ := enoughToCopy h path fuel h {} hv (hsdiff ▸ hfuel)
  obtain ⟨w', h'', memo', hc', -⟩ := enoughToCopy h path h.copyLevels h {} hv (hsdiff ▸ hlevels)
  have hmax := copy_mono hc (Nat.le_max_left fuel h.copyLevels)
  have hsame := hmax.symm.trans (copy_mono hc' (Nat.le_max_right fuel h.copyLevels))
  cases hsame
  refine ⟨memo, ?_⟩
  rw [deepCopy, hc']
  exact hc

end ScriptEngine.Heap
