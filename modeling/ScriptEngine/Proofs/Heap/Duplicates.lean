import ScriptEngine.Proofs.Heap.CopyLevels
import ScriptEngine.Scope

/-! # What copying adds to the heap

A deep copy consists of new objects; what was there before stays as it is.  What of the original the
copy still refers to is what copying leaves alone: functions, channels, tokens, and the scopes around
a scope (`Heap.sharedBy`).  Copying **gains** objects of a zone (`Heap.Gains`) if all that it leaves
alone is in the zone.

A scope can be copied unless a struct or a package stands inside itself (`Heap.Copyable`).
-/
namespace ScriptEngine

namespace Heap
variable {Z : Zone} {h h' h'' source : Heap} {o o' x : Object} {v w : Value} {memo memo' : Copies}

/-! ## Scopes -/

/-- Copying items leaves scopes alone if copying one does. -/
theorem scopes_copyItems {copyItem : Heap → Copies → Value → Option (Value × Heap × Copies)}
    (hcopy : ∀ {h memo v r}, copyItem h memo v = some r → r.2.1.scopes = h.scopes)
    {vs ws : List Value} (hc : copyItems copyItem h memo vs = some (ws, h', memo')) :
    h'.scopes = h.scopes := by
  induction vs generalizing h memo ws with
  | nil =>
    cases hc
    rfl
  | cons v rest ih =>
    obtain ⟨w, h₁, memo₁, ws', hv, hrest, rfl⟩ := copyItems_cons.mp hc
    exact (ih hrest).trans (hcopy hv)

theorem scopes_copy {r : Value × Heap × Copies} (fuel : Nat)
    (hc : copy? source fuel h memo v = some r) : r.2.1.scopes = h.scopes := by
  induction fuel generalizing h memo v r with
  | zero => cases hc
  | succ fuel ih =>
    cases copy_succ_iff.mp hc with
    | leaf _ | listAgain _ | mapAgain _ => rfl
    | list _ hitems => exact (scopes_copyItems ih hitems :)
    | map _ hvalues => exact (scopes_copyItems ih hvalues :)
    | struct _ hvalues => exact (scopes_copyItems ih hvalues :)

theorem scopes_deepCopy (h : Heap) (v : Value) : (h.deepCopy v).2.scopes = h.scopes := by
  unfold deepCopy
  split
  · exact scopes_copy _ ‹_›
  · rfl

theorem scopes_copyVars (h : Heap) (vars : List (String × Value)) :
    (copyVars h vars).2.scopes = h.scopes := by
  induction vars generalizing h with
  | nil => rfl
  | cons var rest ih => exact (ih _).trans (scopes_deepCopy h var.2)

/-! ## What is copied, and what is shared -/

/-- **The object can be copied**: whatever one comes across has been made, and only lists and maps
stand inside themselves. -/
structure Copyable (h : Heap) (o : Object) : Prop where
  made : ∀ o', h.Comprises o o' → ¬ h.Unused o'
  grounded : ∀ o', h.Comprises o o' → Relation.TransGen h.Holds o' o' →
    (∃ id, o' = .list id) ∨ ∃ id, o' = .map id

/-- What the object and a copy of it have in common is in the zone. -/
def Sheds (Z : Zone) (h : Heap) (o : Object) : Prop :=
  ∀ o', h.Comprises o o' → ∀ x ∈ h.sharedBy o', Z x

theorem Copyable.founded (hc : h.Copyable o) : h.Founded o := by
  intro id hid hself
  obtain ⟨_, hlist⟩ | ⟨_, hmap⟩ := hc.grounded _ hid hself
  · cases hlist
  · cases hmap

theorem Copyable.comprised (hc : h.Copyable o) (ho : h.Comprises o o') : h.Copyable o' :=
  ⟨fun x hx => hc.made x (ho.trans hx), fun x hx => hc.grounded x (ho.trans hx)⟩

theorem Copyable.held (hc : h.Copyable o) (ho : h.Holds o o') : h.Copyable o' :=
  hc.comprised (.single ho)

theorem Sheds.held (hs : Sheds Z h o) (ho : h.Holds o o') : Sheds Z h o' :=
  fun x hx => hs x (.head ho hx)

/-- What stands in an object of the zone is in the zone. -/
theorem Encloses.contents (hz : h.Encloses Z) (ho : Z o) : ∀ x ∈ h.contents o, Z x := by
  cases o with
  | list id => exact Value.forall_objects.mpr (hz.items ho)
  | map id => exact Value.forall_objects.mpr (List.forall_mem_map.mpr (hz.entries ho))
  | handle id => exact hz.handle ho
  | scope id => exact fun x hx => hz.scope ho x (List.mem_append_left _ hx)
  | func id | chan id => exact nofun

theorem Encloses.sharedBy (hz : h.Encloses Z) (ho : Z o) : ∀ x ∈ h.sharedBy o, Z x := by
  cases o with
  | list id | map id => exact nofun
  | func id | chan id => exact List.forall_mem_singleton.mpr ho
  | handle id =>
    simp only [Heap.sharedBy]
    split
    · exact List.forall_mem_singleton.mpr ho
    · exact nofun
  | scope id => exact fun x hx => hz.scope ho x (List.mem_append_right _ hx)

/-- Copies of what is in the zone have nothing outside. -/
theorem Encloses.sheds (hz : h.Encloses Z) (ho : Z o) : Sheds Z h o := by
  have hmet {x : Object} (hx : h.Comprises o x) : Z x := by
    induction hx with
    | refl => exact ho
    | tail _ hx ih => exact hz.contents ih _ hx
  exact fun o' ho' => hz.sharedBy (hmet ho')

/-! ## New objects -/

/-- **There are new objects, and what refers to them is in the zone**; all others are as they were. -/
structure Gains (Z : Zone) (h h' : Heap) : Prop where
  kept : ∀ o, ¬ h.Unused o → h'.cell? o = h.cell? o
  unused : ∀ o, h'.Unused o → h.Unused o
  encloses : h'.Encloses Z

theorem Encloses.gains (hz : h.Encloses Z) : h.Gains Z h := ⟨fun _ _ => rfl, fun _ ho => ho, hz⟩

theorem Gains.trans (hg : h.Gains Z h') (hg' : h'.Gains Z h'') : h.Gains Z h'' where
  kept o ho := (hg'.kept o fun hunused => ho (hg.unused o hunused)).trans (hg.kept o ho)
  unused o ho := hg.unused o (hg'.unused o ho)
  encloses := hg'.encloses

/-- A change of an object that was not there before. -/
theorem Gains.put (hg : h.Gains Z h') (hx : h.Unused x) {d : Option Cell}
    (hcell : ∀ o, h''.cell? o = if o = x then d else h'.cell? o)
    (hunused : ∀ o, h''.Unused o → h'.Unused o) (hz : h''.Encloses Z) : h.Gains Z h'' where
  kept o ho := by
    have hne : o ≠ x := fun he => ho (he ▸ hx)
    rw [hcell, if_neg hne, hg.kept o ho]
  unused o ho := hg.unused o (hunused o ho)
  encloses := hz

theorem Gains.addList (hg : h.Gains Z h') {c : ListCell} (hc : ∀ v ∈ c.items.toList, v.In Z) :
    h.Gains Z (h'.addList c).2 := by
  refine hg.put (hg.unused (.list _) (Nat.le_refl _)) (cell?_addList c) (fun o ho => ?_)
    (hg.encloses.addList hc).1.encloses
  cases o <;> first | exact ho | exact Store.le_of_push ho

theorem Gains.addMap (hg : h.Gains Z h') {c : MapCell} (hc : ∀ e ∈ c.entries, e.2.In Z) :
    h.Gains Z (h'.addMap c).2 := by
  refine hg.put (hg.unused (.map _) (Nat.le_refl _)) (cell?_addMap c) (fun o ho => ?_)
    (hg.encloses.addMap hc).1.encloses
  cases o <;> first | exact ho | exact Store.le_of_push ho

theorem Gains.addHandle (hg : h.Gains Z h') {c : Handle} (hc : ∀ o ∈ c.objects, Z o) :
    h.Gains Z (h'.addHandle c).2 := by
  refine hg.put (hg.unused (.handle _) (Nat.le_refl _)) (cell?_addHandle c) (fun o ho => ?_)
    (hg.encloses.addHandle hc).1.encloses
  cases o <;> first | exact ho | exact Store.le_of_push ho

theorem Gains.addScope (hg : h.Gains Z h') {c : Scope} (hc : ∀ o ∈ c.objects, Z o) :
    h.Gains Z { h' with scopes := h'.scopes.push c } := by
  have hcell (o : Object) : cell? { h' with scopes := h'.scopes.push c } o =
      if o = .scope h'.scopes.next then some (.scope c) else h'.cell? o := by
    cases o <;> simp [cell?, Store.get?_push_eq, apply_ite (Option.map Cell.scope)]
  have hunused (o : Object) (ho : Unused { h' with scopes := h'.scopes.push c } o) :
      h'.Unused o := by
    cases o <;> first | exact ho | exact Store.le_of_push ho
  refine hg.put (hg.unused (.scope _) (Nat.le_refl _)) hcell hunused ?_
  exact hg.encloses.put hcell (fun d hd => by cases hd; exact hc) hunused

/-- The list gets its items after it has been made. -/
theorem Gains.modifyList (hg : h.Gains Z h') {id : ListId} {f : ListCell → ListCell}
    (hid : h.Unused (.list id)) (hz : Z (.list id)) (hf : ∀ c, ∀ v ∈ (f c).items.toList, v.In Z) :
    h.Gains Z (h'.modifyList id f) := by
  refine hg.put hid (cell?_modifyList id f) (fun o ho => ?_)
    (hg.encloses.modifyList hz fun c _ _ => hf c).encloses
  cases o <;> simpa [Unused, Heap.modifyList] using ho

theorem Gains.modifyMap (hg : h.Gains Z h') {id : MapId} {f : MapCell → MapCell}
    (hid : h.Unused (.map id)) (hz : Z (.map id)) (hf : ∀ c, ∀ e ∈ (f c).entries, e.2.In Z) :
    h.Gains Z (h'.modifyMap id f) := by
  refine hg.put hid (cell?_modifyMap id f) (fun o ho => ?_)
    (hg.encloses.modifyMap hz fun c _ _ => hf c).encloses
  cases o <;> simpa [Unused, Heap.modifyMap] using ho

/-! ## Objects that stay can still be copied -/

theorem Gains.contents_eq (hg : h.Gains Z h') (ho : ¬ h.Unused o) :
    h'.contents o = h.contents o ∧ h'.sharedBy o = h.sharedBy o := by
  have hkept := hg.kept o ho
  cases o with
  | list id =>
    have hsame := list_congr hkept
    exact ⟨by rw [contents, contents, hsame], rfl⟩
  | map id =>
    have hsame := map_congr hkept
    exact ⟨by rw [contents, contents, hsame], rfl⟩
  | handle id =>
    have hsame := handle_congr hkept
    exact ⟨by rw [contents, contents, hsame], by rw [sharedBy, sharedBy, hsame]⟩
  | scope id =>
    have hsame := scope_congr hkept
    exact ⟨by rw [contents, contents, hsame], by rw [sharedBy, sharedBy, hsame]⟩
  | func id | chan id => exact ⟨rfl, rfl⟩

section
variable (hc : h.Copyable o) (hg : h.Gains Z h')
include hc hg

theorem Copyable.comprises_of_gains (ho : h'.Comprises o o') : h.Comprises o o' := by
  induction ho with
  | refl => exact .refl
  | tail _ hx ih =>
    rw [Holds, (hg.contents_eq (hc.made _ ih)).1] at hx
    exact ih.tail hx

theorem Copyable.gains : h'.Copyable o where
  made o' ho' hunused := hc.made o' (hc.comprises_of_gains hg ho') (hg.unused o' hunused)
  grounded o' ho' hinside := by
    have hold := hc.comprises_of_gains hg ho'
    have hlonger {x : Object} (hx : Relation.TransGen h'.Holds o' x) :
        Relation.TransGen h.Holds o' x := by
      induction hx with
      | single hx =>
        rw [Holds, (hg.contents_eq (hc.made _ hold)).1] at hx
        exact .single hx
      | tail _ hx ih =>
        rw [Holds, (hg.contents_eq (hc.made _ (hold.trans ih.to_reflTransGen))).1] at hx
        exact ih.tail hx
    exact hc.grounded o' hold (hlonger hinside)

theorem Sheds.gains (hs : Sheds Z h o) : Sheds Z h' o := by
  intro o' ho' x hx
  have hold := hc.comprises_of_gains hg ho'
  rw [(hg.contents_eq (hc.made _ hold)).2] at hx
  exact hs o' hold x hx

end

/-! ## Copying values -/

/-- Every copy that has been made is in the zone. -/
structure Copies.In (Z : Zone) (memo : Copies) : Prop where
  lists : ∀ id copy, memo.lists.lookup id = some copy → Z (.list copy)
  maps : ∀ id copy, memo.maps.lookup id = some copy → Z (.map copy)

theorem Copies.In.empty : Copies.In Z {} := by
  constructor <;> intro id copy hc <;> cases hc

/-- Copies of such values are in the zone, and so is all that is made for them. -/
def CopiesInto (Z : Zone) (P : Value → Prop)
    (copyItem : Heap → Copies → Value → Option (Value × Heap × Copies)) : Prop :=
  ∀ {h h' : Heap} {memo memo' : Copies} {v w : Value}, P v → h.Encloses Z → memo.In Z →
    copyItem h memo v = some (w, h', memo') → h.Gains Z h' ∧ w.In Z ∧ memo'.In Z

theorem copiesInto_copyItems {P : Value → Prop}
    {copyItem : Heap → Copies → Value → Option (Value × Heap × Copies)}
    (hitem : CopiesInto Z P copyItem) {vs ws : List Value} (hvs : ∀ v ∈ vs, P v)
    (hz : h.Encloses Z) (hmemo : memo.In Z)
    (hc : copyItems copyItem h memo vs = some (ws, h', memo')) :
    h.Gains Z h' ∧ (∀ w ∈ ws, w.In Z) ∧ memo'.In Z := by
  induction vs generalizing h memo ws with
  | nil =>
    cases hc
    exact ⟨hz.gains, nofun, hmemo⟩
  | cons v rest ih =>
    obtain ⟨hv, hrest⟩ := List.forall_mem_cons.mp hvs
    obtain ⟨w, h₁, memo₁, ws', hone, hmore, rfl⟩ := copyItems_cons.mp hc
    obtain ⟨hgains, hw, hmemo⟩ := hitem hv hz hmemo hone
    obtain ⟨hgains', hws, hmemo⟩ := ih hrest hgains.encloses hmemo hmore
    exact ⟨hgains.trans hgains', List.forall_mem_cons.mpr ⟨hw, hws⟩, hmemo⟩

theorem Copies.In.list {id copy : Nat} (hm : memo.In Z) (hcopy : Z (.list copy)) :
    Copies.In Z { memo with lists := (id, copy) :: memo.lists } where
  lists other c hc := by
    obtain ⟨-, rfl⟩ | hc := lookup_of_cons hc
    · exact hcopy
    · exact hm.lists other c hc
  maps := hm.maps

theorem Copies.In.map {id copy : Nat} (hm : memo.In Z) (hcopy : Z (.map copy)) :
    Copies.In Z { memo with maps := (id, copy) :: memo.maps } where
  lists := hm.lists
  maps other c hc := by
    obtain ⟨-, rfl⟩ | hc := lookup_of_cons hc
    · exact hcopy
    · exact hm.maps other c hc

/-- What a value shares with its copy, if it is not copied at all. -/
theorem Sheds.shared (hs : Sheds Z h o) (hx : x ∈ h.sharedBy o) : Z x := hs o .refl x hx

/-- **A copy is in the zone if what it shares with the original is.** -/
theorem copiesInto_copy (source : Heap) (fuel : Nat) :
    CopiesInto Z (fun v => v.In (Sheds Z source)) (copy? source fuel) := by
  induction fuel with
  | zero => exact fun _ _ _ hc => by cases hc
  | succ fuel ih =>
    intro h h' memo memo' v w hv hz hmemo hc
    have hheld {o : Object} {vs : List Value} (ho : v.object? = some o)
        (hvs : Value.objects vs ⊆ source.contents o) : ∀ v ∈ vs, v.In (Sheds Z source) :=
      Value.forall_objects.mp fun x hx => (hv o ho).held (hvs hx)
    cases copy_succ_iff.mp hc with
    | leaf hleaf =>
      refine ⟨hz.gains, fun o ho => (hv o ho).shared ?_, hmemo⟩
      cases v with
      | func id | chan id =>
        cases ho
        exact List.mem_singleton_self _
      | list id | map id => cases hleaf _ rfl
      | handle id =>
        cases ho
        rw [sharedBy]
        split
        · exact List.mem_singleton_self _
        · rename_i hstruct
          have hleaf := hleaf _ rfl
          rw [Leaf, hstruct] at hleaf
          cases hleaf
      | _ => cases ho
    | listAgain hl => exact ⟨hz.gains, Value.in_list.mpr (hmemo.lists _ _ hl), hmemo⟩
    | @list id _ _ _ _ hitems =>
      have hnew : Z (.list h.lists.next) := hz.unused _ (Nat.le_refl _)
      have hbegin := hz.gains.addList (c := { source.list id with items := #[] }) (by simp)
      obtain ⟨hgains, hin, hmemo⟩ := copiesInto_copyItems ih (hheld rfl fun _ hx => hx)
        hbegin.encloses (hmemo.list hnew) hitems
      refine ⟨(hbegin.trans hgains).modifyList (Nat.le_refl _) hnew fun _ => ?_,
        Value.in_list.mpr hnew, hmemo⟩
      rw [List.toList_toArray]
      exact hin
    | mapAgain hm => exact ⟨hz.gains, Value.in_map.mpr (hmemo.maps _ _ hm), hmemo⟩
    | @map id _ _ _ _ hvalues =>
      have hnew : Z (.map h.maps.next) := hz.unused _ (Nat.le_refl _)
      have hbegin := hz.gains.addMap (c := { source.map id with entries := [] }) (by simp)
      obtain ⟨hgains, hin, hmemo⟩ := copiesInto_copyItems ih (hheld rfl fun _ hx => hx)
        hbegin.encloses (hmemo.map hnew) hvalues
      refine ⟨(hbegin.trans hgains).modifyMap (Nat.le_refl _) hnew fun _ e he => ?_,
        Value.in_map.mpr hnew, hmemo⟩
      exact hin _ (List.of_mem_zip he).2
    | @struct _ c values _ _ hstruct hvalues =>
      have hfields : ∀ v ∈ c.values, v.In (Sheds Z source) :=
        fun y hy o ho => (hv _ rfl).held (holds_field hstruct hy ho)
      obtain ⟨hgains, hin, -⟩ := copiesInto_copyItems
        (fun hv hz _ hc => ih hv hz .empty hc) hfields hz .empty hvalues
      have hobjects : ∀ o ∈ (Handle.struct { c with values }).objects, Z o :=
        Value.forall_objects.mpr hin
      exact ⟨hgains.addHandle hobjects, (hgains.encloses.addHandle hobjects).2, hmemo⟩

/-- What can be copied is copied. -/
theorem gains_deepCopy (hz : h.Encloses Z) (hv : v.In h.Copyable) (hs : v.In (Sheds Z h)) :
    h.Gains Z (h.deepCopy v).2 ∧ (h.deepCopy v).1.In Z := by
  obtain ⟨memo, hc⟩ := copy_eq_deepCopy ∅ (fun o ho => ⟨(hv o ho).founded, nofun⟩)
    (Nat.lt_succ_self _)
  obtain ⟨hgains, hw, -⟩ := copiesInto_copy h _ hs hz .empty hc
  exact ⟨hgains, hw⟩

/-- A copy of something in the zone, if there is one, is in the zone. -/
theorem stays_deepCopy (hz : h.Encloses Z) (hv : v.In Z) :
    h.Stays Z (h.deepCopy v).2 ∧ (h.deepCopy v).1.In Z := by
  have hscopes := scopes_deepCopy h v
  revert hscopes
  unfold deepCopy
  split
  · rename_i w h' memo' hc
    intro hscopes
    obtain ⟨hgains, hw, -⟩ :=
      copiesInto_copy h h.copyLevels (fun o ho => hz.sheds (hv o ho)) hz .empty hc
    refine ⟨⟨hgains.encloses, fun o ho => hgains.kept o fun hunused => ho (hz.unused o hunused),
      ?_, fun id => ?_⟩, hw⟩
    · rw [hscopes]
    · rw [hscopes]
  · exact fun _ => ⟨hz.stays, hv⟩

/-! ## Copying scopes -/

theorem gains_copyVars {vars : List (String × Value)} (hz : h.Encloses Z)
    (hvars : ∀ var ∈ vars, var.2.In fun o => h.Copyable o ∧ Sheds Z h o) :
    h.Gains Z (copyVars h vars).2 ∧ ∀ var ∈ (copyVars h vars).1, var.2.In Z := by
  induction vars generalizing h with
  | nil => exact ⟨hz.gains, nofun⟩
  | cons var rest ih =>
    obtain ⟨hvar, hrest⟩ := List.forall_mem_cons.mp hvars
    obtain ⟨hgains, hw⟩ :=
      gains_deepCopy hz (fun o ho => (hvar o ho).1) fun o ho => (hvar o ho).2
    obtain ⟨hgains', hws⟩ := ih hgains.encloses fun var hvar o ho =>
      have hold := hrest var hvar o ho
      ⟨hold.1.gains hgains, hold.2.gains hold.1 hgains⟩
    exact ⟨hgains.trans hgains', List.forall_mem_cons.mpr ⟨hw, hws⟩⟩

theorem gains_copyPackages {copyPackage : Heap → ScopeId → ScopeId × Heap}
    {packages : List (String × ScopeId)} (hg : source.Gains Z h)
    (hcopy : ∀ package ∈ packages, ∀ h, source.Gains Z h →
      source.Gains Z (copyPackage h package.2).2 ∧ Z (.scope (copyPackage h package.2).1)) :
    source.Gains Z (copyPackages copyPackage h packages).2 ∧
      ∀ package ∈ (copyPackages copyPackage h packages).1, Z (.scope package.2) := by
  induction packages generalizing h with
  | nil => exact ⟨hg, nofun⟩
  | cons package rest ih =>
    obtain ⟨hone, hrest⟩ := List.forall_mem_cons.mp hcopy
    obtain ⟨hgains, hin⟩ := hone h hg
    obtain ⟨hgains', hins⟩ := ih hgains hrest
    exact ⟨hgains', List.forall_mem_cons.mpr ⟨hin, hins⟩⟩

/-- With enough levels a scope is copied with all its packages.  `path` are the scopes that are being
copied; this one is a package inside all of them. -/
theorem gains_copyScopeUpTo (governor : GovernorId) (fuel : Nat) {path : Finset ScopeId}
    {id : ScopeId} (hg : source.Gains Z h) (hc : source.Copyable (.scope id))
    (hs : Sheds Z source (.scope id))
    (hinside : ∀ p ∈ path, Relation.TransGen source.Holds (.scope p) (.scope id))
    (hpath : path ⊆ Finset.range source.scopes.next)
    (hfuel : source.scopes.next - path.card < fuel) :
    source.Gains Z (copyScopeUpTo governor fuel h id).2 ∧
      Z (.scope (copyScopeUpTo governor fuel h id).1) := by
  induction fuel generalizing path h id with
  | zero => cases hfuel
  | succ fuel ih =>
    have hmade := hc.made _ .refl
    obtain ⟨hcontents, hshared⟩ := hg.contents_eq hmade
    have hnew : id ∉ path := by
      intro hid
      obtain ⟨_, hlist⟩ | ⟨_, hmap⟩ := hc.grounded _ .refl (hinside id hid)
      · cases hlist
      · cases hmap
    have hpath' : insert id path ⊆ Finset.range source.scopes.next :=
      Finset.insert_subset (Finset.mem_range.mpr (Nat.lt_of_not_le hmade)) hpath
    have hcard := Finset.card_le_card hpath'
    rw [Finset.card_range, Finset.card_insert_of_notMem hnew] at hcard
    -- The variables come first, then the packages, each of them with its own contents.
    have hvars : ∀ var ∈ (h.scope id).vars.entries,
        var.2.In fun o => h.Copyable o ∧ Sheds Z h o := by
      intro var hvar o ho
      have hheld : source.Holds (.scope id) o := by
        rw [Holds, ← hcontents]
        exact List.mem_append_left _ (List.mem_filterMap.mpr ⟨_, List.mem_map_of_mem hvar, ho⟩)
      exact ⟨(hc.held hheld).gains hg, (hs.held hheld).gains (hc.held hheld) hg⟩
    obtain ⟨hgains, hvalues⟩ := gains_copyVars hg.encloses hvars
    have hpackages : ∀ package ∈ (h.scope id).packages.entries, ∀ h', source.Gains Z h' →
        source.Gains Z (copyScopeUpTo governor fuel h' package.2).2 ∧
          Z (.scope (copyScopeUpTo governor fuel h' package.2).1) := by
      intro package hpackage h' hg'
      have hheld : source.Holds (.scope id) (.scope package.2) := by
        rw [Holds, ← hcontents]
        exact List.mem_append_right _ (List.mem_map_of_mem (List.mem_map_of_mem hpackage))
      refine ih hg' (hc.held hheld) (hs.held hheld) (fun p hp => ?_) hpath' ?_
      · obtain rfl | hp := Finset.mem_insert.mp hp
        · exact .single hheld
        · exact (hinside p hp).tail hheld
      · rw [Finset.card_insert_of_notMem hnew]
        omega
    obtain ⟨hgains', hscopes⟩ := gains_copyPackages (hg.trans hgains) hpackages
    refine ⟨hgains'.addScope fun o ho => ?_, hgains'.encloses.unused _ (Nat.le_refl _)⟩
    obtain ho | hparent := List.mem_append.mp ho
    · obtain hvalue | hpackage := List.mem_append.mp ho
      · exact Value.forall_objects.mpr (List.forall_mem_map.mpr hvalues) o hvalue
      · obtain ⟨_, hscope, rfl⟩ := List.mem_map.mp hpackage
        obtain ⟨package, hmem, rfl⟩ := List.mem_map.mp hscope
        exact hscopes package hmem
    · refine hs.shared ?_
      rw [← hshared]
      exact hparent

/-- **A copy of a scope is in the zone if what it shares with the original is.** -/
theorem gains_copyScope (governor : GovernorId) {id : ScopeId} (hz : h.Encloses Z)
    (hc : h.Copyable (.scope id)) (hs : Sheds Z h (.scope id)) :
    h.Gains Z (h.copyScope id governor).2 ∧ Z (.scope (h.copyScope id governor).1) := by
  have hinside : ∀ p ∈ (∅ : Finset ScopeId), Relation.TransGen h.Holds (.scope p) (.scope id) :=
    nofun
  exact gains_copyScopeUpTo governor _ hz.gains hc hs hinside (Finset.empty_subset _)
    (Nat.lt_succ_of_le (Nat.sub_le _ _))

end Heap
end ScriptEngine
