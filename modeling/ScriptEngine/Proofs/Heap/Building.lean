import ScriptEngine.Proofs.Heap.Preservation

/-! # Building from descriptions

Building a value only adds objects and fills those that it has added, and the only functions that it
brings into the heap are those that the description mentions.  Whether what is built is well typed is
up to whoever wrote the description; for an honest host function it is.
-/
namespace ScriptEngine.Heap

/-- The heap advances, every new function is one of these, and no channel that was there changes. -/
structure Brings (fs : List HostFunction) (h h' : Heap) : Prop where
  advances : h.Advances h'
  funcs : ∀ id f, h'.funcs.get? id = some f → h.funcs.get? id = some f ∨ ∃ g ∈ fs, f = .host g
  chans : h.chans.Extends h'.chans

variable {fs gs : List HostFunction} {h h' h'' : Heap}

theorem brings_nothing (h : Heap) : Brings fs h h := ⟨.refl h, fun _ _ hf => .inl hf, .refl _⟩

theorem Brings.trans {l : List HostFunction} (hb : Brings l h h') (hb' : Brings gs h' h'') :
    Brings (l ++ gs) h h'' where
  advances := hb.advances.trans hb'.advances
  funcs id f hf := by
    obtain hf | ⟨g, hg, rfl⟩ := hb'.funcs id f hf
    · obtain hf | ⟨g, hg, rfl⟩ := hb.funcs id f hf
      · exact .inl hf
      · exact .inr ⟨g, List.mem_append_left _ hg, rfl⟩
    · exact .inr ⟨g, List.mem_append_right _ hg, rfl⟩
  chans := hb.chans.trans hb'.chans

theorem Grows.brings (hg : h.Grows h') : Brings fs h h' where
  advances := hg.advances
  funcs _ _ hget := .inl (hg.funcs ▸ hget)
  chans := hg.chans ▸ .refl _

/-- Then nothing new is brought after that. -/
theorem Brings.andThen (hb : Brings fs h h') (ha : h'.Advances h'') (hf : h''.funcs = h'.funcs)
    (hc : h''.chans = h'.chans) : Brings fs h h'' where
  advances := hb.advances.trans ha
  funcs id f hget := hb.funcs id f (hf ▸ hget)
  chans := hc ▸ hb.chans

theorem advances_storeEntry {id : MapId} {key v : Value} (hp : h.storeEntry id key v = .ok h') :
    h.Advances h' ∧ h'.funcs = h.funcs ∧ h'.chans = h.chans := by
  obtain ⟨r, hr, hp⟩ := Outcome.bind_eq_ok.mp hp
  cases hp
  obtain ⟨key', -, hr⟩ := Outcome.bind_eq_ok.mp hr
  obtain ⟨⟨w, h₁⟩, hv, hr⟩ := Outcome.bind_eq_ok.mp hr
  cases hr
  have hg := grows_convertTo hv
  exact ⟨hg.advances.trans
    { Advances.refl h₁ with maps := Store.advances_modify fun _ _ => rfl }, hg.funcs, hg.chans⟩

theorem advances_storeField {id : HandleId} {name : String} {v : Value}
    (hp : h.storeField id name v = .ok h') :
    h.Advances h' ∧ h'.funcs = h.funcs ∧ h'.chans = h.chans := by
  obtain ⟨r, hr, hp⟩ := Outcome.bind_eq_ok.mp hp
  cases hp
  unfold prepareField at hr
  split at hr
  · split at hr
    · cases hr
    · obtain ⟨⟨w, h₁⟩, hv, hr⟩ := Outcome.bind_eq_ok.mp hr
      cases hr
      have hg := grows_convert _ hv
      refine ⟨hg.advances.trans { Advances.refl h₁ with handles := ?_ }, hg.funcs, hg.chans⟩
      exact Store.advances_modify fun o _ => by cases o <;> rfl
  · cases hr

mutual

theorem brings_build : ∀ (b : Blueprint) {h h' : Heap} {v : Value}, h.build b = .ok (v, h') →
    Brings b.functions h h'
  | .nil, h, h', v, hb | .bool _, h, h', v, hb | .int _, h, h', v, hb | .float _, h, h', v, hb
  | .str _, h, h', v, hb => by
    unfold build at hb
    cases hb
    exact brings_nothing h
  | .list items elemType fixed, h, h', v, hb => by
    unfold build at hb
    obtain ⟨⟨vs, h₁⟩, h1, hb⟩ := Outcome.bind_eq_ok.mp hb
    cases hb
    unfold Blueprint.functions
    exact (brings_buildAll items h1).andThen (grows_addList h₁ _).advances rfl rfl
  | .map entries keyType valueType, h, h', v, hb => by
    unfold build at hb
    obtain ⟨h₁, h1, hb⟩ := Outcome.map_eq_ok.mp hb
    cases hb
    unfold Blueprint.functions
    exact Brings.trans (l := []) (grows_addMap h ⟨[], keyType, valueType⟩).brings
      (brings_buildEntries entries h1)
  | .func f, h, h', v, hb => by
    unfold build at hb
    cases hb
    refine ⟨⟨.refl _, .refl _, .refl _, .refl _⟩, fun id g hg => ?_, .refl _⟩
    obtain rfl | hg := Store.get?_push hg
    · exact .inr ⟨f, by rw [Blueprint.functions]; exact List.mem_singleton_self f, rfl⟩
    · exact .inl hg
  | .chan capacity elemType, h, h', v, hb => by
    unfold build at hb
    cases hb
    have hchans := Store.extends_push h.chans (Channel.mk capacity elemType [] false 0 0 0)
    exact ⟨{ Advances.refl h with chans := hchans.advances }, fun _ _ hf => .inl hf, hchans⟩
  | .struct type fields, h, h', v, hb => by
    unfold build at hb
    obtain ⟨⟨z, h₁⟩, hz, hb⟩ := Outcome.bind_eq_ok.mp hb
    have hg := grows_zero hz
    cases z with
    | handle id =>
      obtain ⟨h₂, h2, hb⟩ := Outcome.bind_eq_ok.mp hb
      cases hb
      unfold Blueprint.functions
      exact Brings.trans (l := []) hg.brings (brings_buildFields fields h2)
    | _ =>
      cases hb
      exact hg.brings
  | .token typeName, h, h', v, hb => by
    unfold build at hb
    cases hb
    exact (grows_addHandle h _).brings

theorem brings_buildAll : ∀ (bs : List Blueprint) {h h' : Heap} {vs : List Value},
    h.buildAll bs = .ok (vs, h') → Brings (Blueprint.functionsOfAll bs) h h'
  | [], h, h', vs, hb => by
    unfold buildAll at hb
    cases hb
    exact brings_nothing h
  | b :: rest, h, h', vs, hb => by
    unfold buildAll at hb
    obtain ⟨⟨v, h₁⟩, h1, hb⟩ := Outcome.bind_eq_ok.mp hb
    obtain ⟨⟨vs', h₂⟩, h2, hb⟩ := Outcome.bind_eq_ok.mp hb
    cases hb
    exact (brings_build b h1).trans (brings_buildAll rest h2)

theorem brings_buildEntries : ∀ (entries : List (Blueprint × Blueprint)) {h h' : Heap}
    {id : MapId}, h.buildEntries id entries = .ok h' →
    Brings (Blueprint.functionsOfEntries entries) h h'
  | [], h, h', id, hb => by
    unfold buildEntries at hb
    cases hb
    exact brings_nothing h
  | (key, value) :: rest, h, h', id, hb => by
    unfold buildEntries at hb
    obtain ⟨⟨k, h₁⟩, h1, hb⟩ := Outcome.bind_eq_ok.mp hb
    obtain ⟨⟨v, h₂⟩, h2, hb⟩ := Outcome.bind_eq_ok.mp hb
    obtain ⟨h₃, h3, hb⟩ := Outcome.bind_eq_ok.mp hb
    obtain ⟨hadvances, hfuncs, hchans⟩ := advances_storeEntry h3
    exact (((brings_build key h1).trans (brings_build value h2)).andThen hadvances hfuncs
      hchans).trans (brings_buildEntries rest hb)

theorem brings_buildFields : ∀ (fields : List (String × Blueprint)) {h h' : Heap}
    {id : HandleId}, h.buildFields id fields = .ok h' →
    Brings (Blueprint.functionsOfFields fields) h h'
  | [], h, h', id, hb => by
    unfold buildFields at hb
    cases hb
    exact brings_nothing h
  | (name, value) :: rest, h, h', id, hb => by
    unfold buildFields at hb
    obtain ⟨⟨v, h₁⟩, h1, hb⟩ := Outcome.bind_eq_ok.mp hb
    obtain ⟨h₂, h2, hb⟩ := Outcome.bind_eq_ok.mp hb
    obtain ⟨hadvances, hfuncs, hchans⟩ := advances_storeField h2
    exact ((brings_build value h1).andThen hadvances hfuncs hchans).trans
      (brings_buildFields rest hb)

end

/-- What an honest host function builds keeps the heap sound. -/
theorem follows_buildAll (hs : h.Sound) {f : HostFunction} (hf : f.Honest) {vs : List Value}
    (hb : h.buildAll f.action.built = .ok (vs, h')) : h.Follows h' := by
  obtain ⟨hbuilds, hout⟩ := hf
  have hbring := brings_buildAll _ hb
  refine ⟨hbring.advances, hbuilds h vs h' hs.wellTyped hb, fun id g hg => ?_⟩
  obtain hg | ⟨g', hmem, rfl⟩ := hbring.funcs id g hg
  · exact hs.honest id g hg
  · exact hout g' hmem

/-- Building one value is building a list of one. -/
theorem buildAll_singleton {b : Blueprint} {v : Value} (hb : h.build b = .ok (v, h')) :
    h.buildAll [b] = .ok ([v], h') := by
  simp only [buildAll]
  rw [hb]
  rfl

end ScriptEngine.Heap
