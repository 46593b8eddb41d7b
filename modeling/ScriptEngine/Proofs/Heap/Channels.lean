import ScriptEngine.Proofs.Heap.Building

/-! # Most operations leave the channels alone

Only the operations on channels change a channel that is there.  Whatever else is done to the heap at
most adds new channels: it **spares** those that are there (`Heap.Spares`).  Together with what
`Proofs.Channel.Conservation` says about the operations on channels, this is all that a proof about
channels has to know about the rest of the heap.
-/
namespace ScriptEngine.Heap

/-- Every channel of the first heap is there in the second one, as it was. -/
abbrev Spares (h h' : Heap) : Prop := h.chans.Extends h'.chans

variable {h h' : Heap}

theorem Grows.spares (hg : h.Grows h') : h.Spares h' := by
  rw [Spares, hg.chans]
  exact .refl _

theorem spares_naming (hp : ∃ scopes, h' = { h with scopes }) : h.Spares h' := by
  obtain ⟨scopes, rfl⟩ := hp
  exact .refl _

/-! ## Writes -/

theorem spares_perform (h : Heap) (w : Write) : h.Spares (h.perform w) := by
  cases w <;> exact .refl _

theorem spares_prepareItem {id : ListId} {index : Int} {v : Value} {w : Write}
    (hp : h.prepareItem id index v = .ok (w, h')) : h.Spares h' := by
  obtain ⟨⟨v', h₁⟩, hv, hp⟩ := Outcome.bind_eq_ok.mp hp
  simp only at hp
  split at hp
  · cases hp
    exact (grows_convertTo hv).spares
  · cases hp

theorem spares_prepareEntry {id : MapId} {key v : Value} {w : Write}
    (hp : h.prepareEntry id key v = .ok (w, h')) : h.Spares h' := by
  obtain ⟨key', -, hp⟩ := Outcome.bind_eq_ok.mp hp
  obtain ⟨⟨v', h₁⟩, hv, hp⟩ := Outcome.bind_eq_ok.mp hp
  cases hp
  exact (grows_convertTo hv).spares

theorem spares_prepareField {id : HandleId} {name : String} {v : Value} {w : Write}
    (hp : h.prepareField id name v = .ok (w, h')) : h.Spares h' := by
  unfold prepareField at hp
  split at hp
  · split at hp
    · cases hp
    · obtain ⟨⟨v', h₁⟩, hv, hp⟩ := Outcome.bind_eq_ok.mp hp
      cases hp
      exact (grows_convert _ hv).spares
  · cases hp

theorem spares_prepareIndex {target index v : Value} {w : Write}
    (hp : h.prepareIndex target index v = .ok (w, h')) : h.Spares h' := by
  unfold prepareIndex at hp
  cases target with
  | list id =>
    obtain ⟨i, -, hp⟩ := Outcome.bind_eq_ok.mp hp
    exact spares_prepareItem hp
  | map id => exact spares_prepareEntry hp
  | handle id =>
    cases index with
    | str name => exact spares_prepareField hp
    | _ => cases hp
  | _ => cases hp

theorem spares_prepareMember {target v : Value} {name : String} {w : Write}
    (hp : h.prepareMember target name v = .ok (w, h')) : h.Spares h' := by
  unfold prepareMember at hp
  cases target with
  | map id => exact spares_prepareEntry hp
  | handle id => exact spares_prepareField hp
  | _ => cases hp

/-! ## Operations on containers -/

theorem spares_pushAll {id : ListId} {vs : List Value} (hp : h.pushAll id vs = .ok h') :
    h.Spares h' := by
  induction vs generalizing h with
  | nil =>
    cases hp
    exact .refl _
  | cons v rest ih =>
    obtain ⟨h₁, h1, hp⟩ := Outcome.bind_eq_ok.mp hp
    have hpush : h.Spares h₁ := by
      unfold pushItem at h1
      split at h1
      · cases h1
      · obtain ⟨⟨w, h₂⟩, hv, h1⟩ := Outcome.bind_eq_ok.mp h1
        cases h1
        exact (grows_convertTo hv).spares
    exact hpush.trans (ih hp)

theorem spares_append {target v : Value} {items : List Value}
    (hp : h.append target items = .ok (v, h')) : h.Spares h' := by
  have hnew {source : ListCell}
      (hp : (do return (.list h.lists.next, ← (h.addList source).2.pushAll h.lists.next items)) =
        Except.ok (v, h')) : h.Spares h' := by
    obtain ⟨h₁, h1, hp⟩ := Outcome.bind_eq_ok.mp hp
    cases hp
    exact (grows_addList h source).spares.trans (spares_pushAll h1)
  cases target with
  | nil | list id => exact hnew hp
  | _ => cases hp

theorem spares_delete {target key : Value} (hp : h.delete target key = .ok h') : h.Spares h' := by
  cases target with
  | map id =>
    obtain ⟨r, hr, hp⟩ := Outcome.bind_eq_ok.mp hp
    obtain ⟨key', -, hr⟩ := Outcome.bind_eq_ok.mp hr
    cases hr
    cases hp
    exact .refl _
  | nil =>
    cases hp
    exact .refl _
  | _ => cases hp

theorem spares_slice {target v : Value} {start stop : Option Value}
    (hp : h.slice target start stop = .ok (v, h')) : h.Spares h' := by
  cases target with
  | list id | str s =>
    obtain ⟨_, -, hp⟩ := Outcome.bind_eq_ok.mp hp
    cases hp
    exact .refl _
  | _ => cases hp

theorem spares_binary {op : BinaryOp} {left right v : Value}
    (hp : h.binary op left right = .ok (v, h')) : h.Spares h' := by
  unfold binary at hp
  split at hp
  · unfold add at hp
    split at hp
    · cases hp
      exact .refl _
    · cases hp
      exact .refl _
    · cases hp
      exact .refl _
    · obtain ⟨_, -, hp⟩ := Outcome.bind_eq_ok.mp hp
      cases hp
      exact .refl _
  · obtain ⟨_, -, hp⟩ := Outcome.bind_eq_ok.mp hp
    cases hp
    exact .refl _

/-! ## New values -/

theorem spares_addSlice {elem : HostType} {items : Array Value} {v : Value}
    (hp : h.addSlice elem items = .ok (v, h')) : h.Spares h' := by
  unfold addSlice at hp
  split at hp
  · cases hp
  · cases hp
    exact .refl _

theorem spares_make {type : HostType} {args : List Value} {v : Value}
    (hp : h.make type args = .ok (v, h')) : h.Spares h' := by
  unfold make at hp
  split at hp
  · obtain ⟨len, -, hp⟩ := Outcome.bind_eq_ok.mp hp
    obtain ⟨⟨z, h₁⟩, hz, hp⟩ := Outcome.bind_eq_ok.mp hp
    obtain ⟨items, -, hp⟩ := Outcome.bind_eq_ok.mp hp
    cases hp
    exact (grows_zero hz).spares
  · obtain ⟨capacity, -, hp⟩ := Outcome.bind_eq_ok.mp hp
    cases hp
    exact Store.extends_push _ _
  · exact (grows_zero hp).spares

theorem spares_convertArgs {vs ws : List Value} {types : List HostType}
    (hc : h.convertArgs vs types = .ok (ws, h')) : h.Spares h' := by
  induction vs generalizing h types ws with
  | nil =>
    cases hc
    exact .refl _
  | cons v rest ih =>
    cases types with
    | nil =>
      cases hc
      exact .refl _
    | cons type types =>
      obtain ⟨⟨w, h₁⟩, h1, hc⟩ := Outcome.bind_eq_ok.mp hc
      obtain ⟨⟨ws', h₂⟩, h2, hc⟩ := Outcome.bind_eq_ok.mp hc
      cases hc
      exact (grows_convert type h1).spares.trans (ih h2)

theorem spares_hostArguments {f : HostFunction} {fixed args : List Value}
    {rest : Option (List Value)} (hc : h.hostArguments f fixed rest = .ok (args, h')) :
    h.Spares h' := by
  obtain ⟨⟨fixed', h₁⟩, h1, hc⟩ := Outcome.bind_eq_ok.mp hc
  have hfixed := spares_convertArgs h1
  cases rest with
  | none =>
    cases hc
    exact hfixed
  | some rest =>
    obtain ⟨⟨packed, h₂⟩, h2, hc⟩ := Outcome.bind_eq_ok.mp hc
    cases hc
    exact hfixed.trans (grows_convert _ h2).spares

theorem spares_hostResult {f : HostFunction} {results : List Value} {v : Value}
    (hc : h.hostResult f results = .ok (v, h')) : h.Spares h' := by
  obtain ⟨vs, h₁, hvs, hv⟩ := hostResult_cases hc
  have hs : h.Spares h₁ := by
    obtain ⟨-, rfl⟩ | hvs := hvs
    · exact .refl _
    · exact spares_convertArgs hvs
  obtain ⟨-, rfl⟩ | ⟨-, rfl⟩ | hv := hv
  · exact hs
  · exact hs
  · cases hv
    exact hs

theorem spares_buildAll {bs : List Blueprint} {vs : List Value}
    (hb : h.buildAll bs = .ok (vs, h')) : h.Spares h' :=
  (brings_buildAll bs hb).chans

end ScriptEngine.Heap
