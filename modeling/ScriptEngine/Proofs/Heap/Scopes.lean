import ScriptEngine.Evaluator.Call
import ScriptEngine.Proofs.Heap.Zone

/-! # Operations on values leave scopes and scripts alone

Values are made, converted, written and sent without a look at any scope, and what is written in a
script becomes a function by other means only.  The scopes and the functions of scripts are the
**fabric** of a heap (`Heap.fabric`); what an operation on values gives comes with the fabric that was
there before (`Outcome.KeepsFabric`).
-/
namespace ScriptEngine

/-- What is written in a script, if it is the function of one. -/
def Function.definition? : Function → Option FuncDef
  | .script definition _ _ => some definition
  | .host _ => none

/-- What is written in a script, the scope around it and whether it sees its own name, if the function
is a closure. -/
def Function.closure? : Function → Option (FuncDef × ScopeId × Bool)
  | .script definition scope selfBound => some (definition, scope, selfBound)
  | .host _ => none

theorem Function.definition?_eq (f : Function) : f.definition? = f.closure?.map (·.1) := by
  cases f <;> rfl

/-- The scopes, and the functions of scripts. -/
def Heap.fabric (h : Heap) : Store Scope × (FuncId → Option (FuncDef × ScopeId × Bool)) :=
  (h.scopes, fun id => (h.func id).closure?)

/-- **What the operation on the heap `h` gives comes with the fabric of `h`.** -/
class Outcome.KeepsFabric {α : Type} (h : Heap) (o : Outcome (α × Heap)) : Prop where
  fabric_eq : ∀ {a h'}, o = .ok (a, h') → h'.fabric = h.fabric

namespace Heap
variable {h h' : Heap}

theorem scopes_of_fabric (hfabric : h'.fabric = h.fabric) : h'.scopes = h.scopes :=
  congrArg Prod.fst hfabric

theorem closure?_of_fabric (hfabric : h'.fabric = h.fabric) (id : FuncId) :
    (h'.func id).closure? = (h.func id).closure? :=
  congrFun (congrArg Prod.snd hfabric) id

theorem definition?_of_fabric (hfabric : h'.fabric = h.fabric) (id : FuncId) :
    (h'.func id).definition? = (h.func id).definition? := by
  rw [Function.definition?_eq, closure?_of_fabric hfabric, ← Function.definition?_eq]

theorem Grows.fabric (hg : h.Grows h') : h'.fabric = h.fabric := by
  unfold Heap.fabric Heap.func
  rw [hg.scopes, hg.funcs]

theorem fabric_eq {α : Type} {o : Outcome (α × Heap)} [ho : o.KeepsFabric h] {a : α}
    (hp : o = .ok (a, h')) : h'.fabric = h.fabric := ho.fabric_eq hp

/-- A function of the host is not written in a script. -/
theorem fabric_addFunc_host (h : Heap) (f : HostFunction) :
    (h.addFunc (.host f)).2.fabric = h.fabric := by
  refine Prod.ext rfl (funext fun id => ?_)
  show (((h.funcs.push (.host f)).get? id).getD default).closure? = _
  rw [Store.get?_push_eq]
  split
  · subst id
    show none = ((h.funcs.get? h.funcs.next).getD default).closure?
    rw [Store.get?_eq_none (Nat.le_refl _)]
    rfl
  · rfl

/-! ## Conversion and new values -/

instance (v : Value) (type : HostType) : (h.convert v type).KeepsFabric h :=
  ⟨fun hp => (grows_convert type hp).fabric⟩

instance (v : Value) (type : Option HostType) : (h.convertTo v type).KeepsFabric h :=
  ⟨fun hp => (grows_convertTo hp).fabric⟩

instance (type : HostType) : (h.zero type).KeepsFabric h := ⟨fun hp => (grows_zero hp).fabric⟩

instance keepsFabric_convertItems (type : HostType) (items : List Value) :
    (do
      let (items, h) ← convertItems (fun h v => h.convert v type) h items
      return h.addList ⟨items.toArray, some type, false⟩ : Outcome (Value × Heap)).KeepsFabric h where
  fabric_eq hp := by
    obtain ⟨⟨ws, h₁⟩, h1, hp⟩ := Outcome.bind_eq_ok.mp hp
    cases hp
    exact (grows_convertItems (grows_convert type) h1).fabric

instance (elem : HostType) (items : Array Value) : (h.addSlice elem items).KeepsFabric h where
  fabric_eq hp := by
    unfold addSlice at hp
    split at hp <;> cases hp
    rfl

instance (type : HostType) (args : List Value) : (h.make type args).KeepsFabric h where
  fabric_eq hp := by
    unfold make at hp
    split at hp
    · obtain ⟨len, -, hp⟩ := Outcome.bind_eq_ok.mp hp
      obtain ⟨⟨z, h₁⟩, hzero, hp⟩ := Outcome.bind_eq_ok.mp hp
      obtain ⟨items, -, hp⟩ := Outcome.bind_eq_ok.mp hp
      cases hp
      exact (grows_zero hzero).fabric
    · obtain ⟨capacity, -, hp⟩ := Outcome.bind_eq_ok.mp hp
      cases hp
      rfl
    · exact (grows_zero hp).fabric

/-! ## Operators -/

instance (target : Value) (start stop : Option Value) : (h.slice target start stop).KeepsFabric h where
  fabric_eq hp := by
    cases target with
    | list id =>
      obtain ⟨⟨i, j⟩, -, hp⟩ := Outcome.bind_eq_ok.mp hp
      cases hp
      rfl
    | str s =>
      obtain ⟨_, -, hp⟩ := Outcome.bind_eq_ok.mp hp
      cases hp
      rfl
    | _ => cases hp

instance (op : BinaryOp) (left right : Value) : (h.binary op left right).KeepsFabric h where
  fabric_eq hp := by
    unfold binary at hp
    split at hp
    · unfold add at hp
      split at hp
      case h_4 =>
        obtain ⟨w, -, hp⟩ := Outcome.bind_eq_ok.mp hp
        cases hp
        rfl
      all_goals
        cases hp
        rfl
    · obtain ⟨w, -, hp⟩ := Outcome.bind_eq_ok.mp hp
      cases hp
      rfl

/-! ## Writes -/

theorem fabric_perform (h : Heap) (w : Write) : (h.perform w).fabric = h.fabric := by
  cases w <;> rfl

instance (id : ListId) (index : Int) (v : Value) : (h.prepareItem id index v).KeepsFabric h where
  fabric_eq hp := by
    obtain ⟨⟨x, h₁⟩, hconv, hp⟩ := Outcome.bind_eq_ok.mp hp
    simp only at hp
    split at hp <;> cases hp
    exact fabric_eq hconv

instance (id : MapId) (key v : Value) : (h.prepareEntry id key v).KeepsFabric h where
  fabric_eq hp := by
    obtain ⟨key', -, hp⟩ := Outcome.bind_eq_ok.mp hp
    obtain ⟨⟨x, h₁⟩, hconv, hp⟩ := Outcome.bind_eq_ok.mp hp
    cases hp
    exact fabric_eq hconv

instance (id : HandleId) (name : String) (v : Value) : (h.prepareField id name v).KeepsFabric h where
  fabric_eq hp := by
    unfold prepareField at hp
    split at hp
    · split at hp
      · cases hp
      · obtain ⟨⟨x, h₁⟩, hconv, hp⟩ := Outcome.bind_eq_ok.mp hp
        cases hp
        exact fabric_eq hconv
    · cases hp

instance (target index v : Value) : (h.prepareIndex target index v).KeepsFabric h where
  fabric_eq hp := by
    unfold prepareIndex at hp
    split at hp
    · obtain ⟨i, -, hp⟩ := Outcome.bind_eq_ok.mp hp
      exact fabric_eq hp
    · exact fabric_eq hp
    · split at hp
      · exact fabric_eq hp
      · cases hp
    · cases hp

instance (target : Value) (name : String) (v : Value) :
    (h.prepareMember target name v).KeepsFabric h where
  fabric_eq hp := by
    unfold prepareMember at hp
    split at hp
    · exact fabric_eq hp
    · exact fabric_eq hp
    · cases hp

theorem fabric_storeEntry {id : MapId} {key v : Value} (hp : h.storeEntry id key v = .ok h') :
    h'.fabric = h.fabric := by
  obtain ⟨⟨w, h₁⟩, hw, hp⟩ := Outcome.bind_eq_ok.mp hp
  cases hp
  exact (fabric_perform h₁ w).trans (fabric_eq hw)

theorem fabric_storeField {id : HandleId} {name : String} {v : Value}
    (hp : h.storeField id name v = .ok h') : h'.fabric = h.fabric := by
  obtain ⟨⟨w, h₁⟩, hw, hp⟩ := Outcome.bind_eq_ok.mp hp
  cases hp
  exact (fabric_perform h₁ w).trans (fabric_eq hw)

theorem fabric_pushAll {id : ListId} {vs : List Value} (hp : h.pushAll id vs = .ok h') :
    h'.fabric = h.fabric := by
  induction vs generalizing h with
  | nil => cases hp; rfl
  | cons v rest ih =>
    obtain ⟨h₁, h1, hp⟩ := Outcome.bind_eq_ok.mp hp
    refine (ih hp).trans ?_
    unfold pushItem at h1
    split at h1
    · cases h1
    · obtain ⟨⟨w, h₂⟩, hw, h1⟩ := Outcome.bind_eq_ok.mp h1
      cases h1
      exact (fabric_eq hw : h₂.fabric = h.fabric)

instance (target : Value) (items : List Value) : (h.append target items).KeepsFabric h where
  fabric_eq {v h'} hp := by
    have hnew (source : ListCell)
        (hp : (do return (.list h.lists.next, ← (h.addList source).2.pushAll h.lists.next items)) =
          Except.ok (v, h')) : h'.fabric = h.fabric := by
      obtain ⟨h₁, h1, hp⟩ := Outcome.bind_eq_ok.mp hp
      cases hp
      exact (fabric_pushAll h1).trans rfl
    cases target with
    | nil => exact hnew ⟨#[], none, false⟩ hp
    | list id => exact hnew { h.list id with fixed := false } hp
    | _ => cases hp

theorem fabric_delete {target key : Value} (hp : h.delete target key = .ok h') :
    h'.fabric = h.fabric := by
  cases target with
  | map id =>
    obtain ⟨r, hr, hp⟩ := Outcome.bind_eq_ok.mp hp
    obtain ⟨key', -, hr⟩ := Outcome.bind_eq_ok.mp hr
    cases hr
    cases hp
    rfl
  | nil => cases hp; rfl
  | _ => cases hp

/-! ## Host functions -/

theorem fabric_convertArgs {vs ws : List Value} {types : List HostType}
    (hc : h.convertArgs vs types = .ok (ws, h')) : h'.fabric = h.fabric := by
  induction vs generalizing h types ws with
  | nil => cases hc; rfl
  | cons v rest ih =>
    cases types with
    | nil => cases hc; rfl
    | cons type types =>
      obtain ⟨⟨w, h₁⟩, h1, hc⟩ := Outcome.bind_eq_ok.mp hc
      obtain ⟨⟨ws', h₂⟩, h2, hc⟩ := Outcome.bind_eq_ok.mp hc
      cases hc
      exact (ih h2).trans (fabric_eq h1)

instance (f : HostFunction) (fixed : List Value) (rest : Option (List Value)) :
    (h.hostArguments f fixed rest).KeepsFabric h where
  fabric_eq hc := by
    obtain ⟨⟨fixed', h₁⟩, h1, hc⟩ := Outcome.bind_eq_ok.mp hc
    cases rest with
    | none => cases hc; exact fabric_convertArgs h1
    | some rest =>
      obtain ⟨⟨packed, h₂⟩, h2, hc⟩ := Outcome.bind_eq_ok.mp hc
      cases hc
      have hargs : h₁.fabric = h.fabric := fabric_convertArgs h1
      exact (grows_convert _ h2).fabric.trans hargs

mutual

theorem fabric_build : ∀ (b : Blueprint) {h h' : Heap} {v : Value}, h.build b = .ok (v, h') →
    h'.fabric = h.fabric
  | .nil, h, h', v, hb | .bool _, h, h', v, hb | .int _, h, h', v, hb | .float _, h, h', v, hb
  | .str _, h, h', v, hb | .chan capacity elemType, h, h', v, hb | .token typeName, h, h', v, hb => by
    unfold build at hb
    cases hb
    rfl
  | .func f, h, h', v, hb => by
    unfold build at hb
    cases hb
    exact h.fabric_addFunc_host f
  | .list items elemType fixed, h, h', v, hb => by
    unfold build at hb
    obtain ⟨⟨vs, h₁⟩, h1, hb⟩ := Outcome.bind_eq_ok.mp hb
    cases hb
    exact (fabric_buildAll items h1 : h₁.fabric = h.fabric)
  | .map entries keyType valueType, h, h', v, hb => by
    unfold build at hb
    obtain ⟨h₁, h1, hb⟩ := Outcome.map_eq_ok.mp hb
    cases hb
    exact (fabric_buildEntries entries h1).trans rfl
  | .struct type fields, h, h', v, hb => by
    unfold build at hb
    obtain ⟨⟨z, h₁⟩, hzero, hb⟩ := Outcome.bind_eq_ok.mp hb
    cases z with
    | handle id =>
      obtain ⟨h₂, h2, hb⟩ := Outcome.bind_eq_ok.mp hb
      cases hb
      exact (fabric_buildFields fields h2).trans (fabric_eq hzero)
    | _ =>
      cases hb
      exact fabric_eq hzero

theorem fabric_buildAll : ∀ (bs : List Blueprint) {h h' : Heap} {vs : List Value},
    h.buildAll bs = .ok (vs, h') → h'.fabric = h.fabric
  | [], h, h', vs, hb => by
    unfold buildAll at hb
    cases hb
    rfl
  | b :: rest, h, h', vs, hb => by
    unfold buildAll at hb
    obtain ⟨⟨v, h₁⟩, h1, hb⟩ := Outcome.bind_eq_ok.mp hb
    obtain ⟨⟨vs', h₂⟩, h2, hb⟩ := Outcome.bind_eq_ok.mp hb
    cases hb
    exact (fabric_buildAll rest h2).trans (fabric_build b h1)

theorem fabric_buildEntries : ∀ (entries : List (Blueprint × Blueprint)) {h h' : Heap} {id : MapId},
    h.buildEntries id entries = .ok h' → h'.fabric = h.fabric
  | [], h, h', id, hb => by
    unfold buildEntries at hb
    cases hb
    rfl
  | (key, value) :: rest, h, h', id, hb => by
    unfold buildEntries at hb
    obtain ⟨⟨k, h₁⟩, h1, hb⟩ := Outcome.bind_eq_ok.mp hb
    obtain ⟨⟨v, h₂⟩, h2, hb⟩ := Outcome.bind_eq_ok.mp hb
    obtain ⟨h₃, h3, hb⟩ := Outcome.bind_eq_ok.mp hb
    calc h'.fabric = h₃.fabric := fabric_buildEntries rest hb
      _ = h₂.fabric := fabric_storeEntry h3
      _ = h₁.fabric := fabric_build value h2
      _ = h.fabric := fabric_build key h1

theorem fabric_buildFields : ∀ (fields : List (String × Blueprint)) {h h' : Heap} {id : HandleId},
    h.buildFields id fields = .ok h' → h'.fabric = h.fabric
  | [], h, h', id, hb => by
    unfold buildFields at hb
    cases hb
    rfl
  | (name, value) :: rest, h, h', id, hb => by
    unfold buildFields at hb
    obtain ⟨⟨v, h₁⟩, h1, hb⟩ := Outcome.bind_eq_ok.mp hb
    obtain ⟨h₂, h2, hb⟩ := Outcome.bind_eq_ok.mp hb
    calc h'.fabric = h₂.fabric := fabric_buildFields rest hb
      _ = h₁.fabric := fabric_storeField h2
      _ = h.fabric := fabric_build value h1

end

instance (b : Blueprint) : (h.build b).KeepsFabric h := ⟨fabric_build b⟩

instance (bs : List Blueprint) : (h.buildAll bs).KeepsFabric h := ⟨fabric_buildAll bs⟩

instance (f : HostFunction) (results : List Value) : (h.hostResult f results).KeepsFabric h where
  fabric_eq hc := by
    obtain ⟨vs, h₁, hvs, hv⟩ := hostResult_cases hc
    have hall : h₁.fabric = h.fabric := by
      obtain ⟨rfl, rfl⟩ | hvs := hvs
      · rfl
      · exact fabric_convertArgs hvs
    obtain ⟨rfl, rfl⟩ | ⟨rfl, rfl⟩ | hv := hv
    · exact hall
    · exact hall
    · cases hv
      exact hall

/-! ## Channels -/

instance (id : ChanId) (v : Value) : (h.chanValue id v).KeepsFabric h :=
  inferInstanceAs ((h.convertTo v _).KeepsFabric h)

instance (id : ChanId) (v : Value) : (h.offer id v).KeepsFabric h where
  fabric_eq hp := by
    unfold offer at hp
    simp only at hp
    split at hp
    · cases hp
    · split at hp
      · cases hp
      · split at hp <;> cases hp <;> rfl

instance (id : ChanId) (v : Value) : (h.trySend id v).KeepsFabric h where
  fabric_eq hp := by
    obtain ⟨⟨w, h₁⟩, hw, hp⟩ := Outcome.bind_eq_ok.mp hp
    simp only at hp
    split at hp
    · cases hp
    · have hfabric : h₁.fabric = h.fabric := fabric_eq hw
      split at hp <;> cases hp <;> exact hfabric

instance (id : ChanId) : (h.tryRecv id).KeepsFabric h where
  fabric_eq hp := by
    unfold tryRecv at hp
    simp only at hp
    split at hp
    · cases hp
      rfl
    · split at hp
      · obtain ⟨⟨v, h₁⟩, hv, hp⟩ := Outcome.bind_eq_ok.mp hp
        cases hp
        exact fabric_eq hv
      · cases hp
        rfl

theorem fabric_closeChan {id : ChanId} (hp : h.closeChan id = .ok h') : h'.fabric = h.fabric := by
  unfold closeChan at hp
  split at hp <;> cases hp
  rfl

end Heap

end ScriptEngine
