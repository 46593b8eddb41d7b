import Mathlib.Data.Finset.Card
import Mathlib.Data.Finset.SDiff
import Mathlib.Logic.Relation
import ScriptEngine.Proofs.Heap.Zone

/-! # What objects contain

Objects stand in lists and maps, in the fields of structs, and in scopes (`Heap.Holds`).  An object
**comprises** whatever stands in it at some depth (`Heap.Comprises`).  Lists and maps may well comprise
themselves.  An object is **founded** (`Heap.Founded`) if no struct that it comprises does.

Who follows what objects contain, and neither enters a list or a map twice nor a struct that stands
inside itself, comes to an end: both the lists and maps and the structs run out (`Heap.containers`,
`Heap.structs`).
-/
namespace ScriptEngine

/-- The object is a list or a map. -/
def Object.isContainer : Object → Bool
  | .list _ | .map _ => true
  | _ => false

def Handle.isStruct : Handle → Bool
  | .struct _ => true
  | .token _ => false

/-- The values of the fields of a struct, in order. Tokens have none. -/
def Handle.values : Handle → List Value
  | .struct c => c.values
  | .token _ => []

/-- Who starts in a set of objects that lead nowhere else stays in it. -/
theorem mem_of_reflTransGen {f : Object → List Object} {S : List Object}
    (hS : ∀ o ∈ S, ∀ o' ∈ f o, o' ∈ S) {o o' : Object} (ho : o ∈ S)
    (hr : Relation.ReflTransGen (fun a b => b ∈ f a) o o') : o' ∈ S := by
  induction hr with
  | refl => exact ho
  | tail _ hstep ih => exact hS _ ih _ hstep

namespace Heap
variable {h : Heap} {o o' x : Object} {v : Value} {id : HandleId}

/-! ## Objects of heaps that agree -/

section
variable {g : Heap} {a : Nat}

theorem list_congr (hcell : g.cell? (.list a) = h.cell? (.list a)) : g.list a = h.list a := by
  rw [list, list, Option.map_injective (fun _ _ he => Cell.list.inj he) hcell]

theorem map_congr (hcell : g.cell? (.map a) = h.cell? (.map a)) : g.map a = h.map a := by
  rw [map, map, Option.map_injective (fun _ _ he => Cell.map.inj he) hcell]

theorem handle_congr (hcell : g.cell? (.handle a) = h.cell? (.handle a)) :
    g.handle a = h.handle a := by
  rw [handle, handle, Option.map_injective (fun _ _ he => Cell.handle.inj he) hcell]

theorem scope_congr (hcell : g.cell? (.scope a) = h.cell? (.scope a)) : g.scope a = h.scope a := by
  rw [scope, scope, Option.map_injective (fun _ _ he => Cell.scope.inj he) hcell]

end

/-! ## What stands in an object -/

/-- What is copied along with an object. -/
def contents (h : Heap) : Object → List Object
  | .list id => Value.objects (h.list id).items.toList
  | .map id => Value.objects ((h.map id).entries.map (·.2))
  | .handle id => (h.handle id).objects
  | .scope id =>
    Value.objects (h.scope id).vars.values ++ (h.scope id).packages.values.map .scope
  | .func _ | .chan _ => []

/-- What an object and its copy have in common. -/
def sharedBy (h : Heap) : Object → List Object
  | .func id => [.func id]
  | .chan id => [.chan id]
  | .handle id =>
    match h.handle id with
    | .token _ => [.handle id]
    | .struct _ => []
  | .scope id => (h.scope id).parent.toList.map .scope
  | .list _ | .map _ => []

/-- The object is one and the same in all copies, and nothing stands in it: a function, a channel or a
token. -/
def Leaf (h : Heap) : Object → Prop
  | .func _ | .chan _ => True
  | .handle id => (h.handle id).isStruct = false
  | .list _ | .map _ | .scope _ => False

/-- The second object stands in the first one. -/
def Holds (h : Heap) (o o' : Object) : Prop := o' ∈ h.contents o

/-- Who copies the first object comes across the second one. -/
def Comprises (h : Heap) : Object → Object → Prop := Relation.ReflTransGen h.Holds

/-- The object can be got at from the value. -/
def Within (h : Heap) (v : Value) (x : Object) : Prop :=
  ∃ o, v.object? = some o ∧ h.Comprises o x

theorem Within.held (hv : h.Within v o) (hx : h.Holds o x) : h.Within v x := by
  obtain ⟨o', ho', hcomp⟩ := hv
  exact ⟨o', ho', hcomp.tail hx⟩

theorem within_in (h : Heap) (v : Value) : v.In (h.Within v) := fun o ho => ⟨o, ho, .refl⟩

theorem Leaf.isContainer (ho : h.Leaf o) : o.isContainer = false := by
  cases o with
  | list id | map id => cases ho
  | _ => rfl

theorem Leaf.contents_eq (ho : h.Leaf o) : h.contents o = [] := by
  cases o with
  | func id | chan id => rfl
  | handle id =>
    rw [contents]
    cases hc : h.handle id with
    | struct c => rw [Leaf, hc] at ho; cases ho
    | token name => rfl
  | list id | map id | scope id => cases ho

theorem Leaf.not_holds (ho : h.Leaf o) : ¬ h.Holds o x := by
  rw [Holds, ho.contents_eq]
  exact List.not_mem_nil

/-- A leaf comprises nothing but itself. -/
theorem Leaf.eq_of_comprises (ho : h.Leaf o) (hx : h.Comprises o x) : x = o := by
  obtain heq | ⟨y, hy, -⟩ := Relation.ReflTransGen.cases_head hx
  · exact heq.symm
  · exact absurd hy ho.not_holds

theorem holds_item {id : ListId} (hv : v ∈ (h.list id).items.toList) (ho : v.object? = some o) :
    h.Holds (.list id) o :=
  List.mem_filterMap.mpr ⟨v, hv, ho⟩

theorem holds_entry {id : MapId} (hv : v ∈ (h.map id).entries.map (·.2)) (ho : v.object? = some o) :
    h.Holds (.map id) o :=
  List.mem_filterMap.mpr ⟨v, hv, ho⟩

theorem holds_field {c : StructCell} (hc : h.handle id = .struct c) (hv : v ∈ c.values)
    (ho : v.object? = some o) : h.Holds (.handle id) o := by
  rw [Holds, contents, hc]
  exact List.mem_filterMap.mpr ⟨v, hv, ho⟩

/-- What stands in what a value refers to is what another value refers to. -/
theorem exists_value_of_holds (hv : v.object? = some o) (hx : h.Holds o x) :
    ∃ w : Value, w.object? = some x := by
  have hobject {vs : List Value} (hx : x ∈ Value.objects vs) : ∃ w : Value, w.object? = some x := by
    obtain ⟨w, -, hw⟩ := List.mem_filterMap.mp hx
    exact ⟨w, hw⟩
  cases v with
  | list id | map id =>
    cases hv
    exact hobject hx
  | handle id =>
    cases hv
    rw [Holds, contents] at hx
    cases hc : h.handle id with
    | struct c =>
      rw [hc] at hx
      exact hobject hx
    | token name =>
      rw [hc] at hx
      cases hx
  | func id | chan id =>
    cases hv
    cases hx
  | _ => cases hv

/-! ## Founded objects -/

/-- **No struct stands inside itself**, wherever one comes to from the object. -/
def Founded (h : Heap) (o : Object) : Prop :=
  ∀ id, h.Comprises o (.handle id) → ¬ Relation.TransGen h.Holds (.handle id) (.handle id)

theorem Founded.held (hf : h.Founded o) (ho : h.Holds o o') : h.Founded o' :=
  fun id hid => hf id (.head ho hid)

theorem Leaf.founded (ho : h.Leaf o) : h.Founded o := by
  intro id hid hself
  obtain rfl := ho.eq_of_comprises hid
  obtain ⟨x, hx, -⟩ := Relation.TransGen.head'_iff.mp hself
  exact ho.not_holds hx

/-- Objects are founded if they are in a set of which it is known, for each member, that it is founded
or is a list or a map of members. -/
theorem founded_of_closed {P : Zone}
    (hP : ∀ o, P o → h.Founded o ∨ o.isContainer = true ∧ ∀ x, h.Holds o x → P x) (ho : P o) :
    h.Founded o := by
  intro id hid hself
  induction hid using Relation.ReflTransGen.head_induction_on with
  | refl =>
    obtain hf | ⟨hlist, -⟩ := hP _ ho
    · exact hf id .refl hself
    · cases hlist
  | head hx hid ih =>
    obtain hf | ⟨-, hin⟩ := hP _ ho
    · exact hf id (.head hx hid) hself
    · exact ih (hin _ hx)

/-- A struct of founded values is founded. -/
theorem founded_struct (hx : ∀ x, h.Holds (.handle id) x → h.Founded x) : h.Founded (.handle id) := by
  intro id' hid' hself
  obtain heq | ⟨x, hheld, hid'⟩ := Relation.ReflTransGen.cases_head hid'
  · cases heq
    obtain ⟨x, hheld, hback⟩ := Relation.TransGen.head'_iff.mp hself
    exact hx x hheld id hback hself
  · exact hx x hheld id' hid' hself

/-! ## What can be entered -/

/-- The object comprises none of these structs. -/
def Avoids (h : Heap) (path : Finset HandleId) (o : Object) : Prop :=
  ∀ id ∈ path, ¬ h.Comprises o (.handle id)

theorem Avoids.held {path : Finset HandleId} (ha : h.Avoids path o) (ho : h.Holds o o') :
    h.Avoids path o' :=
  fun id hid hcomp => ha id hid (.head ho hcomp)

/-- What stands in a founded struct avoids it. -/
theorem Avoids.insert {path : Finset HandleId} (ha : h.Avoids path (.handle id))
    (hf : h.Founded (.handle id)) (ho : h.Holds (.handle id) o) : h.Avoids (insert id path) o := by
  intro other hother hcomp
  obtain rfl | hother := Finset.mem_insert.mp hother
  · exact hf other .refl (.head' ho hcomp)
  · exact ha.held ho other hother hcomp

/-- The lists and the maps that have been made. -/
def containers (h : Heap) : Finset Object :=
  (Finset.range h.lists.next).image .list ∪ (Finset.range h.maps.next).image .map

/-- The structs that have been made. -/
def structs (h : Heap) : Finset HandleId :=
  {id ∈ Finset.range h.handles.next | (h.handle id).isStruct = true}

theorem card_containers_le (h : Heap) : h.containers.card ≤ h.lists.next + h.maps.next := by
  have hlists := Finset.card_image_le (s := Finset.range h.lists.next) (f := Object.list)
  have hmaps := Finset.card_image_le (s := Finset.range h.maps.next) (f := Object.map)
  rw [Finset.card_range] at hlists hmaps
  exact (Finset.card_union_le _ _).trans (Nat.add_le_add hlists hmaps)

theorem card_structs_le (h : Heap) : h.structs.card ≤ h.handles.next := by
  have hle := Finset.card_filter_le (Finset.range h.handles.next) fun id => (h.handle id).isStruct
  rwa [Finset.card_range] at hle

theorem mem_containers_of_item {id : ListId} (hv : v ∈ (h.list id).items.toList) :
    .list id ∈ h.containers :=
  Finset.mem_union_left _ (Finset.mem_image_of_mem _ (Finset.mem_range.mpr (lt_of_mem_items hv)))

theorem mem_containers_of_entry {id : MapId} (hv : v ∈ (h.map id).entries.map (·.2)) :
    .map id ∈ h.containers := by
  obtain ⟨e, he, -⟩ := List.mem_map.mp hv
  exact Finset.mem_union_right _
    (Finset.mem_image_of_mem _ (Finset.mem_range.mpr (lt_of_mem_entries he)))

theorem mem_structs_of_field {c : StructCell} (hc : h.handle id = .struct c) (hv : v ∈ c.values) :
    id ∈ h.structs := by
  refine Finset.mem_filter.mpr ⟨Finset.mem_range.mpr ?_, by rw [hc, Handle.isStruct]⟩
  by_contra hid
  rw [handle, Store.get?_eq_none (Nat.le_of_not_lt hid)] at hc
  cases hc
  cases hv

/-- Who enters something has less that is left to enter. -/
theorem card_sdiff_insert_lt {α : Type} [DecidableEq α] {all seen : Finset α} {a : α} (ha : a ∈ all)
    (hnew : a ∉ seen) : (all \ insert a seen).card < (all \ seen).card := by
  rw [Finset.sdiff_insert]
  exact Finset.card_erase_lt_of_mem (Finset.mem_sdiff.mpr ⟨ha, hnew⟩)

end Heap
end ScriptEngine
