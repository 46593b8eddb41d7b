/-! Stores of objects that are shared by reference. An object is known by the number of its slot;
numbers are given out in order and never again, so a new object differs from every older one. -/
namespace ScriptEngine

/-- Objects by number. A slot is empty once its object is gone. -/
structure Store (α : Type) where
  slots : Array (Option α) := #[]
deriving Inhabited

namespace Store

variable {α : Type}

/-- The number the next object will have. -/
def next (s : Store α) : Nat := s.slots.size

/-- The object with this number. -/
def get? (s : Store α) (id : Nat) : Option α := (s.slots[id]?).join

/-- The store with one more object, whose number is `s.next`. -/
def push (s : Store α) (a : α) : Store α := ⟨s.slots.push (some a)⟩

/-- Replaces the object with this number. -/
def set (s : Store α) (id : Nat) (a : α) : Store α := ⟨s.slots.setIfInBounds id (some a)⟩

/-- Changes the object with this number, if there is one. -/
@[inline] def modify (s : Store α) (id : Nat) (f : α → α) : Store α :=
  ⟨s.slots.modify id (·.map f)⟩

/-- Empties the slot with this number. -/
def erase (s : Store α) (id : Nat) : Store α := ⟨s.slots.setIfInBounds id none⟩

/-- The objects with their numbers, in order. -/
def toList (s : Store α) : List (Nat × α) :=
  s.slots.toList.zipIdx.filterMap fun (a, i) => a.map fun a => (i, a)

theorem get?_push_next (s : Store α) (a : α) : (s.push a).get? s.next = some a := by
  simp [get?, push, next]

theorem get?_push_of_ne {s : Store α} {a : α} {id : Nat} (h : id ≠ s.next) :
    (s.push a).get? id = s.get? id := by
  simp only [get?, push, next, Array.getElem?_push] at *
  simp [h]

theorem get?_set_self {s : Store α} {id : Nat} {a b : α} (h : s.get? id = some b) :
    (s.set id a).get? id = some a := by
  simp only [get?, set, Array.getElem?_setIfInBounds] at *
  have : id < s.slots.size := by
    by_cases hlt : id < s.slots.size
    · exact hlt
    · simp [Array.getElem?_eq_none (Nat.le_of_not_lt hlt)] at h
  simp [this]

theorem get?_set_of_ne {s : Store α} {id other : Nat} {a : α} (h : other ≠ id) :
    (s.set id a).get? other = s.get? other := by
  simp [get?, set, Ne.symm h]

end Store

end ScriptEngine
