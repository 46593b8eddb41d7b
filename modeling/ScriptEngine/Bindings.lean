/-! Finite maps from names, as scopes hold them. Each name is bound at most once. -/
namespace ScriptEngine

/-- Names with what they are bound to. -/
structure Bindings (α : Type) where
  entries : List (String × α) := []
deriving Inhabited

namespace Bindings

variable {α : Type}

/-- No names at all. -/
def empty : Bindings α := ⟨[]⟩

/-- What the first entry of this name holds. -/
def findEntry (name : String) : List (String × α) → Option α
  | [] => none
  | (n, a) :: rest => if n == name then some a else findEntry name rest

/-- What a name is bound to. -/
def find? (b : Bindings α) (name : String) : Option α := findEntry name b.entries

/-- The name is bound. -/
def contains (b : Bindings α) (name : String) : Bool := (b.find? name).isSome

/-- Replaces the value behind the first occurrence of `name`, or adds it at the end. -/
def insertEntry (name : String) (a : α) : List (String × α) → List (String × α)
  | [] => [(name, a)]
  | (n, b) :: rest => if n == name then (n, a) :: rest else (n, b) :: insertEntry name a rest

/-- Binds `name` to `a`, whatever it was bound to before. -/
def insert (b : Bindings α) (name : String) (a : α) : Bindings α := ⟨insertEntry name a b.entries⟩

/-- Unbinds `name`. -/
def erase (b : Bindings α) (name : String) : Bindings α := ⟨b.entries.filter (·.1 != name)⟩

/-- The names, sorted. -/
def names (b : Bindings α) : List String :=
  (b.entries.map (·.1)).mergeSort (fun m n => !decide (n < m))

/-- What the names are bound to. -/
def values (b : Bindings α) : List α := b.entries.map (·.2)

theorem findEntry_insertEntry_self (name : String) (a : α) (l : List (String × α)) :
    findEntry name (insertEntry name a l) = some a := by
  induction l with
  | nil => simp [insertEntry, findEntry]
  | cons x rest ih =>
    by_cases h : x.1 = name <;> simp [insertEntry, findEntry, h, ih]

theorem findEntry_insertEntry_of_ne {name other : String} (h : other ≠ name) (a : α)
    (l : List (String × α)) : findEntry other (insertEntry name a l) = findEntry other l := by
  induction l with
  | nil => simp [insertEntry, findEntry, Ne.symm h]
  | cons x rest ih =>
    by_cases hn : x.1 = name
    · simp [insertEntry, findEntry, hn, Ne.symm h]
    · simp [insertEntry, findEntry, hn, ih]

@[simp] theorem find?_insert_self (b : Bindings α) (name : String) (a : α) :
    (b.insert name a).find? name = some a := findEntry_insertEntry_self name a b.entries

theorem find?_insert_of_ne (b : Bindings α) {name other : String} (h : other ≠ name) (a : α) :
    (b.insert name a).find? other = b.find? other := findEntry_insertEntry_of_ne h a b.entries

end Bindings

end ScriptEngine
