/-!
# Objects behind references

A `Heap` holds objects of one type, told apart by their addresses. Objects are
made and changed, and never destroyed. What is said of an object at one address
stays so while others are made or changed.
-/

namespace Foxhttp.Library

universe u

abbrev Address := Nat

/-- The objects made so far, in order. -/
structure Heap (α : Type u) where
  objects : List α := []
  deriving DecidableEq, Repr

namespace Heap

variable {α : Type u}

/-- The object at an address. -/
def get? (heap : Heap α) (address : Address) : Option α :=
  heap.objects[address]?

/-- Make an object. -/
def alloc (heap : Heap α) (object : α) : Address × Heap α :=
  (heap.objects.length, ⟨heap.objects ++ [object]⟩)

/-- Change the object at an address. -/
def modify (heap : Heap α) (address : Address) (change : α → α) : Heap α :=
  ⟨heap.objects.modify address change⟩

variable {heap : Heap α} {address other : Address} {object made : α} {change : α → α}

@[simp] theorem get?_alloc_new : (heap.alloc made).2.get? (heap.alloc made).1 = some made := by
  simp [alloc, get?]

theorem get?_alloc_old (found : heap.get? address = some object) :
    (heap.alloc made).2.get? address = some object := by
  have inside := (List.getElem?_eq_some_iff.mp found).1
  rw [alloc, get?, List.getElem?_append_left inside]
  exact found

/-- A new object is at an address of its own. -/
theorem ne_alloc (found : heap.get? address = some object) : address ≠ (heap.alloc made).1 :=
  Nat.ne_of_lt (List.getElem?_eq_some_iff.mp found).1

theorem get?_modify_same (found : heap.get? address = some object) :
    (heap.modify address change).get? address = some (change object) := by
  rw [modify, get?, List.getElem?_modify_eq]
  exact congrArg (Option.map change) found

theorem get?_modify_other (different : address ≠ other) :
    (heap.modify address change).get? other = heap.get? other :=
  List.getElem?_modify_ne change heap.objects different

theorem isSome_alloc (found : (heap.get? address).isSome) :
    ((heap.alloc made).2.get? address).isSome := by
  obtain ⟨object, isObject⟩ := Option.isSome_iff_exists.mp found
  rw [get?_alloc_old isObject]
  rfl

@[simp] theorem isSome_modify :
    ((heap.modify address change).get? other).isSome = (heap.get? other).isSome := by
  rw [modify, get?, List.getElem?_modify, Option.map_eq_map, Option.isSome_map, get?]

/-- Every object has a property. -/
def All (heap : Heap α) (property : α → Prop) : Prop :=
  ∀ address object, heap.get? address = some object → property object

namespace All

variable {property weaker : α → Prop}

theorem empty : ({} : Heap α).All property := by
  intro address object found
  rw [get?, List.getElem?_nil] at found
  cases found

theorem imp (all : heap.All property) (implies : ∀ object, property object → weaker object) :
    heap.All weaker :=
  fun address object found => implies object (all address object found)

theorem alloc (all : heap.All property) (holds : property made) :
    (heap.alloc made).2.All property := by
  intro address object found
  rw [Heap.alloc, get?, List.getElem?_append] at found
  split at found
  · exact all address object found
  · obtain rfl : object = made := by simpa using List.mem_of_getElem? found
    exact holds

theorem modify (all : heap.All property)
    (kept : ∀ object, heap.get? address = some object → property (change object)) :
    (heap.modify address change).All property := by
  intro other object found
  by_cases same : address = other
  · subst same
    have inside : ((heap.modify address change).get? address).isSome =
        (heap.get? address).isSome := isSome_modify
    rw [found] at inside
    obtain ⟨before, isBefore⟩ := Option.isSome_iff_exists.mp inside.symm
    rw [get?_modify_same isBefore] at found
    cases found
    exact kept before isBefore
  · rw [get?_modify_other same] at found
    exact all other object found

end All

end Heap

end Foxhttp.Library
