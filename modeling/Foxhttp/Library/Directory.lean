import Mathlib.Data.List.AList
import Foxhttp.Library.Heap

/-!
# Objects under names

A directory keeps an address for each name in use. Whoever asks for a name gets the
object there, or a new one. No two names share an object, so the directory is a partial
function from names to objects, and every operation changes it at one name alone.
-/

namespace Foxhttp.Library

universe u v

/-- The addresses of names, each of an object of its own. -/
structure Directory (Name : Type v) [DecidableEq Name] (α : Type u) where
  heap : Heap α
  names : AList fun _ : Name => Address
  inside : ∀ name address, names.lookup name = some address → (heap.get? address).isSome
  apart : ∀ first second address, names.lookup first = some address →
    names.lookup second = some address → first = second

namespace Directory

variable {Name : Type v} [DecidableEq Name] {α : Type u}

/-- No names. -/
def empty : Directory Name α where
  heap := {}
  names := ∅
  inside _ _ found := by cases found
  apart _ _ _ found := by cases found

/-- The object of a name. -/
def object (directory : Directory Name α) (name : Name) : Option α :=
  (directory.names.lookup name).bind directory.heap.get?

/-- The directory with a name, made with a new object when it is not there. -/
def obtain (directory : Directory Name α) (name : Name) (fresh : α) : Directory Name α :=
  match isAddress : directory.names.lookup name with
  | some _ => directory
  | none =>
      { heap := (directory.heap.alloc fresh).2
        names := directory.names.insert name (directory.heap.alloc fresh).1
        inside := by
          intro other address found
          by_cases same : other = name
          · subst same
            rw [AList.lookup_insert] at found
            cases found
            rw [Heap.get?_alloc_new]
            rfl
          · rw [AList.lookup_insert_ne same] at found
            exact Heap.isSome_alloc (directory.inside other address found)
        apart := by
          have isNew {other : Name} {address : Address}
              (found : directory.names.lookup other = some address) :
              address ≠ (directory.heap.alloc fresh).1 := by
            obtain ⟨held, isHeld⟩ := Option.isSome_iff_exists.mp (directory.inside _ _ found)
            exact Heap.ne_alloc isHeld
          intro first second address isFirst isSecond
          by_cases firstNew : first = name <;> by_cases secondNew : second = name
          · rw [firstNew, secondNew]
          · subst firstNew
            rw [AList.lookup_insert] at isFirst
            rw [AList.lookup_insert_ne secondNew] at isSecond
            cases isFirst
            exact absurd rfl (isNew isSecond)
          · subst secondNew
            rw [AList.lookup_insert] at isSecond
            rw [AList.lookup_insert_ne firstNew] at isFirst
            cases isSecond
            exact absurd rfl (isNew isFirst)
          · rw [AList.lookup_insert_ne firstNew] at isFirst
            rw [AList.lookup_insert_ne secondNew] at isSecond
            exact directory.apart first second address isFirst isSecond }

/-- Change the object of a name. -/
def edit (directory : Directory Name α) (name : Name) (change : α → α) : Directory Name α :=
  match directory.names.lookup name with
  | none => directory
  | some address =>
      { directory with
        heap := directory.heap.modify address change
        inside := fun other held found => by
          rw [Heap.isSome_modify]
          exact directory.inside other held found }

/-- Forget a name. -/
def erase (directory : Directory Name α) (name : Name) : Directory Name α where
  heap := directory.heap
  names := directory.names.erase name
  inside other address found := by
    by_cases same : other = name
    · subst same
      rw [AList.lookup_erase] at found
      cases found
    · rw [AList.lookup_erase_ne same] at found
      exact directory.inside other address found
  apart first second address isFirst isSecond := by
    by_cases firstGone : first = name
    · subst firstGone
      rw [AList.lookup_erase] at isFirst
      cases isFirst
    · by_cases secondGone : second = name
      · subst secondGone
        rw [AList.lookup_erase] at isSecond
        cases isSecond
      · rw [AList.lookup_erase_ne firstGone] at isFirst
        rw [AList.lookup_erase_ne secondGone] at isSecond
        exact directory.apart first second address isFirst isSecond

/-! ## The function of a directory -/

variable (directory : Directory Name α) (name other : Name)

@[simp]
theorem object_empty : (empty : Directory Name α).object name = none := rfl

theorem isSome_object : (directory.object name).isSome = decide (name ∈ directory.names) := by
  rw [object]
  cases found : directory.names.lookup name with
  | none => simp [AList.lookup_eq_none.mp found]
  | some address =>
      have member : name ∈ directory.names := AList.lookup_isSome.mp (by rw [found]; rfl)
      simpa [member] using directory.inside name address found

theorem object_obtain (fresh : α) : (directory.obtain name fresh).object other =
    if other = name then some ((directory.object name).getD fresh)
    else directory.object other := by
  rw [obtain]
  split
  · rename_i address found
    obtain ⟨held, isHeld⟩ := Option.isSome_iff_exists.mp (directory.inside name address found)
    have here : directory.object name = some held := by rw [object, found]; exact isHeld
    split
    · rename_i same
      rw [same, here]
      rfl
    · rfl
  · rename_i absent
    have here : directory.object name = none := by rw [object, absent]; rfl
    split
    · rename_i same
      subst same
      rw [here, object]
      dsimp only
      rw [AList.lookup_insert]
      exact Heap.get?_alloc_new
    · rename_i different
      rw [object, object]
      dsimp only
      rw [AList.lookup_insert_ne different]
      cases found : directory.names.lookup other with
      | none => rfl
      | some address =>
          obtain ⟨held, isHeld⟩ :=
            Option.isSome_iff_exists.mp (directory.inside other address found)
          exact (Heap.get?_alloc_old isHeld).trans isHeld.symm

theorem object_edit (change : α → α) : (directory.edit name change).object other =
    if other = name then (directory.object name).map change else directory.object other := by
  rw [edit]
  split
  · rename_i absent
    split
    · rename_i same
      rw [same, object, absent]
      rfl
    · rfl
  · rename_i address found
    obtain ⟨held, isHeld⟩ := Option.isSome_iff_exists.mp (directory.inside name address found)
    split
    · rename_i same
      subst same
      rw [object, object]
      dsimp only
      rw [found, Option.bind_some, Option.bind_some, isHeld]
      exact Heap.get?_modify_same isHeld
    · rename_i different
      rw [object, object]
      dsimp only
      cases isOther : directory.names.lookup other with
      | none => rfl
      | some place =>
          have distinct : address ≠ place := fun same =>
            different (directory.apart other name place isOther (same ▸ found))
          exact Heap.get?_modify_other distinct

theorem object_erase : (directory.erase name).object other =
    if other = name then none else directory.object other := by
  rw [erase, object]
  dsimp only
  split
  · rename_i same
    rw [same, AList.lookup_erase]
    rfl
  · rename_i different
    rw [AList.lookup_erase_ne different]
    rfl

end Directory

end Foxhttp.Library
