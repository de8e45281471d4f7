import Mathlib.Data.List.Sort

/-!
# Sorting with an unstable sort

`std::sort` returns some permutation in which no element precedes one that is
less. A `Sorter` is a function with that contract, so what is proved for every
`Sorter` does not depend on the order it leaves equivalent elements in.
-/

namespace Foxhttp.Library

universe u

variable {α : Type u}

/-- A sort by `less`, with the contract of `std::sort`. -/
structure Sorter (less : α → α → Bool) where
  sort : List α → List α
  perm : ∀ items, (sort items).Perm items
  sorted : ∀ items, (sort items).Pairwise fun first second => less second first = false

namespace Sorter

variable {less : α → α → Bool}

/-- Sorting by insertion, for a strict weak order. -/
def insertion (asymmetric : ∀ first second, less first second = true → less second first = false)
    (incomparable : ∀ first second third, less second first = false → less third second = false →
      less third first = false) : Sorter less where
  sort := List.insertionSort fun first second => less second first = false
  perm := List.perm_insertionSort _
  sorted := by
    have total : Std.Total fun first second => less second first = false :=
      ⟨fun first second => by
        cases order : less second first with
        | false => exact .inl rfl
        | true => exact .inr (asymmetric second first order)⟩
    have transitive : IsTrans α fun first second => less second first = false :=
      ⟨incomparable⟩
    exact List.pairwise_insertionSort _

/-- A sort by a finer order is a sort. -/
def refine {finer : α → α → Bool} (sorter : Sorter finer)
    (keeps : ∀ first second, less first second = true → finer first second = true) :
    Sorter less where
  sort := sorter.sort
  perm := sorter.perm
  sorted items := (sorter.sorted items).imp fun {first second} notBefore => by
    rw [← Bool.not_eq_true] at *
    exact fun before => notBefore (keeps second first before)

theorem mem_sort (sorter : Sorter less) {items : List α} {item : α} :
    item ∈ sorter.sort items ↔ item ∈ items :=
  (sorter.perm items).mem_iff

end Sorter

end Foxhttp.Library
