import Mathlib.Data.List.Induction
import Mathlib.Data.List.Pairwise
import Foxhttp.Library.Sorter
import Foxhttp.Library.Text
import Foxhttp.Middleware.Program

/-!
# The order of the pipeline

The list of middlewares is sorted again with `std::sort` after a registration.
What it makes of middlewares of one priority is not specified, so the order of
registration survives exactly where there is nothing to order.
-/

namespace Foxhttp.Middleware

open Foxhttp.Library

/-- What `name()` and `priority()` of every middleware return. -/
structure Traits where
  name : MiddlewareId → Text
  priority : MiddlewareId → Int

/-- The comparator of `sort_middlewares_by_priority`. -/
def Traits.less (traits : Traits) (a b : MiddlewareId) : Bool :=
  traits.priority a < traits.priority b

/-- The calls which change the list of middlewares. -/
inductive Registration where
  | use (mw : MiddlewareId)
  | useAll (mws : List MiddlewareId)
  | insertByPriority (mw : MiddlewareId)
  | remove (middlewareName : Text)
  | clear

/-- `auto_sort_by_priority_`, which nothing changes. -/
def autoSortByPriority : Bool := true

variable {traits : Traits}

/-- Either `use`: what is pushed back is sorted in. -/
def use (sorter : Sorter traits.less) (mws added : List MiddlewareId) : List MiddlewareId :=
  if autoSortByPriority then sorter.sort (mws ++ added) else mws ++ added

/-- `insert_by_priority`. -/
def insertByPriority (sorter : Sorter traits.less) (mws : List MiddlewareId) (mw : MiddlewareId) :
    List MiddlewareId :=
  sorter.sort (mws ++ [mw])

/-- `remove`. -/
def remove (traits : Traits) (mws : List MiddlewareId) (middlewareName : Text) :
    List MiddlewareId :=
  mws.filter fun mw => traits.name mw != middlewareName

/-- The list after a call in which `std::sort` behaves like `sorter`. -/
def register (mws : List MiddlewareId) :
    Sorter traits.less × Registration → List MiddlewareId
  | (sorter, .use mw) => use sorter mws [mw]
  | (sorter, .useAll added) => use sorter mws added
  | (sorter, .insertByPriority mw) => insertByPriority sorter mws mw
  | (_, .remove middlewareName) => remove traits mws middlewareName
  | (_, .clear) => []

/-- The list after a sequence of calls. -/
def registerAll (calls : List (Sorter traits.less × Registration)) : List MiddlewareId :=
  calls.foldl register []

/-- What a call adds and removes, in the order of registration. -/
def account (traits : Traits) (mws : List MiddlewareId) : Registration → List MiddlewareId
  | .use mw => mws ++ [mw]
  | .useAll added => mws ++ added
  | .insertByPriority mw => mws ++ [mw]
  | .remove middlewareName => mws.filter fun mw => traits.name mw != middlewareName
  | .clear => []

/-- The middlewares added by a sequence of calls and not removed, in the order
of registration. -/
def remaining (traits : Traits) (calls : List Registration) : List MiddlewareId :=
  calls.foldl (account traits) []

/-- A list is in the stable priority order of the middlewares registered. -/
structure StablyOrdered (traits : Traits) (registered mws : List MiddlewareId) : Prop where
  sorted : mws.Pairwise fun first second => traits.priority first ≤ traits.priority second
  complete : mws.Perm registered
  stable : ∀ priority : Int,
    mws.filter (fun mw => traits.priority mw = priority) =
      registered.filter fun mw => traits.priority mw = priority

theorem register_perm {mws registered : List MiddlewareId} (same : mws.Perm registered)
    (call : Sorter traits.less × Registration) :
    (register mws call).Perm (account traits registered call.2) := by
  obtain ⟨sorter, call⟩ := call
  cases call with
  | use mw => exact (sorter.perm _).trans (same.append_right [mw])
  | useAll added => exact (sorter.perm _).trans (same.append_right added)
  | insertByPriority mw => exact (sorter.perm _).trans (same.append_right [mw])
  | remove middlewareName => exact same.filter _
  | clear => exact .refl []

/-- Nothing is lost, added or duplicated. -/
theorem registerAll_perm (calls : List (Sorter traits.less × Registration)) :
    (registerAll calls).Perm (remaining traits (calls.map Prod.snd)) := by
  suffices loop : ∀ mws registered : List MiddlewareId, mws.Perm registered →
      (calls.foldl register mws).Perm
        ((calls.map Prod.snd).foldl (account traits) registered) from loop [] [] (.refl [])
  induction calls with
  | nil => exact fun _ _ same => same
  | cons call calls inductionHypothesis =>
      exact fun mws registered same => inductionHypothesis _ _ (register_perm same call)

/-- What every sort establishes and removals keep, the list has. -/
theorem registerAll_pairwise {relation : MiddlewareId → MiddlewareId → Prop}
    {calls : List (Sorter traits.less × Registration)}
    (sorts : ∀ call ∈ calls, ∀ items, (call.1.sort items).Pairwise relation) :
    (registerAll calls).Pairwise relation := by
  induction calls using List.reverseRecOn with
  | nil => exact .nil
  | append_singleton calls call inductionHypothesis =>
      have before := inductionHypothesis fun earlier member =>
        sorts earlier (List.mem_append_left _ member)
      have last := sorts call (by simp)
      rw [registerAll, List.foldl_append, List.foldl_cons, List.foldl_nil]
      obtain ⟨sorter, call⟩ := call
      cases call with
      | use mw => exact last _
      | useAll added => exact last _
      | insertByPriority mw => exact last _
      | remove middlewareName => exact before.filter _
      | clear => exact .nil

theorem registerAll_sorted (calls : List (Sorter traits.less × Registration)) :
    (registerAll calls).Pairwise fun first second =>
      traits.priority first ≤ traits.priority second := by
  refine registerAll_pairwise fun call _ items => (call.1.sorted items).imp ?_
  intro first second notBefore
  simpa [Traits.less] using notBefore

/-- Priorities first, and among equal ones this middleware before the others. -/
def Traits.lessFavouring (traits : Traits) (favoured a b : MiddlewareId) : Bool :=
  traits.less a b || (traits.priority a == traits.priority b && a == favoured && b != favoured)

/-- A sort which moves one middleware before all of its priority. -/
def favouring (traits : Traits) (favoured : MiddlewareId) :
    Sorter (traits.lessFavouring favoured) :=
  .insertion
    (by
      simp only [Traits.lessFavouring, Traits.less]
      grind)
    (by
      simp only [Traits.lessFavouring, Traits.less]
      grind)

/-- What `std::sort` may do. -/
def Sorter.favouring (traits : Traits) (favoured : MiddlewareId) : Sorter traits.less :=
  (Middleware.favouring traits favoured).refine fun _ _ before => by
    simp [Traits.lessFavouring, before]

theorem favouring_sorted (traits : Traits) (favoured : MiddlewareId) (items : List MiddlewareId) :
    ((Sorter.favouring traits favoured).sort items).Pairwise fun first second =>
      traits.priority first = traits.priority second → second = favoured → first = favoured := by
  refine ((favouring traits favoured).sorted items).imp ?_
  intro first second notBefore same isFavoured
  simp only [Traits.lessFavouring, Traits.less] at notBefore
  grind

/-- With ties decided for one middleware in every call, it comes before the
others of its priority. -/
theorem favourite_leads (traits : Traits) (favoured : MiddlewareId) (calls : List Registration) :
    (registerAll (calls.map fun call => (Sorter.favouring traits favoured, call))).Pairwise
      fun earlier later => traits.priority earlier = traits.priority later →
        later = favoured → earlier = favoured := by
  refine registerAll_pairwise fun call member items => ?_
  obtain ⟨original, _, rfl⟩ := List.mem_map.mp member
  exact favouring_sorted traits favoured items

/-- **The pipeline is in the stable priority order**, whatever `std::sort` does
within its contract, exactly when no two different middlewares which remain have
one priority. -/
theorem stablyOrdered_iff (traits : Traits) (calls : List Registration) :
    (∀ sorted : List (Sorter traits.less × Registration), sorted.map Prod.snd = calls →
      StablyOrdered traits (remaining traits calls) (registerAll sorted)) ↔
      ∀ first ∈ remaining traits calls, ∀ second ∈ remaining traits calls,
        traits.priority first = traits.priority second → first = second := by
  constructor
  · intro ordered first firstRemains second secondRemains same
    by_contra different
    -- the order of registration cannot put both of them first
    have leads (favoured : MiddlewareId) :
        ((remaining traits calls).filter fun mw =>
          traits.priority mw = traits.priority first).Pairwise fun earlier later =>
            later = favoured → earlier = favoured := by
      have stable := (ordered (calls.map fun call => (Sorter.favouring traits favoured, call))
        (by simp)).stable (traits.priority first)
      rw [← stable]
      refine List.pairwise_filter.mpr ((favourite_leads traits favoured calls).imp ?_)
      intro earlier later leads isFirst isFirst'
      simp only [decide_eq_true_eq] at isFirst isFirst'
      exact leads (isFirst.trans isFirst'.symm)
    have isFirst : first ∈ (remaining traits calls).filter fun mw =>
        traits.priority mw = traits.priority first := by
      simpa using firstRemains
    have isSecond : second ∈ (remaining traits calls).filter fun mw =>
        traits.priority mw = traits.priority first := by
      simpa [same] using secondRemains
    -- so neither of the two comes before the other
    let apart (earlier later : MiddlewareId) : Prop :=
      ¬ (earlier = first ∧ later = second) ∧ ¬ (earlier = second ∧ later = first)
    have symmetric : Std.Symm apart := ⟨fun earlier later never => by grind⟩
    have never := ((leads first).and (leads second)).imp (S := apart) (by grind)
    exact (never.forall isFirst isSecond different).1 ⟨rfl, rfl⟩
  · intro unique sorted isCalls
    have complete := registerAll_perm sorted
    rw [isCalls] at complete
    refine ⟨registerAll_sorted sorted, complete, fun priority => ?_⟩
    refine (complete.filter _).eq_of_pairwise ?_
      (List.pairwise_of_forall fun _ _ => trivial) (List.pairwise_of_forall fun _ _ => trivial)
    intro first second isFirst isSecond _ _
    simp only [List.mem_filter, decide_eq_true_eq] at isFirst isSecond
    exact unique first (complete.mem_iff.mp isFirst.1) second isSecond.1
      (isFirst.2.trans isSecond.2.symm)

/-- Two middlewares of normal priority, registered one after the other. -/
theorem equal_priorities_swapped :
    ¬ ∀ (traits : Traits) (sorted : List (Sorter traits.less × Registration)),
      StablyOrdered traits (remaining traits (sorted.map Prod.snd)) (registerAll sorted) := by
  intro stablyOrdered
  let traits : Traits := ⟨fun mw => if mw = 1 then "first".toList else "second".toList, fun _ => 0⟩
  let sorter := Sorter.favouring traits 2
  have stable := (stablyOrdered traits [(sorter, .use 1), (sorter, .use 2)]).stable 0
  exact absurd stable (by decide)

end Foxhttp.Middleware
