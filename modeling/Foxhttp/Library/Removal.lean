import Mathlib.Data.List.InsertIdx
import Mathlib.Data.List.Nodup
import Mathlib.Data.List.Perm.Subperm
import Mathlib.Order.Lattice

/-!
# Removal by indices

Elements are removed from a list by their indices, one after the other, while
the list moves up behind each. What goes is what the indices first stood for
when they descend. Otherwise it may be something else, and a choice of the least
elements stays one when what is exchanged is equal.
-/

namespace Foxhttp.Library

universe u v

variable {α : Type u} {β : Type v}

/-- What removing by indices, one after the other, takes from a list. -/
def taken : List Nat → List α → List α
  | [], _ => []
  | index :: rest, items => items[index]?.toList ++ taken rest (items.eraseIdx index)

/-- What the indices stand for in a list. -/
def meant (indices : List Nat) (items : List α) : List α :=
  indices.filterMap (items[·]?)

theorem length_meant {indices : List Nat} {items : List α}
    (inside : ∀ index ∈ indices, index < items.length) :
    (meant indices items).length = indices.length := by
  induction indices with
  | nil => rfl
  | cons index rest inductionHypothesis =>
      obtain ⟨here, later⟩ := List.forall_mem_cons.mp inside
      rw [meant, List.filterMap_cons_some (List.getElem?_eq_getElem here), List.length_cons,
        ← meant, inductionHypothesis later, List.length_cons]

theorem nodup_meant {indices : List Nat} {items : List α} (nodup : indices.Nodup)
    (distinct : items.Nodup) : (meant indices items).Nodup := by
  refine List.Nodup.filterMap (fun first second item isFirst isSecond => ?_) nodup
  obtain ⟨firstInside, rfl⟩ := List.getElem?_eq_some_iff.mp isFirst
  obtain ⟨secondInside, same⟩ := List.getElem?_eq_some_iff.mp isSecond
  exact (distinct.getElem_inj_iff.mp same).symm

theorem meant_subset (indices : List Nat) (items : List α) : meant indices items ⊆ items := by
  intro item isMeant
  obtain ⟨index, -, isItem⟩ := List.mem_filterMap.mp isMeant
  exact List.mem_of_getElem? isItem

/-- What is taken and what is left make up the list. -/
theorem perm_taken (indices : List Nat) (items : List α) :
    (taken indices items ++ indices.foldl List.eraseIdx items).Perm items := by
  induction indices generalizing items with
  | nil => exact .refl items
  | cons index rest inductionHypothesis =>
      rw [taken, List.foldl_cons, List.append_assoc]
      refine ((inductionHypothesis (items.eraseIdx index)).append_left _).trans ?_
      by_cases inside : index < items.length
      · rw [List.getElem?_eq_getElem inside]
        exact List.getElem_cons_eraseIdx_perm inside
      · rw [List.getElem?_eq_none (Nat.le_of_not_lt inside),
          List.eraseIdx_of_length_le (Nat.le_of_not_lt inside)]
        exact .refl items

theorem foldl_eraseIdx_map (f : α → β) (indices : List Nat) (items : List α) :
    (indices.foldl List.eraseIdx items).map f = indices.foldl List.eraseIdx (items.map f) := by
  induction indices generalizing items with
  | nil => rfl
  | cons index rest inductionHypothesis =>
      rw [List.foldl_cons, List.foldl_cons, inductionHypothesis, List.eraseIdx_map]

/-- Indices which descend take what they stand for. -/
theorem taken_of_descending {indices : List Nat}
    (descending : indices.Pairwise fun first second => second < first) (items : List α) :
    taken indices items = meant indices items := by
  induction indices generalizing items with
  | nil => rfl
  | cons index rest inductionHypothesis =>
      obtain ⟨below, later⟩ := List.pairwise_cons.mp descending
      have unmoved : meant rest (items.eraseIdx index) = meant rest items :=
        List.filterMap_congr fun other member =>
          List.getElem?_eraseIdx_of_lt (below other member)
      rw [taken, inductionHypothesis later, unmoved, meant, meant, List.filterMap_cons]
      cases items[index]? with
      | none => rfl
      | some item => rfl

/-! ## Choosing the least -/

/-- No element which is not chosen is less than one which is. -/
def Least [LE β] (key : α → β) (chosen items : List α) : Prop :=
  ∀ one ∈ chosen, ∀ other ∈ items, other ∉ chosen → key one ≤ key other

/-- Of two lists of one length, each has an element which the other lacks when
the other has one. -/
theorem exists_not_mem {one other : List α} (nodup : one.Nodup)
    (length : other.length ≤ one.length) {item : α} (here : item ∈ other) (missing : item ∉ one) :
    ∃ stray ∈ one, stray ∉ other := by
  by_contra none
  have within : one ⊆ other := fun stray member => by
    by_contra absent
    exact none ⟨stray, member, absent⟩
  have same := (List.subperm_of_subset nodup within).perm_of_length_le length
  exact missing (same.mem_iff.mpr here)

/-- Other elements in place of the least are the least as well exactly when those
exchanged are equal. -/
theorem least_iff_exchanged [LinearOrder β] {key : α → β} {chosen other items : List α}
    (least : Least key chosen items) (chosenNodup : chosen.Nodup) (otherNodup : other.Nodup)
    (sameLength : other.length = chosen.length) (chosenWithin : chosen ⊆ items)
    (otherWithin : other ⊆ items) :
    Least key other items ↔ ∀ stray ∈ other, stray ∉ chosen → ∀ missed ∈ chosen,
      missed ∉ other → key stray = key missed := by
  constructor
  · intro also stray isOther isStray missed isChosen isMissed
    exact le_antisymm (also stray isOther missed (chosenWithin isChosen) isMissed)
      (least missed isChosen stray (otherWithin isOther) isStray)
  · intro exchanged one isOther item isItem isLeft
    -- each side that is out of place has one of the other side to be exchanged with
    by_cases oneChosen : one ∈ chosen
    · by_cases itemChosen : item ∈ chosen
      · obtain ⟨stray, strayOther, isStray⟩ :=
          exists_not_mem otherNodup (Nat.le_of_eq sameLength.symm) itemChosen isLeft
        calc key one ≤ key stray := least one oneChosen stray (otherWithin strayOther) isStray
          _ = key item := exchanged stray strayOther isStray item itemChosen isLeft
      · exact least one oneChosen item isItem itemChosen
    · by_cases itemChosen : item ∈ chosen
      · exact le_of_eq (exchanged one isOther oneChosen item itemChosen isLeft)
      · obtain ⟨missed, missedChosen, isMissed⟩ :=
          exists_not_mem chosenNodup (Nat.le_of_eq sameLength) isOther oneChosen
        calc key one = key missed := exchanged one isOther oneChosen missed missedChosen isMissed
          _ ≤ key item := least missed missedChosen item isItem itemChosen

/-- What is not removed is what is left, by keys which are all different. -/
theorem key_mem_iff {key : α → β} {removed left items : List α}
    (parts : (removed ++ left).Perm items) (keys : (items.map key).Nodup) {item : α}
    (member : item ∈ items) : key item ∈ left.map key ↔ item ∉ removed := by
  obtain ⟨-, -, apart⟩ := List.nodup_append'.mp (parts.nodup_iff.mpr (List.Nodup.of_map key keys))
  constructor
  · intro stays isRemoved
    obtain ⟨other, isLeft, same⟩ := List.mem_map.mp stays
    have within : other ∈ items := parts.subset (List.mem_append_right _ isLeft)
    obtain rfl := List.inj_on_of_nodup_map keys within member same
    exact apart isRemoved isLeft
  · intro notRemoved
    exact List.mem_map_of_mem
      ((List.mem_append.mp (parts.mem_iff.mpr member)).resolve_left notRemoved)

end Foxhttp.Library
