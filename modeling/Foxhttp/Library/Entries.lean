import Mathlib.Data.List.AList
import Mathlib.Data.List.Induction
import Mathlib.Data.List.Nodup
import Mathlib.Order.Lattice

/-!
# Lists of keys and values

`lookup` takes the first entry of a key, and inserting the entries one after the
other keeps the last. With distinct keys there is no difference, and entries in
the order of their keys are known by what is found under each.
-/

namespace Foxhttp.Library

universe u v

variable {α : Type u} {β : Type v} [BEq α] [LawfulBEq α]

theorem lookup_cons_of_ne {key held : α} (different : key ≠ held) (value : β)
    (rest : List (α × β)) : ((held, value) :: rest).lookup key = rest.lookup key := by
  rw [List.lookup_cons, beq_eq_false_iff_ne.mpr different]

theorem mem_of_lookup {entries : List (α × β)} {key : α} {value : β}
    (found : entries.lookup key = some value) : (key, value) ∈ entries := by
  obtain ⟨before, after, split, -⟩ := List.lookup_eq_some_iff.mp found
  simp [split]

theorem lookup_of_mem {entries : List (α × β)} (keys : (entries.map Prod.fst).Nodup)
    {entry : α × β} (member : entry ∈ entries) : entries.lookup entry.1 = some entry.2 := by
  induction entries with
  | nil => cases member
  | cons first rest inductionHypothesis =>
      obtain ⟨fresh, later⟩ := List.nodup_cons.mp keys
      rcases List.mem_cons.mp member with rfl | isLater
      · exact List.lookup_cons_self
      · have different : entry.1 ≠ first.1 :=
          fun same => fresh (same ▸ List.mem_map.mpr ⟨entry, isLater, rfl⟩)
        rw [← inductionHypothesis later isLater]
        exact lookup_cons_of_ne different first.2 rest

theorem mem_iff_lookup {entries : List (α × β)} (keys : (entries.map Prod.fst).Nodup)
    (entry : α × β) : entry ∈ entries ↔ entries.lookup entry.1 = some entry.2 :=
  ⟨lookup_of_mem keys, mem_of_lookup⟩

theorem lookup_reverse {entries : List (α × β)} (keys : (entries.map Prod.fst).Nodup) (key : α) :
    entries.reverse.lookup key = entries.lookup key := by
  cases found : entries.lookup key with
  | none =>
      rw [List.lookup_eq_none_iff] at found ⊢
      exact fun entry member => found entry (List.mem_reverse.mp member)
  | some value =>
      have reversed : (entries.reverse.map Prod.fst).Nodup := by
        rw [List.map_reverse]
        exact List.nodup_reverse.mpr keys
      exact lookup_of_mem reversed (List.mem_reverse.mpr (mem_of_lookup found))

/-- A key is found from the end when an entry has it. -/
theorem lookup_reverse_isSome_iff {entries : List (α × β)} {key : α} :
    (entries.reverse.lookup key).isSome ↔ key ∈ entries.map Prod.fst := by
  rw [List.lookup_isSome_iff, List.mem_map]
  constructor
  · rintro ⟨entry, member, same⟩
    exact ⟨entry, List.mem_reverse.mp member, (eq_of_beq same).symm⟩
  · rintro ⟨entry, member, rfl⟩
    exact ⟨entry, List.mem_reverse.mpr member, beq_self_eq_true _⟩

/-- The last entry of a key is the one found from the end. -/
theorem lookup_reverse_last (front : List (α × β)) {entry : α × β} {back : List (α × β)}
    (last : entry.1 ∉ back.map Prod.fst) :
    (front ++ entry :: back).reverse.lookup entry.1 = some entry.2 := by
  have later : back.reverse.lookup entry.1 = none := by
    rw [← Option.not_isSome_iff_eq_none, lookup_reverse_isSome_iff]
    exact last
  rw [List.reverse_append, List.reverse_cons, List.append_assoc, List.lookup_append, later,
    Option.none_or, List.singleton_append, List.lookup_cons_self]

/-! ## Entries in the order of their keys -/

section Ordered

variable [LinearOrder α]

/-- Every key is before those of the later entries. -/
def KeysIncrease (entries : List (α × β)) : Prop :=
  entries.Pairwise fun first second => first.1 < second.1

omit [BEq α] [LawfulBEq α] in
theorem KeysIncrease.nodup {entries : List (α × β)} (increase : KeysIncrease entries) :
    (entries.map Prod.fst).Nodup := by
  refine List.pairwise_map.mpr (List.Pairwise.imp ?_ increase)
  exact fun before => ne_of_lt before

/-- Entries in the order of their keys are known by what is found under each. -/
theorem KeysIncrease.eq_of_lookup {entries others : List (α × β)}
    (increase : KeysIncrease entries) (othersIncrease : KeysIncrease others)
    (same : ∀ key, entries.lookup key = others.lookup key) : entries = others := by
  have permuted : entries.Perm others := by
    refine (List.perm_ext_iff_of_nodup increase.nodup.of_map othersIncrease.nodup.of_map).mpr ?_
    intro entry
    rw [mem_iff_lookup increase.nodup, mem_iff_lookup othersIncrease.nodup, same]
  refine permuted.eq_of_pairwise ?_ increase othersIncrease
  exact fun first second _ _ before after => absurd before (lt_asymm after)

end Ordered

variable [DecidableEq α]

/-- What a map holds after the entries were inserted one after the other. -/
theorem lookup_foldl_insert (entries : List (α × β)) (start : AList fun _ : α => β) (key : α) :
    (entries.foldl (fun held entry => held.insert entry.1 entry.2) start).lookup key =
      (entries.reverse.lookup key).or (start.lookup key) := by
  induction entries using List.reverseRecOn with
  | nil => rfl
  | append_singleton entries entry inductionHypothesis =>
      rw [List.foldl_concat, List.reverse_append, List.reverse_singleton, List.singleton_append,
        List.lookup_cons]
      by_cases isKey : key = entry.1
      · subst isKey
        rw [AList.lookup_insert, beq_self_eq_true]
        rfl
      · rw [AList.lookup_insert_ne isKey, inductionHypothesis, beq_eq_false_iff_ne.mpr isKey]

/-- Of distinct keys each has its value. -/
theorem lookup_foldl_insert_empty {entries : List (α × β)} (keys : (entries.map Prod.fst).Nodup)
    (key : α) :
    (entries.foldl (fun held entry => held.insert entry.1 entry.2)
      (∅ : AList fun _ : α => β)).lookup key = entries.lookup key := by
  rw [lookup_foldl_insert, AList.lookup_empty, Option.or_none, lookup_reverse keys]

end Foxhttp.Library
