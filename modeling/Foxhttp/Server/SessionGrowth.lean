import Foxhttp.Server.SessionAffinity
import Foxhttp.Server.StrandSelection

/-!
# Session affinity across a growth

A larger ring has the entries of the smaller one, and those of the new indices.
So what a hash leads to is what it led to before, or a new index.
-/

namespace Foxhttp.Server.StrandPool

open Foxhttp.Library

variable {platform : Platform} {sorter : Sorter lessLoaded} {pool changed : StrandPool}

/-- Every hash still leads to its strand, or leads to one which has been added. -/
def MovesOnlyToNew (pool changed : StrandPool) : Prop :=
  ∀ hash strand, (pool.strandByHash hash).2 = some (some strand) →
    (changed.strandByHash hash).2 = some (some strand) ∨
      ∃ added ∈ changed.strands.drop pool.strands.length,
        (changed.strandByHash hash).2 = some (some added)

theorem ringOf_isRing (platform : Platform) (size : Nat) : RingOf size (ringOf platform size) :=
  @ringOf_update platform
    { config := ⟨0, 0, 0⟩, strands := [], strandsStats := [], currentSize := size, hashRing := [],
      made := 0 }

/-- What a hash leads to on a larger ring is what it leads to on the smaller one,
or a new index. -/
theorem owner_grows (platform : Platform) {size newSize : Nat} (some : 0 < size)
    (larger : size ≤ newSize) (hash : Nat) :
    ∃ index, owner (ringOf platform newSize) hash = .some index ∧ index < newSize ∧
      (owner (ringOf platform size) hash = .some index ∨ size ≤ index) := by
  obtain ⟨index, owns, below⟩ :=
    (ringOf_isRing platform newSize).owner_lt (Nat.lt_of_lt_of_le some larger) hash
  refine ⟨index, owns, below, ?_⟩
  rcases Nat.lt_or_ge index size with kept | new
  · exact .inl (owner_ringOf larger owns kept)
  · exact .inr new

theorem resize_grows {newSize : Nat} (grows : pool.currentSize < newSize)
    (returned : pool.resize platform sorter newSize = (changed, .returned)) :
    changed.strands = pool.strands ++ List.range' pool.made (newSize - pool.currentSize) ∧
      changed.hashRing = ringOf platform newSize := by
  unfold resize at returned
  split at returned
  · cases returned
  · rw [if_neg (Nat.ne_of_gt grows)] at returned
    cases returned
    exact ⟨pool.createStrands_strands _, rfl⟩

/-- **Growing the pool moves sessions only to new strands**: with one more index, a
hash leads to what it led to before or to that index, and so with a consistent
pool which is resized to more strands. -/
theorem growth_moves_only_to_new (platform : Platform) :
    (∀ size hash, 0 < size → ∃ index, owner (ringOf platform size) hash = some index ∧
      (owner (ringOf platform (size + 1)) hash = some index ∨
        owner (ringOf platform (size + 1)) hash = some size)) ∧
    ∀ (sorter : Sorter lessLoaded) (pool changed : StrandPool) (newSize : Nat),
      Consistent platform pool → pool.currentSize < newSize →
        pool.resize platform sorter newSize = (changed, .returned) →
          MovesOnlyToNew pool changed := by
  constructor
  · intro size hash positive
    obtain ⟨index, owns, below, cases⟩ := owner_grows platform positive (Nat.le_succ size) hash
    obtain ⟨before, owned, -⟩ := (ringOf_isRing platform size).owner_lt positive hash
    refine ⟨before, owned, ?_⟩
    rcases cases with same | new
    · cases same.symm.trans owned
      exact .inl owns
    · exact .inr (by rw [owns, Nat.le_antisymm (Nat.le_of_lt_succ below) new])
  · intro sorter pool changed newSize consistent grows returned hash strand leads
    obtain ⟨strands, ring⟩ := resize_grows grows returned
    obtain ⟨index, owns, here⟩ := strandByHash_eq_some_iff.mp leads
    have positive : 0 < pool.currentSize := by
      rw [← consistent.strands]
      exact Nat.zero_lt_of_lt (List.getElem?_eq_some_iff.mp here).1
    obtain ⟨next, ownsNext, below, cases⟩ :=
      owner_grows platform positive (Nat.le_of_lt grows) hash
    rcases cases with same | new
    · rw [consistent.ring, same] at owns
      cases owns
      refine .inl (strandByHash_eq_some_iff.mpr ⟨index, ring ▸ ownsNext, ?_⟩)
      rw [strands, List.getElem?_append_left (List.getElem?_eq_some_iff.mp here).1]
      exact here
    · have there : changed.strands[next]? = some (pool.made + (next - pool.currentSize)) := by
        rw [strands, List.getElem?_append_right (by rw [consistent.strands]; exact new),
          consistent.strands, List.getElem?_range' (by omega), Nat.one_mul]
      refine .inr ⟨_, ?_, strandByHash_eq_some_iff.mpr ⟨next, ring ▸ ownsNext, there⟩⟩
      rw [strands, List.drop_left, List.mem_range'_1]
      omega

/-- Two strands grown to three, when all virtual nodes have one hash. -/
theorem growth_moves_only_to_new_one_hash :
    MovesOnlyToNew (new ⟨fun _ => 0, id⟩ ⟨2, 1, 64⟩)
      ((new ⟨fun _ => 0, id⟩ ⟨2, 1, 64⟩).resize ⟨fun _ => 0, id⟩ stableSorter 3).1 :=
  (growth_moves_only_to_new ⟨fun _ => 0, id⟩).2 stableSorter _ _ 3 (consistent_new _ _)
    (Nat.lt_succ_self 2) (Prod.ext rfl rfl)

end Foxhttp.Server.StrandPool
