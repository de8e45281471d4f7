import Foxhttp.Library.Shares
import Foxhttp.Server.StrandSelection

/-!
# What falls to a strand by its weight

`weightedround_robin_strand` adds the weights of the healthy strands up twice:
once for the range of the draw, and once to find where the draw falls. Both go
over the same strands, so every draw falls to a strand, and to each as often as
it has weight.
-/

namespace Foxhttp.Server.StrandPool

open Foxhttp.Library

/-- The weight with which a strand counts. -/
def share (platform : Platform) (toSize : ℚ → Nat) (stats : StrandStats) : Nat :=
  if stats.isHealthy then weight platform toSize stats else 0

/-- The strands are in a vector, of fewer than 2 ^ 63 bytes with 56 of them for
each, and weigh at most 100. -/
structure Weighable (platform : Platform) (toSize : ℚ → Nat) (inUse : List StrandStats) :
    Prop where
  vector : inUse.length * 56 < 2 ^ 63
  weights : ∀ stats ∈ inUse, stats.isHealthy = true → weight platform toSize stats ≤ 100

/-- The draws below the total weight are shared by the healthy strands by their
weights: each falls to one with some weight, and to each as many as it weighs. So
where there is any weight, the strand to which the draw falls is served. -/
structure PartitionsDraws (platform : Platform) (toSize : ℚ → Nat) (inUse : List StrandStats) :
    Prop where
  total : totalWeight platform toSize inUse = (inUse.map (share platform toSize)).sum
  falls : ∀ draw < totalWeight platform toSize inUse, ∃ index stats,
    drawnFrom platform toSize draw 0 0 inUse = some index ∧ inUse[index]? = some stats ∧
      stats.isHealthy = true ∧ 0 < weight platform toSize stats
  shares : ∀ index stats, inUse[index]? = some stats → stats.isHealthy = true →
    (List.range (totalWeight platform toSize inUse)).countP
      (fun draw => drawnFrom platform toSize draw 0 0 inUse = some index) =
        weight platform toSize stats
  served : 0 < totalWeight platform toSize inUse → ∀ pool : StrandPool, pool.strands ≠ [] →
    pool.statsInUse = some inUse → ∀ roundRobinIndex draw, ∃ index stats,
      inUse[index]? = some stats ∧ stats.isHealthy = true ∧ 0 < weight platform toSize stats ∧
        pool.weightedRoundRobinStrand platform toSize roundRobinIndex draw =
          pool.serve roundRobinIndex index

variable {platform : Platform} {toSize : ℚ → Nat}

theorem Weighable.sum_le {inUse : List StrandStats}
    (weights : ∀ stats ∈ inUse, stats.isHealthy = true → weight platform toSize stats ≤ 100) :
    (inUse.map (share platform toSize)).sum ≤ inUse.length * 100 := by
  induction inUse with
  | nil => exact Nat.le_refl 0
  | cons stats inUse inductionHypothesis =>
      obtain ⟨here, later⟩ := List.forall_mem_cons.mp weights
      have small : share platform toSize stats ≤ 100 := by
        rw [share]
        split
        · exact here ‹_›
        · exact Nat.zero_le 100
      have rest := inductionHypothesis later
      rw [List.map_cons, List.sum_cons, List.length_cons]
      omega

/-- The first loop adds the weights up. -/
theorem totalWeight_eq {inUse : List StrandStats}
    (fits : (inUse.map (share platform toSize)).sum < 2 ^ 64) :
    totalWeight platform toSize inUse = (inUse.map (share platform toSize)).sum := by
  have loop (inUse : List StrandStats) (total : Nat)
      (fits : total + (inUse.map (share platform toSize)).sum < 2 ^ 64) :
      inUse.foldl (fun total stats =>
        if stats.isHealthy then (total + weight platform toSize stats) % 2 ^ 64 else total) total =
          total + (inUse.map (share platform toSize)).sum := by
    induction inUse generalizing total with
    | nil => rfl
    | cons stats inUse inductionHypothesis =>
        have step : (if stats.isHealthy then (total + weight platform toSize stats) % 2 ^ 64
            else total) = total + share platform toSize stats := by
          rw [List.map_cons, List.sum_cons] at fits
          rw [share] at fits ⊢
          split at fits
          · rename_i healthy
            rw [if_pos healthy, if_pos healthy, Nat.mod_eq_of_lt (by omega)]
          · rename_i unhealthy
            rw [if_neg unhealthy, if_neg unhealthy, Nat.add_zero]
        rw [List.map_cons, List.sum_cons, ← Nat.add_assoc] at fits ⊢
        rw [List.foldl_cons, step, inductionHypothesis _ fits]
  rw [totalWeight, loop inUse 0 (by rwa [Nat.zero_add]), Nat.zero_add]

/-- The second loop finds the place to which the draw falls. -/
theorem drawnFrom_eq (inUse : List StrandStats) {draw current : Nat} (i : Nat)
    (reached : current ≤ draw)
    (fits : current + (inUse.map (share platform toSize)).sum < 2 ^ 64) :
    drawnFrom platform toSize draw current i inUse =
      (shareOf (inUse.map (share platform toSize)) (draw - current)).map (i + ·) := by
  induction inUse generalizing current i with
  | nil => rfl
  | cons stats inUse inductionHypothesis =>
      rw [List.map_cons, List.sum_cons, ← Nat.add_assoc] at fits
      rw [List.map_cons, drawnFrom, shareOf]
      have onward (weight : Nat) (reached : current + weight ≤ draw)
          (fits : current + weight + (inUse.map (share platform toSize)).sum < 2 ^ 64) :
          drawnFrom platform toSize draw (current + weight) (i + 1) inUse =
            ((shareOf (inUse.map (share platform toSize)) (draw - current - weight)).map
              (· + 1)).map (i + ·) := by
        rw [inductionHypothesis (i + 1) reached fits, Nat.sub_sub, Option.map_map]
        congr 1
        funext place
        show i + 1 + place = i + (place + 1)
        omega
      by_cases healthy : stats.isHealthy = true
      · rw [share, if_pos healthy] at fits ⊢
        rw [if_pos healthy]
        dsimp only
        rw [Nat.mod_eq_of_lt (by omega)]
        by_cases here : draw < current + weight platform toSize stats
        · rw [if_pos here, if_pos (by omega)]
          rfl
        · rw [if_neg here, if_neg (by omega)]
          exact onward _ (by omega) fits
      · rw [share, if_neg healthy] at fits ⊢
        rw [if_neg healthy, if_neg (Nat.not_lt_zero _)]
        exact onward 0 reached fits

/-- A strand which counts with some weight is healthy. -/
theorem share_pos {stats : StrandStats} (positive : 0 < share platform toSize stats) :
    stats.isHealthy = true ∧ 0 < weight platform toSize stats := by
  rw [share] at positive
  split at positive
  · exact ⟨‹_›, positive⟩
  · cases positive

/-- **Weighted selection partitions the draw.** -/
theorem weighted_selection_partitions {inUse : List StrandStats}
    (weighable : Weighable platform toSize inUse) : PartitionsDraws platform toSize inUse := by
  have vector := weighable.vector
  have sum := Weighable.sum_le weighable.weights
  have fits : (inUse.map (share platform toSize)).sum < 2 ^ 64 := by omega
  have total := totalWeight_eq fits
  have drawn (draw : Nat) : drawnFrom platform toSize draw 0 0 inUse =
      shareOf (inUse.map (share platform toSize)) draw := by
    rw [drawnFrom_eq inUse 0 (Nat.zero_le draw) (by rwa [Nat.zero_add]), Nat.sub_zero]
    simp
  have falls (draw : Nat) (below : draw < totalWeight platform toSize inUse) : ∃ index stats,
      drawnFrom platform toSize draw 0 0 inUse = some index ∧ inUse[index]? = some stats ∧
        stats.isHealthy = true ∧ 0 < weight platform toSize stats := by
    rw [total] at below
    obtain ⟨index, _, isIndex, here, positive⟩ := shareOf_of_lt below
    rw [List.getElem?_map] at here
    obtain ⟨stats, isStats, rfl⟩ := Option.map_eq_some_iff.mp here
    exact ⟨index, stats, (drawn draw).trans isIndex, isStats, share_pos positive⟩
  refine ⟨total, falls, ?_, ?_⟩
  · intro index stats here healthy
    simp only [drawn, total]
    have weighs : (inUse.map (share platform toSize))[index]? =
        some (weight platform toSize stats) := by
      rw [List.getElem?_map, here, Option.map_some, share, if_pos healthy]
    exact countP_shareOf weighs
  · intro positive pool nonempty isInUse roundRobinIndex draw
    obtain ⟨index, stats, isIndex, here, healthy, weighs⟩ :=
      falls (uniform draw (totalWeight platform toSize inUse - 1))
        (Nat.lt_of_le_of_lt (uniform_le _ _) (Nat.sub_lt positive Nat.one_pos))
    refine ⟨index, stats, here, healthy, weighs, ?_⟩
    have filled : pool.strands.isEmpty = false := by simpa using nonempty
    rw [weightedRoundRobinStrand, filled, if_neg Bool.false_ne_true, isInUse]
    simp only
    rw [if_neg (Nat.ne_of_gt positive), isIndex]

/-- An idle strand, one which is not healthy, a busy one, and one half busy. -/
def fourStrands : List StrandStats :=
  [{}, { isHealthy := false }, { activeRequests := 3 },
    { activeRequests := 1, completedRequests := 1 }]

theorem weighted_selection_partitions_four :
    PartitionsDraws ⟨fun _ => 0, id⟩ (fun load => load.floor.toNat) fourStrands := by
  refine weighted_selection_partitions ⟨by decide, ?_⟩
  decide +kernel

end Foxhttp.Server.StrandPool
