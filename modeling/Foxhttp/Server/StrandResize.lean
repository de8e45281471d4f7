import Mathlib.Data.List.Nodup
import Foxhttp.Server.StrandPool

/-!
# Resizing in step

`resize` computes the indices to remove before it removes the first of them.
Every removal moves the strands behind it down, and `remove_strand` passes over
an index which no longer fits. The vectors stay in step with `current_size_`
exactly as long as each index fits when its turn comes.
-/

namespace Foxhttp.Server.StrandPool

open Foxhttp.Library

variable {platform : Platform} {sorter : Sorter lessLoaded}

/-- The ring has its entries for the indices below a size, in order. -/
structure RingOf (size : Nat) (ring : List (Nat × Nat)) : Prop where
  sorted : ring.Pairwise fun first second => ringLe first second = true
  entries : ∀ index, ring.countP (fun entry => entry.2 = index) = if index < size then 100 else 0

/-- The vectors, the size and the ring agree on the size requested last. -/
structure InStep (requested : Nat) (pool : StrandPool) : Prop where
  strands : pool.strands.length = requested
  strandsStats : pool.strandsStats.length = requested
  currentSize : pool.currentSize = requested
  ring : RingOf requested pool.hashRing

/-- Every index which a shrinking resize removes fits when its turn comes. -/
def RemovesAll (platform : Platform) (sorter : Sorter lessLoaded) (pool : StrandPool)
    (newSize : Nat) : Prop :=
  ∀ (turn index : Nat), (pool.indicesToRemove platform sorter newSize)[turn]? = some index →
    index + turn < pool.strands.length

/-! ## The ring -/

theorem ringLe_trans (first second third : Nat × Nat) (one : ringLe first second = true)
    (two : ringLe second third = true) : ringLe first third = true := by
  simp only [ringLe, Bool.or_eq_true, Bool.and_eq_true, decide_eq_true_eq] at *
  omega

theorem ringLe_total (first second : Nat × Nat) :
    (ringLe first second || ringLe second first) = true := by
  simp only [ringLe, Bool.or_eq_true, Bool.and_eq_true, decide_eq_true_eq]
  omega

theorem countP_nodes (platform : Platform) (size index : Nat) :
    ((List.range size).flatMap fun i =>
        (List.range 100).map fun j => (platform.hash (virtualNode i j), i)).countP
      (fun entry => entry.2 = index) = if index < size then 100 else 0 := by
  have one (i : Nat) : ((List.range 100).map fun j => (platform.hash (virtualNode i j), i)).countP
      (fun entry => entry.2 = index) = if i = index then 100 else 0 := by
    rw [List.countP_map]
    by_cases same : i = index
    · rw [if_pos same, List.countP_eq_length.mpr (by simp [same]), List.length_range]
    · rw [if_neg same, List.countP_eq_zero.mpr (by simp [same])]
  induction size with
  | zero => rfl
  | succ size inductionHypothesis =>
      rw [@List.range_succ size, List.flatMap_append, List.countP_append, inductionHypothesis,
        List.flatMap_singleton, one]
      split <;> split <;> split <;> omega

theorem ringOf_update (pool : StrandPool) :
    RingOf pool.currentSize (updateConsistentHashRing platform pool).hashRing where
  sorted := List.pairwise_mergeSort ringLe_trans ringLe_total _
  entries index := by
    rw [updateConsistentHashRing, (List.mergeSort_perm _ _).countP_eq]
    exact countP_nodes platform pool.currentSize index

/-! ## The vectors -/

theorem createStrands_lengths (pool : StrandPool) (count : Nat) :
    (pool.createStrands count).strands.length = pool.strands.length + count ∧
      (pool.createStrands count).strandsStats.length = pool.strandsStats.length + count := by
  induction count generalizing pool with
  | zero => exact ⟨rfl, rfl⟩
  | succ count inductionHypothesis =>
      obtain ⟨strands, stats⟩ := inductionHypothesis pool.createStrand
      rw [createStrands, strands, stats]
      simp only [createStrand, List.length_append, List.length_singleton]
      omega

theorem removeStrand_lengths (pool : StrandPool) (index : Nat)
    (same : pool.strands.length = pool.strandsStats.length) :
    (pool.removeStrand index).strands.length =
        pool.strands.length - (if index < pool.strands.length then 1 else 0) ∧
      (pool.removeStrand index).strands.length = (pool.removeStrand index).strandsStats.length := by
  unfold removeStrand
  split
  · rename_i inside
    simp only [List.length_eraseIdx, same ▸ inside, if_true, same, and_self]
  · exact ⟨rfl, same⟩

/-- The vectors stay together, and lose as many elements as there are indices
exactly when every index fits in its turn. -/
theorem removeStrands_lengths (indices : List Nat) (pool : StrandPool)
    (same : pool.strands.length = pool.strandsStats.length)
    (enough : indices.length ≤ pool.strands.length) :
    (indices.foldl removeStrand pool).strands.length =
        (indices.foldl removeStrand pool).strandsStats.length ∧
      pool.strands.length - indices.length ≤ (indices.foldl removeStrand pool).strands.length ∧
      ((indices.foldl removeStrand pool).strands.length = pool.strands.length - indices.length ↔
        ∀ turn index, indices[turn]? = some index → index + turn < pool.strands.length) := by
  induction indices generalizing pool with
  | nil => exact ⟨same, Nat.le_refl _, by simp⟩
  | cons index rest inductionHypothesis =>
      obtain ⟨lengthIs, sameAfter⟩ := pool.removeStrand_lengths index same
      rw [List.length_cons] at enough
      rw [List.foldl_cons, List.length_cons]
      by_cases fits : index < pool.strands.length
      · rw [if_pos fits] at lengthIs
        obtain ⟨together, least, exact⟩ :=
          inductionHypothesis (pool.removeStrand index) sameAfter (by omega)
        rw [lengthIs] at least exact
        refine ⟨together, by omega, ?_⟩
        rw [Nat.add_comm rest.length 1, ← Nat.sub_sub, exact]
        constructor
        · intro all turn other isNext
          cases turn with
          | zero =>
              cases isNext
              exact fits
          | succ turn =>
              have later := all turn other isNext
              omega
        · intro all turn other isNext
          have later := all (turn + 1) other isNext
          omega
      · rw [if_neg fits, Nat.sub_zero] at lengthIs
        obtain ⟨together, least, -⟩ :=
          inductionHypothesis (pool.removeStrand index) sameAfter (by omega)
        rw [lengthIs] at least
        refine ⟨together, by omega, ?_⟩
        constructor
        · intro lost
          omega
        · intro all
          exact absurd (all 0 index rfl) fits

theorem indicesToRemove_length (pool : StrandPool) (newSize : Nat)
    (enough : pool.currentSize ≤ pool.strandsStats.length) :
    (pool.indicesToRemove platform sorter newSize).length = pool.currentSize - newSize := by
  have sorted := (sorter.perm (pool.loadFactors platform)).length_eq
  rw [indicesToRemove, List.length_map, List.length_take, sorted, loadFactors, List.length_mapIdx,
    List.length_take]
  omega

/-! ## Histories -/

theorem new_inStep (platform : Platform) (config : StrandPoolConfig) :
    InStep config.initialSize (new platform config) := by
  let empty : StrandPool :=
    { config := config, strands := [], strandsStats := [], currentSize := 0, hashRing := [],
      made := 0 }
  obtain ⟨strands, stats⟩ := createStrands_lengths empty config.initialSize
  exact
    { strands := strands.trans (Nat.zero_add _)
      strandsStats := stats.trans (Nat.zero_add _)
      currentSize := rfl
      ring := ringOf_update
        { empty.createStrands config.initialSize with currentSize := config.initialSize } }

/-- A resize which returns keeps the pool in step exactly when it removes all
the strands it means to. -/
theorem resize_inStep_iff {pool changed : StrandPool} {requested newSize : Nat}
    (inStep : InStep requested pool)
    (returned : pool.resize platform sorter newSize = (changed, .returned)) :
    InStep newSize changed ↔ RemovesAll platform sorter pool newSize := by
  unfold resize at returned
  split at returned
  · cases returned
  · split at returned
    · rename_i same
      cases returned
      rw [same, inStep.currentSize]
      refine ⟨fun _ => ?_, fun _ => inStep⟩
      intro turn index isNext
      simp [indicesToRemove, inStep.currentSize] at isNext
    · rename_i different
      cases returned
      have step (vectors : StrandPool) :
          InStep newSize
              (updateConsistentHashRing platform { vectors with currentSize := newSize }) ↔
            vectors.strands.length = newSize ∧ vectors.strandsStats.length = newSize :=
        ⟨fun inStep => ⟨inStep.strands, inStep.strandsStats⟩,
          fun lengths => ⟨lengths.1, lengths.2, rfl,
            ringOf_update { vectors with currentSize := newSize }⟩⟩
      rw [step]
      have strands := inStep.strands
      have stats := inStep.strandsStats
      have size := inStep.currentSize
      by_cases grows : pool.currentSize < newSize
      · rw [if_pos grows]
        obtain ⟨moreStrands, moreStats⟩ :=
          pool.createStrands_lengths (newSize - pool.currentSize)
        refine ⟨fun _ => ?_, fun _ => by omega⟩
        intro turn index isNext
        simp [indicesToRemove, Nat.sub_eq_zero_of_le (Nat.le_of_lt grows)] at isNext
      · rw [if_neg grows]
        have count : (pool.indicesToRemove platform sorter newSize).length = _ :=
          pool.indicesToRemove_length newSize (by omega)
        obtain ⟨together, -, exact⟩ := removeStrands_lengths
          (pool.indicesToRemove platform sorter newSize) pool (strands.trans stats.symm)
          (by omega)
        rw [RemovesAll, ← exact, count]
        omega

/-- The histories of a pool: its construction, calls of `resize` and
`update_config` which return, and requests, which only change the statistics.
Every shrinking call meets a condition on the pool and the new size. -/
inductive History (platform : Platform) (sorter : Sorter lessLoaded)
    (meets : StrandPool → Nat → Prop) : Nat → StrandPool → Prop where
  | constructed (config : StrandPoolConfig) :
      History platform sorter meets config.initialSize (new platform config)
  | resized {requested newSize pool changed} (prior : History platform sorter meets requested pool)
      (condition : meets pool newSize)
      (returned : pool.resize platform sorter newSize = (changed, .returned)) :
      History platform sorter meets newSize changed
  | updated {requested newConfig pool changed}
      (prior : History platform sorter meets requested pool)
      (condition : meets pool newConfig.initialSize)
      (returned : pool.updateConfig platform sorter newConfig = (changed, .returned)) :
      History platform sorter meets newConfig.initialSize changed
  | served {requested pool stats} (prior : History platform sorter meets requested pool)
      (sameLength : stats.length = pool.strandsStats.length) :
      History platform sorter meets requested { pool with strandsStats := stats }

/-- **The vectors stay in step** in every history whose calls remove all the
strands they mean to. -/
theorem stays_in_step {requested : Nat} {pool : StrandPool}
    (history : History platform sorter (RemovesAll platform sorter) requested pool) :
    InStep requested pool := by
  induction history with
  | constructed config => exact new_inStep platform config
  | resized _ condition returned inductionHypothesis =>
      exact (resize_inStep_iff inductionHypothesis returned).mpr condition
  | @updated requested newConfig pool changed _ condition returned inductionHypothesis =>
      unfold updateConfig at returned
      dsimp only at returned
      have inStep : InStep requested { pool with config := newConfig } :=
        { inductionHypothesis with }
      split at returned
      · exact (resize_inStep_iff inStep returned).mpr condition
      · rename_i same
        cases returned
        have sizes := (not_not.mp same).trans inductionHypothesis.currentSize
        rw [sizes]
        exact inStep
  | served _ sameLength inductionHypothesis =>
      exact { inductionHypothesis with
        strandsStats := sameLength.trans inductionHypothesis.strandsStats }

/-- A sort by load factor which leaves equals in their order. -/
def stableSorter : Sorter lessLoaded :=
  .insertion
    (fun first second less => by
      simp only [lessLoaded, decide_eq_true_eq, decide_eq_false_iff_not] at *
      exact lt_asymm less)
    (fun first second third one two => by
      simp only [lessLoaded, decide_eq_false_iff_not, not_lt] at *
      exact le_trans one two)

/-- Three strands, of which the first is dropped. -/
theorem stays_in_step_one_dropped :
    InStep 2 ((new ⟨fun _ => 0, id⟩ ⟨3, 1, 64⟩).resize ⟨fun _ => 0, id⟩ stableSorter 2).1 := by
  refine stays_in_step (.resized (.constructed ⟨3, 1, 64⟩) ?_ (Prod.ext rfl rfl))
  rintro (_ | turn) index isNext
  · cases isNext
    exact Nat.succ_pos 2
  · cases isNext

/-- Of four idle strands shrunk to one, two remain. -/
theorem shrink_leaves_two :
    ¬ ∀ (platform : Platform) (sorter : Sorter lessLoaded) (requested : Nat) (pool : StrandPool),
      History platform sorter (fun _ _ => True) requested pool → InStep requested pool := by
  intro staysInStep
  have inStep := staysInStep ⟨fun _ => 0, id⟩ stableSorter 1
    ((new ⟨fun _ => 0, id⟩ ⟨4, 1, 64⟩).resize ⟨fun _ => 0, id⟩ stableSorter 1).1
    (.resized (.constructed ⟨4, 1, 64⟩) trivial (Prod.ext rfl rfl))
  have left : ((new ⟨fun _ => 0, id⟩ ⟨4, 1, 64⟩).resize ⟨fun _ => 0, id⟩ stableSorter
      1).1.strands.length = 2 := by decide
  rw [inStep.strands] at left
  cases left

end Foxhttp.Server.StrandPool
