import Foxhttp.Library.Removal
import Foxhttp.Server.SessionAffinity
import Foxhttp.Server.StrandSelection

/-!
# Does a shrink remove the idlest strands?

`resize` sorts the indices by load factor and removes the strands at the first
of them. The statistics go with their strands. But the indices are those before
the first removal, so once a strand has gone, what stands at an index behind it
is the next one.
-/

namespace Foxhttp.Server

open Foxhttp.Library

/-- The load factor as the exact quotient. -/
def StrandStats.exactLoad (stats : StrandStats) : ℚ :=
  (stats.activeRequests : ℚ) / ((stats.activeRequests + stats.completedRequests : Nat) : ℚ)

namespace StrandPool

/-- The strands with their statistics. -/
def entries (pool : StrandPool) : List (StrandId × StrandStats) :=
  pool.strands.zip pool.strandsStats

/-- What is left is of the size, was there before, and no strand of it is idler
than one which has gone. Each strand keeps its own statistics at its own index. -/
structure KeepsBusiest (pool changed : StrandPool) (newSize : Nat) : Prop where
  size : changed.strands.length = newSize
  survivors : changed.strands ⊆ pool.strands
  busiest : ∀ removed ∈ pool.entries, removed.1 ∉ changed.strands →
    ∀ kept ∈ pool.entries, kept.1 ∈ changed.strands → removed.2.exactLoad ≤ kept.2.exactLoad
  statistics : changed.strandsStats.length = changed.strands.length ∧
    changed.entries ⊆ pool.entries

/-- A strand which goes in place of one of those with the least load factors has
the load factor of every one of them which stays. -/
def ExchangesEqual (platform : Platform) (sorter : Sorter lessLoaded) (pool : StrandPool)
    (newSize : Nat) : Prop :=
  ∀ stray ∈ taken (pool.indicesToRemove platform sorter newSize) pool.entries,
    stray ∉ meant (pool.indicesToRemove platform sorter newSize) pool.entries →
    ∀ missed ∈ meant (pool.indicesToRemove platform sorter newSize) pool.entries,
      missed ∉ taken (pool.indicesToRemove platform sorter newSize) pool.entries →
        stray.2.exactLoad = missed.2.exactLoad

variable {platform : Platform} {sorter : Sorter lessLoaded} {pool changed : StrandPool}
  {requested newSize : Nat}

/-! ## The pools of a history -/

/-- The strands are told apart by when they were made. -/
structure Numbered (pool : StrandPool) : Prop where
  distinct : pool.strands.Nodup
  made : ∀ strand ∈ pool.strands, strand < pool.made

theorem createStrands_made (pool : StrandPool) (count : Nat) :
    (pool.createStrands count).made = pool.made + count := by
  induction count generalizing pool with
  | zero => rfl
  | succ count inductionHypothesis =>
      rw [createStrands, inductionHypothesis, Nat.add_comm count 1, ← Nat.add_assoc]
      rfl

theorem Numbered.createStrands (numbered : Numbered pool) (count : Nat) :
    Numbered (pool.createStrands count) := by
  have strands := pool.createStrands_strands count
  constructor
  · rw [strands, List.nodup_append']
    refine ⟨numbered.distinct, List.nodup_range', fun strand old new => ?_⟩
    have earlier := numbered.made strand old
    exact Nat.not_le.mpr earlier (List.mem_range'_1.mp new).1
  · intro strand member
    rw [strands, List.mem_append, List.mem_range'_1] at member
    rw [createStrands_made]
    rcases member with old | new
    · exact Nat.lt_add_right count (numbered.made strand old)
    · exact new.2

theorem foldl_removeStrand_made (indices : List Nat) (pool : StrandPool) :
    (indices.foldl removeStrand pool).made = pool.made := by
  induction indices generalizing pool with
  | nil => rfl
  | cons index indices inductionHypothesis =>
      rw [List.foldl_cons, inductionHypothesis, removeStrand]
      split <;> rfl

theorem Numbered.removeStrands (numbered : Numbered pool) (indices : List Nat) :
    Numbered (indices.foldl removeStrand pool) := by
  have sublist : (indices.foldl removeStrand pool).strands.Sublist pool.strands := by
    rw [foldl_removeStrand_strands]
    exact foldl_eraseIdx_sublist indices pool.strands
  refine ⟨numbered.distinct.sublist sublist, fun strand member => ?_⟩
  rw [foldl_removeStrand_made]
  exact numbered.made strand (sublist.subset member)

theorem Numbered.resize (numbered : Numbered pool)
    (returned : pool.resize platform sorter newSize = (changed, .returned)) :
    Numbered changed := by
  unfold StrandPool.resize at returned
  split at returned
  · cases returned
  · split at returned
    · cases returned
      exact numbered
    · cases returned
      split
      · exact { numbered.createStrands (newSize - pool.currentSize) with }
      · exact { numbered.removeStrands (pool.indicesToRemove platform sorter newSize) with }

/-- In every history the vectors are in step with each other and the strands distinct. -/
theorem covers_numbered
    (history : History platform sorter (fun _ _ => True) requested pool) :
    Covers pool ∧ Numbered pool := by
  induction history with
  | constructed config =>
      have empty : Numbered (StrandPool.mk config [] [] 0 [] 0) := ⟨List.nodup_nil, nofun⟩
      exact ⟨covers_new platform config, { empty.createStrands config.initialSize with }⟩
  | resized _ _ returned inductionHypothesis =>
      exact ⟨(inductionHypothesis.1.resize returned).1, inductionHypothesis.2.resize returned⟩
  | @updated requested newConfig pool changed _ _ returned inductionHypothesis =>
      unfold updateConfig at returned
      dsimp only at returned
      have covers : Covers { pool with config := newConfig } := { inductionHypothesis.1 with }
      have numbered : Numbered { pool with config := newConfig } := { inductionHypothesis.2 with }
      split at returned
      · exact ⟨(covers.resize returned).1, numbered.resize returned⟩
      · cases returned
        exact ⟨covers, numbered⟩
  | served _ sameLength inductionHypothesis =>
      exact ⟨{ inductionHypothesis.1 with
        strandsStats := sameLength.trans inductionHypothesis.1.strandsStats },
        { inductionHypothesis.2 with }⟩

/-! ## The strands which go -/

theorem mem_loadFactors {index : Nat} {load : ℚ} :
    (index, load) ∈ pool.loadFactors platform ↔
      index < pool.currentSize ∧ ∃ stats, pool.strandsStats[index]? = some stats ∧
        stats.loadFactor platform = load := by
  rw [loadFactors, List.mem_mapIdx]
  constructor
  · rintro ⟨i, inside, same⟩
    cases same
    rw [List.length_take, Nat.lt_min] at inside
    exact ⟨inside.1, _, List.getElem?_eq_getElem inside.2, by rw [List.getElem_take]⟩
  · rintro ⟨below, stats, isStats, rfl⟩
    obtain ⟨inside, rfl⟩ := List.getElem?_eq_some_iff.mp isStats
    refine ⟨index, ?_, by rw [List.getElem_take]⟩
    rw [List.length_take]
    exact Nat.lt_min.mpr ⟨below, inside⟩

/-- Every index is removed once at most. -/
theorem nodup_indicesToRemove : (pool.indicesToRemove platform sorter newSize).Nodup := by
  have indices : (pool.loadFactors platform).map Prod.fst =
      List.range (pool.strandsStats.take pool.currentSize).length :=
    List.ext_getElem (by simp [loadFactors]) (by simp [loadFactors])
  have sorted : ((sorter.sort (pool.loadFactors platform)).map Prod.fst).Nodup :=
    ((sorter.perm _).map Prod.fst).nodup_iff.mpr (indices ▸ List.nodup_range)
  exact sorted.sublist ((List.take_sublist _ _).map Prod.fst)

theorem mem_entries {entry : StrandId × StrandStats} (member : entry ∈ pool.entries) :
    ∃ index, index < pool.strands.length ∧ pool.entries[index]? = some entry := by
  obtain ⟨index, isEntry⟩ := List.mem_iff_getElem?.mp member
  obtain ⟨inside, -⟩ := List.getElem?_eq_some_iff.mp (List.getElem?_zip_eq_some.mp isEntry).1
  exact ⟨index, inside, isEntry⟩

/-- The indices stand for strands with the least load factors. -/
theorem meant_least (whole : pool.currentSize = pool.strands.length)
    (exactly : ∀ stats ∈ pool.strandsStats, stats.loadFactor platform = stats.exactLoad) :
    Least (fun entry => entry.2.exactLoad)
      (meant (pool.indicesToRemove platform sorter newSize) pool.entries) pool.entries := by
  intro one isMeant other isEntry notMeant
  obtain ⟨index, isIndex, isOne⟩ := List.mem_filterMap.mp isMeant
  obtain ⟨place, inside, isOther⟩ := mem_entries isEntry
  have notIndex : place ∉ pool.indicesToRemove platform sorter newSize := fun isIndex =>
    notMeant (List.mem_filterMap.mpr ⟨place, isIndex, isOther⟩)
  obtain ⟨⟨_, load⟩, first, rfl⟩ := List.mem_map.mp isIndex
  have oneStats := (List.getElem?_zip_eq_some.mp isOne).2
  have otherStats := (List.getElem?_zip_eq_some.mp isOther).2
  have isLoad : load = one.2.exactLoad := by
    obtain ⟨-, stats, isStats, same⟩ := mem_loadFactors.mp
      (sorter.mem_sort.mp (List.mem_of_mem_take first))
    rw [oneStats] at isStats
    cases isStats
    rw [← same, exactly _ (List.mem_of_getElem? oneStats)]
  have otherLoad : (place, other.2.exactLoad) ∈ sorter.sort (pool.loadFactors platform) := by
    refine sorter.mem_sort.mpr (mem_loadFactors.mpr ⟨whole ▸ inside, _, otherStats, ?_⟩)
    exact exactly _ (List.mem_of_getElem? otherStats)
  have sorted := sorter.sorted (pool.loadFactors platform)
  rw [← List.take_append_drop (pool.currentSize - newSize)
    (sorter.sort (pool.loadFactors platform))] at sorted otherLoad
  have later := (List.mem_append.mp otherLoad).resolve_left fun early =>
    notIndex (List.mem_map_of_mem early)
  have order := (List.pairwise_append.mp sorted).2.2 _ first _ later
  rw [lessLoaded, decide_eq_false_iff_not, not_lt] at order
  rw [isLoad] at order
  exact order

/-! ## The shrink -/

/-- The statistics go with their strands. -/
theorem foldl_removeStrand_strandsStats (indices : List Nat) (pool : StrandPool)
    (same : pool.strands.length = pool.strandsStats.length) :
    (indices.foldl removeStrand pool).strandsStats =
      indices.foldl List.eraseIdx pool.strandsStats := by
  induction indices generalizing pool with
  | nil => rfl
  | cons index indices inductionHypothesis =>
      have removed : (pool.removeStrand index).strandsStats = pool.strandsStats.eraseIdx index := by
        unfold removeStrand
        split
        · rfl
        · rename_i outside
          exact (List.eraseIdx_of_length_le (same ▸ Nat.le_of_not_lt outside)).symm
      rw [List.foldl_cons, List.foldl_cons,
        inductionHypothesis _ (pool.removeStrand_lengths index same).2, removed]

/-- A resize leaves the size exactly when it shrinks all the strands there are,
and removes as many as it means to. -/
theorem resize_length_iff (covers : Covers pool) (smaller : newSize < pool.strands.length)
    (returned : pool.resize platform sorter newSize = (changed, .returned)) :
    changed.strands.length = newSize ↔
      pool.currentSize = pool.strands.length ∧ RemovesAll platform sorter pool newSize := by
  have covered := covers.currentSize
  unfold StrandPool.resize at returned
  split at returned
  · cases returned
  · split at returned
    · cases returned
      omega
    · rename_i different
      by_cases grows : pool.currentSize < newSize
      · rw [if_pos grows] at returned
        cases returned
        have more := (pool.createStrands_lengths (newSize - pool.currentSize)).1
        change (pool.createStrands _).strands.length = newSize ↔ _
        omega
      · rw [if_neg grows] at returned
        cases returned
        have count : (pool.indicesToRemove platform sorter newSize).length =
            pool.currentSize - newSize :=
          pool.indicesToRemove_length newSize (covers.strandsStats ▸ covered)
        obtain ⟨-, least, exact⟩ := removeStrands_lengths
          (pool.indicesToRemove platform sorter newSize) pool covers.strandsStats.symm (by omega)
        rw [count] at least exact
        rw [RemovesAll, ← exact]
        change (List.foldl removeStrand pool _).strands.length = newSize ↔ _
        omega

/-- What a shrink leaves of the strands with their statistics. -/
theorem resize_entries (covers : Covers pool) (shrinks : newSize < pool.currentSize)
    (returned : pool.resize platform sorter newSize = (changed, .returned)) :
    changed.entries =
        (pool.indicesToRemove platform sorter newSize).foldl List.eraseIdx pool.entries ∧
      changed.strands = changed.entries.map Prod.fst ∧
      changed.strandsStats = changed.entries.map Prod.snd := by
  have strands := (resize_shrinks shrinks returned).1
  have stats : changed.strandsStats =
      (pool.indicesToRemove platform sorter newSize).foldl List.eraseIdx pool.strandsStats := by
    unfold StrandPool.resize at returned
    split at returned
    · cases returned
    · rw [if_neg (Nat.ne_of_lt shrinks), if_neg (Nat.lt_asymm shrinks)] at returned
      cases returned
      exact foldl_removeStrand_strandsStats _ pool covers.strandsStats.symm
  have firsts : pool.entries.map Prod.fst = pool.strands :=
    List.map_fst_zip (Nat.le_of_eq covers.strandsStats.symm)
  have seconds : pool.entries.map Prod.snd = pool.strandsStats :=
    List.map_snd_zip (Nat.le_of_eq covers.strandsStats)
  have left : (pool.indicesToRemove platform sorter newSize).foldl List.eraseIdx pool.entries =
      changed.entries := by
    refine List.zip_of_prod ?_ ?_
    · rw [foldl_eraseIdx_map, firsts, strands, survivors]
    · rw [foldl_eraseIdx_map, seconds, stats]
  refine ⟨left.symm, ?_, ?_⟩
  · rw [← left, foldl_eraseIdx_map, firsts, strands, survivors]
  · rw [← left, foldl_eraseIdx_map, seconds, stats]

/-- What a shrink takes and what it leaves is what there was. -/
theorem resize_parts (covers : Covers pool) (shrinks : newSize < pool.currentSize)
    (returned : pool.resize platform sorter newSize = (changed, .returned)) :
    (taken (pool.indicesToRemove platform sorter newSize) pool.entries ++
      changed.entries).Perm pool.entries :=
  (resize_entries covers shrinks returned).1 ▸ perm_taken _ _

/-- A shrink to the size it was called with takes as many as it means to. -/
theorem length_taken (covers : Covers pool) (whole : pool.currentSize = pool.strands.length)
    (shrinks : newSize < pool.currentSize)
    (returned : pool.resize platform sorter newSize = (changed, .returned))
    (isSize : changed.strands.length = newSize) :
    (taken (pool.indicesToRemove platform sorter newSize) pool.entries).length =
      (meant (pool.indicesToRemove platform sorter newSize) pool.entries).length := by
  have all : pool.entries.length = pool.strands.length := by
    rw [entries, List.length_zip, covers.strandsStats, Nat.min_self]
  have below : ∀ index ∈ pool.indicesToRemove platform sorter newSize,
      index < pool.entries.length := by
    intro index isIndex
    obtain ⟨⟨_, load⟩, first, rfl⟩ := List.mem_map.mp isIndex
    have inside := (mem_loadFactors.mp (sorter.mem_sort.mp (List.mem_of_mem_take first))).1
    exact all ▸ whole ▸ inside
  have leftLength : changed.entries.length = newSize := by
    rw [← isSize, (resize_entries covers shrinks returned).2.1, List.length_map]
  have count : (pool.indicesToRemove platform sorter newSize).length =
      pool.currentSize - newSize :=
    pool.indicesToRemove_length newSize (covers.strandsStats ▸ covers.currentSize)
  have lengths := (resize_parts covers shrinks returned).length_eq
  rw [List.length_append] at lengths
  rw [length_meant below]
  omega

/-- A shrink to the size it was called with keeps the busiest exactly when what it
takes has the least load factors. -/
theorem keepsBusiest_iff_least (covers : Covers pool) (distinct : pool.strands.Nodup)
    (shrinks : newSize < pool.currentSize)
    (returned : pool.resize platform sorter newSize = (changed, .returned))
    (isSize : changed.strands.length = newSize) :
    KeepsBusiest pool changed newSize ↔
      Least (fun entry => entry.2.exactLoad)
        (taken (pool.indicesToRemove platform sorter newSize) pool.entries) pool.entries := by
  obtain ⟨-, strands, stats⟩ := resize_entries covers shrinks returned
  have parts := resize_parts covers shrinks returned
  have firsts : (pool.entries.map Prod.fst).Nodup := by
    rw [entries, List.map_fst_zip (Nat.le_of_eq covers.strandsStats.symm)]
    exact distinct
  have takenWithin : taken (pool.indicesToRemove platform sorter newSize) pool.entries ⊆
      pool.entries := fun _ member => parts.subset (List.mem_append_left _ member)
  have leftWithin : changed.entries ⊆ pool.entries :=
    fun _ member => parts.subset (List.mem_append_right _ member)
  have remains : ∀ entry ∈ pool.entries, (entry.1 ∈ changed.strands ↔
      entry ∉ taken (pool.indicesToRemove platform sorter newSize) pool.entries) :=
    fun entry member => strands ▸ key_mem_iff parts firsts member
  constructor
  · intro keeps removed isTaken kept member notTaken
    refine keeps.busiest removed (takenWithin isTaken) ?_ kept member
      ((remains kept member).mpr notTaken)
    exact fun stays => (remains removed (takenWithin isTaken)).mp stays isTaken
  · intro least
    refine ⟨isSize, fun strand stays => ?_, fun removed isRemoved gone kept isKept stays => ?_,
      ?_, leftWithin⟩
    · rw [strands] at stays
      obtain ⟨entry, isLeft, rfl⟩ := List.mem_map.mp stays
      exact (List.of_mem_zip (leftWithin isLeft)).1
    · refine least removed ?_ kept isKept ((remains kept isKept).mp stays)
      by_contra notTaken
      exact gone ((remains removed isRemoved).mpr notTaken)
    · rw [stats, strands, List.length_map, List.length_map]

/-- **Shrinking removes the idlest strands** exactly when the pool shrinks all the
strands there are, every index fits in its turn, and what goes in place of
another is as idle as what stays in its place. -/
theorem keepsBusiest_iff
    (history : History platform sorter (fun _ _ => True) requested pool)
    (exactly : ∀ stats ∈ pool.strandsStats, stats.loadFactor platform = stats.exactLoad)
    (smaller : newSize < pool.strands.length)
    (returned : pool.resize platform sorter newSize = (changed, .returned)) :
    KeepsBusiest pool changed newSize ↔
      pool.currentSize = pool.strands.length ∧ RemovesAll platform sorter pool newSize ∧
        pool.ExchangesEqual platform sorter newSize := by
  obtain ⟨covers, numbered⟩ := covers_numbered history
  have size := resize_length_iff covers smaller returned
  rw [← and_assoc, ← size]
  suffices exchanged : changed.strands.length = newSize →
      (KeepsBusiest pool changed newSize ↔ pool.ExchangesEqual platform sorter newSize) by
    constructor
    · exact fun keeps => ⟨keeps.size, (exchanged keeps.size).mp keeps⟩
    · exact fun both => (exchanged both.1).mpr both.2
  intro isSize
  obtain ⟨whole, -⟩ := size.mp isSize
  have shrinks : newSize < pool.currentSize := whole ▸ smaller
  have parts := resize_parts covers shrinks returned
  have nodup : pool.entries.Nodup := by
    refine .of_map Prod.fst ?_
    rw [entries, List.map_fst_zip (Nat.le_of_eq covers.strandsStats.symm)]
    exact numbered.distinct
  rw [keepsBusiest_iff_least covers numbered.distinct shrinks returned isSize]
  exact least_iff_exchanged (meant_least whole exactly)
    (nodup_meant nodup_indicesToRemove nodup)
    (List.nodup_append'.mp (parts.nodup_iff.mpr nodup)).1
    (length_taken covers whole shrinks returned isSize) (meant_subset _ _)
    fun _ member => parts.subset (List.mem_append_left _ member)

/-- Without rounding and overflow the load factor is the quotient. -/
theorem loadFactor_exact {stats : StrandStats} (unrounded : platform.round = id)
    (fits : stats.activeRequests + stats.completedRequests < 2 ^ 64) :
    stats.loadFactor platform = stats.exactLoad := by
  simp only [StrandStats.loadFactor, StrandStats.exactLoad, Nat.mod_eq_of_lt fits, unrounded, id]
  split
  · rename_i none
    rw [none, (Nat.add_eq_zero_iff.mp none).1]
    exact (Rat.zero_mul _).symm
  · rfl

/-- Statistics of requests which are all active. -/
def busy (active : Nat) : StrandStats where
  totalRequests := active
  activeRequests := active

/-- A pool of as many strands as there are statistics. -/
def poolOf (stats : List StrandStats) : StrandPool :=
  { new ⟨fun _ => 0, id⟩ ⟨stats.length, 1, 64⟩ with strandsStats := stats }

theorem history_poolOf (stats : List StrandStats) :
    History ⟨fun _ => 0, id⟩ stableSorter (fun _ _ => True) stats.length (poolOf stats) :=
  .served (.constructed ⟨stats.length, 1, 64⟩)
    (new_inStep ⟨fun _ => 0, id⟩ ⟨stats.length, 1, 64⟩).strandsStats.symm

theorem exact_poolOf {loads : List Nat} (small : ∀ load ∈ loads, load < 2 ^ 64) :
    ∀ stats ∈ (poolOf (loads.map busy)).strandsStats,
      stats.loadFactor ⟨fun _ => 0, id⟩ = stats.exactLoad := by
  intro stats member
  obtain ⟨load, isLoad, rfl⟩ := List.mem_map.mp member
  exact loadFactor_exact rfl (small load isLoad)

/-- The last of three strands is idle and goes. -/
theorem keepsBusiest_last_idle :
    KeepsBusiest (poolOf ([1, 1, 0].map busy))
      ((poolOf ([1, 1, 0].map busy)).resize ⟨fun _ => 0, id⟩ stableSorter 2).1 2 := by
  have indices : (poolOf ([1, 1, 0].map busy)).indicesToRemove ⟨fun _ => 0, id⟩ stableSorter 2 =
      [2] := by decide +kernel
  refine (keepsBusiest_iff (history_poolOf ([1, 1, 0].map busy)) (exact_poolOf (by decide))
    (by decide) (Prod.ext rfl rfl)).mpr ⟨rfl, ?_, ?_⟩
  · rw [RemovesAll, indices]
    rintro (_ | turn) index isNext
    · cases isNext
      decide
    · cases isNext
  · rw [ExchangesEqual, indices, taken_of_descending (List.pairwise_singleton _ _)]
    exact fun stray isTaken notMeant => absurd isTaken notMeant

/-- Of four strands the first two are idle, and the second outlives the third. -/
theorem idle_strand_kept :
    ¬ ∀ (platform : Platform) (sorter : Sorter lessLoaded) (requested newSize : Nat)
      (pool changed : StrandPool),
      History platform sorter (fun _ _ => True) requested pool →
      (∀ stats ∈ pool.strandsStats, stats.loadFactor platform = stats.exactLoad) →
      newSize < pool.strands.length →
      pool.resize platform sorter newSize = (changed, .returned) →
        KeepsBusiest pool changed newSize := by
  intro keepsBusiest
  have keeps := keepsBusiest ⟨fun _ => 0, id⟩ stableSorter 4 2 (poolOf ([0, 0, 1, 1].map busy))
    ((poolOf ([0, 0, 1, 1].map busy)).resize ⟨fun _ => 0, id⟩ stableSorter 2).1
    (history_poolOf ([0, 0, 1, 1].map busy)) (exact_poolOf (by decide)) (by decide)
    (Prod.ext rfl rfl)
  have strands : ((poolOf ([0, 0, 1, 1].map busy)).resize ⟨fun _ => 0, id⟩ stableSorter
      2).1.strands = [1, 3] := by decide +kernel
  have order := keeps.busiest (2, busy 1) (by decide) (by rw [strands]; decide) (1, busy 0)
    (by decide) (by rw [strands]; decide)
  revert order
  decide +kernel

end StrandPool

end Foxhttp.Server
