import Foxhttp.Config.Sections
import Foxhttp.Server.StrandResize

/-!
# Selecting a strand

The five selectors test whether the vector of strands is empty, and take their
index from `current_size_`. A pool which is resized to no strands at all may
keep some of them, and then there are strands but no index.
-/

namespace Foxhttp.Server.StrandPool

open Foxhttp.Library
open Foxhttp.Config (LoadBalanceStrategy)

/-- What a selection meets: the hash of the id of its thread and a draw of the
generator. -/
structure Draws where
  threadHash : Nat
  random : Nat

/-- What a selection leaves: `round_robin_index_`, the pool, and what it
returns, nothing where it divides by zero or reads what is not there. -/
structure Selection where
  roundRobinIndex : Nat
  pool : StrandPool
  strand : Option (Option StrandId)

/-- `std::uniform_int_distribution` from 0 to a last number. -/
def uniform (draw last : Nat) : Nat :=
  draw % (last + 1)

/-- Count a request of a strand and return it. -/
def serve (pool : StrandPool) (roundRobinIndex index : Nat) : Selection where
  roundRobinIndex
  pool := pool.updateStrandStats index
  strand := pool.strands[index]?.map some

/-- The statistics which a loop up to `current_size_` reads. -/
def statsInUse (pool : StrandPool) : Option (List StrandStats) :=
  if pool.currentSize ≤ pool.strandsStats.length then
    some (pool.strandsStats.take pool.currentSize)
  else none

/-- `round_robin_strand`. -/
def roundRobinStrand (pool : StrandPool) (roundRobinIndex : Nat) : Selection :=
  if pool.strands.isEmpty then ⟨roundRobinIndex, pool, some none⟩
  else if pool.currentSize = 0 then ⟨roundRobinIndex, pool, none⟩
  else pool.serve ((roundRobinIndex + 1) % 2 ^ 64) (roundRobinIndex % pool.currentSize)

/-- The loop of `least_connections_strand`, from an index on. -/
def leastFrom (bestIndex minConnections : Nat) : Nat → List StrandStats → Nat
  | _, [] => bestIndex
  | i, stats :: rest =>
      if stats.activeRequests < minConnections ∧ stats.isHealthy then
        leastFrom i stats.activeRequests (i + 1) rest
      else leastFrom bestIndex minConnections (i + 1) rest

/-- `least_connections_strand`. -/
def leastConnectionsStrand (pool : StrandPool) (roundRobinIndex : Nat) : Selection :=
  if pool.strands.isEmpty then ⟨roundRobinIndex, pool, some none⟩
  else
    match pool.strandsStats.head?, pool.statsInUse with
    | some first, some inUse =>
        pool.serve roundRobinIndex (leastFrom 0 first.activeRequests 1 (inUse.drop 1))
    | _, _ => ⟨roundRobinIndex, pool, none⟩

/-- `random_strand`. -/
def randomStrand (pool : StrandPool) (roundRobinIndex draw : Nat) : Selection :=
  if pool.strands.isEmpty then ⟨roundRobinIndex, pool, some none⟩
  else pool.serve roundRobinIndex (uniform draw ((pool.currentSize + (2 ^ 64 - 1)) % 2 ^ 64))

section Weighted

-- `toSize` is the conversion of a `double` to `std::size_t`
variable (platform : Platform) (toSize : ℚ → Nat)

/-- The weight of a healthy strand. -/
def weight (stats : StrandStats) : Nat :=
  (100 + (2 ^ 64 - toSize (platform.round (stats.loadFactor platform * 100)) % 2 ^ 64)) % 2 ^ 64

/-- The first loop of `weightedround_robin_strand`. -/
def totalWeight (inUse : List StrandStats) : Nat :=
  inUse.foldl (fun total stats =>
    if stats.isHealthy then (total + weight platform toSize stats) % 2 ^ 64 else total) 0

/-- The second loop of `weightedround_robin_strand`, from an index on. -/
def drawnFrom (randomWeight : Nat) : Nat → Nat → List StrandStats → Option Nat
  | _, _, [] => none
  | currentWeight, i, stats :: rest =>
      if stats.isHealthy then
        let currentWeight := (currentWeight + weight platform toSize stats) % 2 ^ 64
        if randomWeight < currentWeight then some i
        else drawnFrom randomWeight currentWeight (i + 1) rest
      else drawnFrom randomWeight currentWeight (i + 1) rest

/-- `weightedround_robin_strand`. -/
def weightedRoundRobinStrand (pool : StrandPool) (roundRobinIndex draw : Nat) : Selection :=
  if pool.strands.isEmpty then ⟨roundRobinIndex, pool, some none⟩
  else
    match pool.statsInUse with
    | none => ⟨roundRobinIndex, pool, none⟩
    | some inUse =>
        let total := totalWeight platform toSize inUse
        if total = 0 then pool.roundRobinStrand roundRobinIndex
        else
          match drawnFrom platform toSize (uniform draw (total - 1)) 0 0 inUse with
          | some i => pool.serve roundRobinIndex i
          | none => pool.roundRobinStrand roundRobinIndex

/-- `next_strand`. -/
def nextStrand (strategy : LoadBalanceStrategy) (pool : StrandPool) (roundRobinIndex : Nat)
    (draws : Draws) : Selection :=
  match strategy with
  | .roundRobin => pool.roundRobinStrand roundRobinIndex
  | .leastConnections => pool.leastConnectionsStrand roundRobinIndex
  | .consistentHash =>
      ⟨roundRobinIndex, (pool.consistentHashStrand draws.threadHash).1,
        (pool.consistentHashStrand draws.threadHash).2⟩
  | .random => pool.randomStrand roundRobinIndex draws.random
  | .weightedRoundRobin =>
      pool.weightedRoundRobinStrand platform toSize roundRobinIndex draws.random

end Weighted

/-- What a selection returns is null as there is no strand, or a strand in range. -/
inductive InRange (pool : StrandPool) : Option (Option StrandId) → Prop
  | null (empty : pool.strands = []) : InRange pool (some none)
  | strand {index strand} (below : index < min pool.currentSize pool.strands.length)
      (isStrand : pool.strands[index]? = some strand) : InRange pool (some (some strand))

/-- Every selection is in range, whatever it meets. -/
def SelectsInRange (platform : Platform) (pool : StrandPool) : Prop :=
  ∀ toSize strategy roundRobinIndex draws,
    InRange pool (nextStrand platform toSize strategy pool roundRobinIndex draws).strand

/-- A call which resizes the pool to no strands finds as many as it counts, and
removes all of them. -/
def EmptiesWhole (platform : Platform) (sorter : Sorter lessLoaded) (pool : StrandPool)
    (newSize : Nat) : Prop :=
  newSize = 0 → pool.strands.length = pool.currentSize ∧ RemovesAll platform sorter pool 0

/-- The vectors are as long as each other and as `current_size_` at least, and
the ring is that of `current_size_`. -/
structure Covers (pool : StrandPool) : Prop where
  currentSize : pool.currentSize ≤ pool.strands.length
  strandsStats : pool.strandsStats.length = pool.strands.length
  ring : RingOf pool.currentSize pool.hashRing

/-! ## The selectors -/

theorem uniform_le (draw last : Nat) : uniform draw last ≤ last :=
  Nat.le_of_lt_succ (Nat.mod_lt _ (Nat.succ_pos last))

theorem leastFrom_lt {bestIndex minConnections i size : Nat} {rest : List StrandStats}
    (best : bestIndex < size) (whole : i + rest.length ≤ size) :
    leastFrom bestIndex minConnections i rest < size := by
  induction rest generalizing bestIndex minConnections i with
  | nil => exact best
  | cons stats rest inductionHypothesis =>
      rw [List.length_cons] at whole
      rw [leastFrom]
      split
      · exact inductionHypothesis (by omega) (by omega)
      · exact inductionHypothesis best (by omega)

theorem drawnFrom_lt {platform : Platform} {toSize : ℚ → Nat}
    {randomWeight currentWeight i index : Nat} {rest : List StrandStats}
    (drawn : drawnFrom platform toSize randomWeight currentWeight i rest = some index) :
    index < i + rest.length := by
  induction rest generalizing currentWeight i with
  | nil => cases drawn
  | cons stats rest inductionHypothesis =>
      rw [drawnFrom] at drawn
      rw [List.length_cons]
      split at drawn
      · dsimp only at drawn
        split at drawn
        · cases drawn
          omega
        · have below := inductionHypothesis drawn
          omega
      · have below := inductionHypothesis drawn
        omega

/-- A hash is owned by an index of a ring which has any. -/
theorem RingOf.owner_lt {size : Nat} {ring : List (Nat × Nat)} (isRing : RingOf size ring)
    (some : 0 < size) (hash : Nat) : ∃ index, owner ring hash = .some index ∧ index < size := by
  have below {entry : Nat × Nat} (member : entry ∈ ring) : entry.2 < size := by
    have counted : 0 < ring.countP fun other => other.2 = entry.2 :=
      List.countP_pos_iff.mpr ⟨entry, member, by simp⟩
    rw [isRing.entries] at counted
    by_contra above
    rw [if_neg above] at counted
    exact Nat.lt_irrefl 0 counted
  unfold owner
  cases found : ring.find? fun entry => !decide (entry.1 < hash) with
  | some entry => exact ⟨entry.2, rfl, below (List.mem_of_find?_eq_some found)⟩
  | none =>
      cases ring with
      | nil =>
          have none := isRing.entries 0
          rw [if_pos some] at none
          cases none
      | cons entry rest => exact ⟨entry.2, rfl, below List.mem_cons_self⟩

variable {platform : Platform} {sorter : Sorter lessLoaded} {pool changed : StrandPool}

theorem serve_inRange (covers : Covers pool) (roundRobinIndex : Nat) {index : Nat}
    (below : index < pool.currentSize) :
    InRange pool (pool.serve roundRobinIndex index).strand := by
  have inside : index < pool.strands.length := Nat.lt_of_lt_of_le below covers.currentSize
  rw [serve, List.getElem?_eq_getElem inside]
  exact .strand (Nat.lt_min.mpr ⟨below, inside⟩) (List.getElem?_eq_getElem inside)

theorem Covers.statsInUse (covers : Covers pool) :
    pool.statsInUse = some (pool.strandsStats.take pool.currentSize) ∧
      (pool.strandsStats.take pool.currentSize).length = pool.currentSize := by
  have enough : pool.currentSize ≤ pool.strandsStats.length :=
    covers.strandsStats ▸ covers.currentSize
  exact ⟨if_pos enough, List.length_take_of_le enough⟩

/-- With an index for every strand, every selection is in range. -/
theorem Covers.selectsInRange (covers : Covers pool)
    (usable : pool.strands = [] ∨ 0 < pool.currentSize) : SelectsInRange platform pool := by
  intro toSize strategy roundRobinIndex draws
  by_cases empty : pool.strands = []
  · have nothing : pool.strands.isEmpty = true := List.isEmpty_iff.mpr empty
    cases strategy <;>
      simp only [nextStrand, roundRobinStrand, leastConnectionsStrand, consistentHashStrand,
        randomStrand, weightedRoundRobinStrand, nothing, if_true] <;>
      exact .null empty
  · have some := usable.resolve_left empty
    have nonempty : pool.strands.isEmpty = false := by simpa using empty
    obtain ⟨inUse, length⟩ := covers.statsInUse
    have roundRobin : InRange pool (pool.roundRobinStrand roundRobinIndex).strand := by
      rw [roundRobinStrand, nonempty, if_neg Bool.false_ne_true, if_neg (Nat.ne_of_gt some)]
      exact serve_inRange covers _ (Nat.mod_lt _ some)
    cases strategy with
    | roundRobin => exact roundRobin
    | leastConnections =>
        rw [nextStrand, leastConnectionsStrand, nonempty, if_neg Bool.false_ne_true, inUse]
        cases stats : pool.strandsStats with
        | nil =>
            have none := covers.strandsStats
            rw [stats, List.length_nil] at none
            exact absurd (List.length_eq_zero_iff.mp none.symm) empty
        | cons first rest =>
            refine serve_inRange covers _ (leastFrom_lt some ?_)
            rw [← stats, List.length_drop, length]
            omega
    | consistentHash =>
        obtain ⟨index, owns, below⟩ := covers.ring.owner_lt some draws.threadHash
        rw [nextStrand, consistentHashStrand, nonempty, if_neg Bool.false_ne_true, owns]
        exact serve_inRange covers roundRobinIndex below
    | random =>
        rw [nextStrand, randomStrand, nonempty, if_neg Bool.false_ne_true]
        refine serve_inRange covers _ (Nat.lt_of_le_of_lt (uniform_le _ _) ?_)
        omega
    | weightedRoundRobin =>
        rw [nextStrand, weightedRoundRobinStrand, nonempty, if_neg Bool.false_ne_true, inUse]
        dsimp only
        split
        · exact roundRobin
        · split
          · rename_i index drawn
            refine serve_inRange covers _ ?_
            have below := drawnFrom_lt drawn
            omega
          · exact roundRobin

/-- A pool which covers its size selects in range exactly when it has no strands
or an index for them. -/
theorem Covers.selectsInRange_iff (covers : Covers pool) :
    SelectsInRange platform pool ↔ pool.strands = [] ∨ 0 < pool.currentSize := by
  refine ⟨fun selects => ?_, covers.selectsInRange⟩
  by_contra unusable
  obtain ⟨strands, noIndex⟩ := not_or.mp unusable
  have nonempty : pool.strands.isEmpty = false := by simpa using strands
  have inRange := selects (fun _ => 0) .roundRobin 0 ⟨0, 0⟩
  rw [nextStrand, roundRobinStrand, nonempty, if_neg Bool.false_ne_true,
    if_pos (Nat.eq_zero_of_not_pos noIndex)] at inRange
  cases inRange

/-! ## Resizing -/

theorem covers_new (platform : Platform) (config : StrandPoolConfig) :
    Covers (new platform config) := by
  have inStep := new_inStep platform config
  exact
    { currentSize := Nat.le_of_eq (inStep.currentSize.trans inStep.strands.symm)
      strandsStats := inStep.strandsStats.trans inStep.strands.symm
      ring := inStep.currentSize ▸ inStep.ring }

/-- A resize which returns leaves a pool which covers its size, and which is
usable as before exactly when it empties it whole. -/
theorem Covers.resize {newSize : Nat} (covers : Covers pool)
    (returned : pool.resize platform sorter newSize = (changed, .returned)) :
    Covers changed ∧ ((pool.strands = [] ∨ 0 < pool.currentSize) →
      ((changed.strands = [] ∨ 0 < changed.currentSize) ↔
        EmptiesWhole platform sorter pool newSize)) := by
  have covered := covers.currentSize
  have together := covers.strandsStats
  unfold StrandPool.resize at returned
  split at returned
  · cases returned
  · split at returned
    · rename_i same
      cases returned
      refine ⟨covers, fun usable => ⟨fun _ isZero => ?_, fun _ => usable⟩⟩
      have noIndex : pool.currentSize = 0 := same.symm.trans isZero
      have empty := usable.resolve_right (by omega)
      refine ⟨by rw [empty, noIndex, List.length_nil], ?_⟩
      intro turn index isNext
      simp [indicesToRemove, noIndex] at isNext
    · rename_i different
      by_cases grows : pool.currentSize < newSize
      · rw [if_pos grows] at returned
        cases returned
        obtain ⟨moreStrands, moreStats⟩ :=
          pool.createStrands_lengths (newSize - pool.currentSize)
        have positive : 0 < newSize := Nat.zero_lt_of_lt grows
        refine ⟨⟨?_, ?_, ringOf_update _⟩, fun _ => ?_⟩
        · change newSize ≤ (pool.createStrands _).strands.length
          omega
        · change (pool.createStrands _).strandsStats.length =
            (pool.createStrands _).strands.length
          omega
        · exact ⟨fun _ isZero => absurd isZero (Nat.ne_of_gt positive), fun _ => .inr positive⟩
      · rw [if_neg grows] at returned
        cases returned
        have count : (pool.indicesToRemove platform sorter newSize).length =
            pool.currentSize - newSize := pool.indicesToRemove_length newSize (by omega)
        obtain ⟨sameLength, least, exact⟩ := removeStrands_lengths
          (pool.indicesToRemove platform sorter newSize) pool together.symm (by omega)
        rw [count] at least exact
        refine ⟨⟨?_, sameLength.symm, ringOf_update _⟩, fun _ => ?_⟩
        · change newSize ≤ (List.foldl removeStrand pool _).strands.length
          omega
        · rcases Nat.eq_zero_or_pos newSize with rfl | positive
          · have emptied : (List.foldl removeStrand pool
                (pool.indicesToRemove platform sorter 0)).strands = [] ↔
                pool.strands.length = pool.currentSize ∧ RemovesAll platform sorter pool 0 := by
              rw [← List.length_eq_zero_iff, RemovesAll, ← exact]
              omega
            refine ⟨fun usable _ => emptied.mp (usable.resolve_right (Nat.lt_irrefl 0)),
              fun whole => .inl (emptied.mpr (whole rfl))⟩
          · exact ⟨fun _ isZero => absurd isZero (Nat.ne_of_gt positive), fun _ => .inr positive⟩

/-- **Strand selection is total and in range** in every history whose calls
empty the pool whole, if at all. -/
theorem selects_in_range {requested : Nat}
    (history : History platform sorter (EmptiesWhole platform sorter) requested pool) :
    SelectsInRange platform pool := by
  have kept : Covers pool ∧ (pool.strands = [] ∨ 0 < pool.currentSize) := by
    induction history with
    | constructed config =>
        refine ⟨covers_new platform config, ?_⟩
        have inStep := new_inStep platform config
        rcases Nat.eq_zero_or_pos config.initialSize with none | some
        · exact .inl (List.length_eq_zero_iff.mp (inStep.strands.trans none))
        · exact .inr (inStep.currentSize ▸ some)
    | resized _ condition returned inductionHypothesis =>
        obtain ⟨covers, usable⟩ := inductionHypothesis.1.resize returned
        exact ⟨covers, (usable inductionHypothesis.2).mpr condition⟩
    | @updated requested newConfig pool changed _ condition returned inductionHypothesis =>
        unfold updateConfig at returned
        dsimp only at returned
        have covers : Covers { pool with config := newConfig } := { inductionHypothesis.1 with }
        split at returned
        · obtain ⟨covers, usable⟩ := covers.resize returned
          exact ⟨covers, (usable inductionHypothesis.2).mpr condition⟩
        · cases returned
          exact ⟨covers, inductionHypothesis.2⟩
    | served _ sameLength inductionHypothesis =>
        exact ⟨{ inductionHypothesis.1 with
          strandsStats := sameLength.trans inductionHypothesis.1.strandsStats },
          inductionHypothesis.2⟩
  exact kept.1.selectsInRange kept.2

/-- One strand, which the pool then goes without. -/
theorem selects_in_range_emptied :
    SelectsInRange ⟨fun _ => 0, id⟩
      ((new ⟨fun _ => 0, id⟩ ⟨1, 0, 64⟩).resize ⟨fun _ => 0, id⟩ stableSorter 0).1 := by
  refine selects_in_range (.resized (.constructed ⟨1, 0, 64⟩) ?_ (Prod.ext rfl rfl))
  refine fun _ => ⟨rfl, ?_⟩
  rintro (_ | turn) index isNext
  · cases isNext
    exact Nat.one_pos
  · cases isNext

/-- Of four idle strands resized to none, two remain, and no index for them. -/
theorem emptied_pool_has_strands :
    ¬ ∀ (platform : Platform) (sorter : Sorter lessLoaded) (requested : Nat) (pool : StrandPool),
      History platform sorter (fun _ _ => True) requested pool → SelectsInRange platform pool := by
  intro selectsInRange
  have selects := selectsInRange ⟨fun _ => 0, id⟩ stableSorter 0
    ((new ⟨fun _ => 0, id⟩ ⟨4, 0, 64⟩).resize ⟨fun _ => 0, id⟩ stableSorter 0).1
    (.resized (.constructed ⟨4, 0, 64⟩) trivial (Prod.ext rfl rfl))
  have divides : ((((new ⟨fun _ => 0, id⟩ ⟨4, 0, 64⟩).resize ⟨fun _ => 0, id⟩ stableSorter
      0).1).roundRobinStrand 0).strand = none := by decide
  have inRange := selects (fun _ => 0) .roundRobin 0 ⟨0, 0⟩
  rw [nextStrand, divides] at inRange
  cases inRange

end Foxhttp.Server.StrandPool
