import Mathlib.Algebra.Field.Rat
import Foxhttp.Server.StrandTurns
import Foxhttp.Server.WeightedSelection

/-!
# The life of a strand pool

`update_strand_stats` is the only place where requests are counted. It raises the
active requests with the total, and nothing lowers them or counts a request as
completed. So a load factor is 0 before the first request and 1 from then on.
-/

namespace Foxhttp.Server

open Foxhttp.Library
open Foxhttp.Config (LoadBalanceStrategy)

namespace StrandPool

/-- `perform_health_check_internal`, with the callback if one is set. -/
def performHealthCheck (pool : StrandPool) (callback : Option (Nat → Bool)) : StrandPool :=
  match callback with
  | none => pool
  | some isHealthy =>
      { pool with strandsStats := pool.strandsStats.mapIdx fun i stats =>
          if i < pool.currentSize then { stats with isHealthy := isHealthy i } else stats }

end StrandPool

/-- A pool with its strategy and `round_robin_index_`. -/
structure LivePool where
  strategy : LoadBalanceStrategy
  roundRobinIndex : Nat
  pool : StrandPool

/-- The calls of a pool. -/
inductive PoolCall where
  | nextStrand (draws : StrandPool.Draws)
  | strandForSession (sessionId : Text)
  | strandByHash (hash : Nat)
  | resize (newSize : Nat)
  | setLoadBalanceStrategy (strategy : LoadBalanceStrategy)
  | updateConfig (newConfig : StrandPoolConfig) (strategy : LoadBalanceStrategy)
  | performHealthCheck (callback : Option (Nat → Bool))

namespace LivePool

variable (platform : Platform) (sorter : Sorter lessLoaded) (toSize : ℚ → Nat)

/-- A pool behind a call, returned from or thrown out of. -/
def call (live : LivePool) : PoolCall → LivePool
  | .nextStrand draws =>
      let selection :=
        StrandPool.nextStrand platform toSize live.strategy live.pool live.roundRobinIndex draws
      { live with roundRobinIndex := selection.roundRobinIndex, pool := selection.pool }
  | .strandForSession sessionId =>
      { live with pool := (live.pool.strandForSession platform sessionId).1 }
  | .strandByHash hash => { live with pool := (live.pool.strandByHash hash).1 }
  | .resize newSize => { live with pool := (live.pool.resize platform sorter newSize).1 }
  | .setLoadBalanceStrategy strategy => { live with strategy }
  | .updateConfig newConfig strategy =>
      { live with strategy, pool := (live.pool.updateConfig platform sorter newConfig).1 }
  | .performHealthCheck callback => { live with pool := live.pool.performHealthCheck callback }

/-- The lives of a pool: its construction and any calls. -/
inductive Life : LivePool → Prop
  | constructed (config : StrandPoolConfig) (strategy : LoadBalanceStrategy) :
      Life ⟨strategy, 0, .new platform config⟩
  | called {live : LivePool} (prior : Life live) (request : PoolCall) :
      Life (live.call platform sorter toSize request)

end LivePool

namespace StrandPool

variable {platform : Platform} {sorter : Sorter lessLoaded} {toSize : ℚ → Nat}

/-- How a request is counted. -/
def counted (stats : StrandStats) : StrandStats :=
  { stats with
    totalRequests := (stats.totalRequests + 1) % 2 ^ 64
    activeRequests := (stats.activeRequests + 1) % 2 ^ 64 }

/-- A selection leaves the pool as it was, or counts a request of one strand. -/
theorem nextStrand_pool (strategy : LoadBalanceStrategy) (pool : StrandPool)
    (roundRobinIndex : Nat) (draws : Draws) :
    let selection := nextStrand platform toSize strategy pool roundRobinIndex draws
    selection.pool = pool ∨ ∃ index, selection.pool = pool.updateStrandStats index := by
  have roundRobin : (pool.roundRobinStrand roundRobinIndex).pool = pool ∨
      ∃ index, (pool.roundRobinStrand roundRobinIndex).pool = pool.updateStrandStats index := by
    rw [roundRobinStrand]
    split
    · exact .inl rfl
    · split
      · exact .inl rfl
      · exact .inr ⟨_, rfl⟩
  cases strategy with
  | roundRobin => exact roundRobin
  | leastConnections =>
      simp only [nextStrand, leastConnectionsStrand]
      split
      · exact .inl rfl
      · split
        · exact .inr ⟨_, rfl⟩
        · exact .inl rfl
  | consistentHash =>
      simp only [nextStrand, consistentHashStrand]
      split
      · exact .inl rfl
      · split
        · exact .inl rfl
        · exact .inr ⟨_, rfl⟩
  | random =>
      simp only [nextStrand, randomStrand]
      split
      · exact .inl rfl
      · exact .inr ⟨_, rfl⟩
  | weightedRoundRobin =>
      simp only [nextStrand, weightedRoundRobinStrand]
      split
      · exact .inl rfl
      · split
        · exact .inl rfl
        · split
          · exact roundRobin
          · split
            · exact .inr ⟨_, rfl⟩
            · exact roundRobin

theorem consistentHashStrand_pool (pool : StrandPool) (hash : Nat) :
    (pool.consistentHashStrand hash).1 = pool ∨
      ∃ index, (pool.consistentHashStrand hash).1 = pool.updateStrandStats index := by
  rw [consistentHashStrand]
  split
  · exact .inl rfl
  · split
    · exact .inl rfl
    · exact .inr ⟨_, rfl⟩

/-! ## What all statistics have -/

/-- A property which the statistics of a new strand have, and which requests and
health checks keep. -/
structure Keeps (property : StrandStats → Prop) : Prop where
  fresh : property {}
  counted : ∀ stats, property stats → property (counted stats)
  checked : ∀ stats isHealthy, property stats → property { stats with isHealthy }

/-- All statistics of a pool have a property. -/
def All (property : StrandStats → Prop) (pool : StrandPool) : Prop :=
  ∀ stats ∈ pool.strandsStats, property stats

section Properties

variable {property : StrandStats → Prop} {pool : StrandPool}

theorem All.updateStrandStats (keeps : Keeps property) (all : All property pool) (index : Nat) :
    All property (pool.updateStrandStats index) := by
  intro stats member
  obtain ⟨place, here⟩ := List.mem_iff_getElem?.mp member
  rw [StrandPool.updateStrandStats, List.getElem?_modify] at here
  obtain ⟨before, isBefore, rfl⟩ := Option.map_eq_some_iff.mp here
  have held := all before (List.mem_of_getElem? isBefore)
  split
  · exact keeps.counted before held
  · exact held

theorem All.createStrands (keeps : Keeps property) (all : All property pool) (count : Nat) :
    All property (pool.createStrands count) := by
  induction count generalizing pool with
  | zero => exact all
  | succ count inductionHypothesis =>
      refine inductionHypothesis fun stats member => ?_
      rcases List.mem_append.mp member with earlier | isNew
      · exact all stats earlier
      · exact List.mem_singleton.mp isNew ▸ keeps.fresh

theorem All.removeStrands (all : All property pool) (indices : List Nat) :
    All property (indices.foldl removeStrand pool) := by
  induction indices generalizing pool with
  | nil => exact all
  | cons index indices inductionHypothesis =>
      refine inductionHypothesis ?_
      rw [removeStrand]
      split
      · exact fun stats member => all stats (List.mem_of_mem_eraseIdx member)
      · exact all

theorem All.resize (keeps : Keeps property) (all : All property pool) (newSize : Nat) :
    All property (pool.resize platform sorter newSize).1 := by
  rw [StrandPool.resize]
  split
  · exact all
  · split
    · exact all
    · dsimp only
      split
      · exact all.createStrands keeps _
      · exact all.removeStrands _

theorem All.performHealthCheck (keeps : Keeps property) (all : All property pool)
    (callback : Option (Nat → Bool)) : All property (pool.performHealthCheck callback) := by
  cases callback with
  | none => exact all
  | some isHealthy =>
      intro stats member
      obtain ⟨place, inside, rfl⟩ := List.mem_mapIdx.mp member
      have held := all _ (List.getElem_mem inside)
      split
      · exact keeps.checked _ _ held
      · exact held

/-- In every life, all statistics have it. -/
theorem all_of_life (keeps : Keeps property) {live : LivePool}
    (life : LivePool.Life platform sorter toSize live) : All property live.pool := by
  induction life with
  | constructed config strategy =>
      have nothing : All property ⟨config, [], [], 0, [], 0⟩ := fun stats member => by cases member
      exact nothing.createStrands keeps config.initialSize
  | @called live prior request all =>
      have selected {after : StrandPool}
          (served : after = live.pool ∨ ∃ index, after = live.pool.updateStrandStats index) :
          All property after := by
        rcases served with rfl | ⟨index, rfl⟩
        · exact all
        · exact all.updateStrandStats keeps index
      cases request with
      | nextStrand draws => exact selected (nextStrand_pool _ _ _ draws)
      | strandForSession sessionId => exact selected (consistentHashStrand_pool _ _)
      | strandByHash hash => exact selected (consistentHashStrand_pool _ hash)
      | resize newSize => exact all.resize keeps newSize
      | setLoadBalanceStrategy strategy => exact all
      | updateConfig newConfig strategy =>
          simp only [LivePool.call, StrandPool.updateConfig]
          split
          · have configured : All property { live.pool with config := newConfig } := all
            exact configured.resize keeps _
          · exact all
      | performHealthCheck callback => exact all.performHealthCheck keeps callback

end Properties

/-! ## Load factors -/

/-- Every request counted is active, and none is completed. -/
structure NeverCompleted (stats : StrandStats) : Prop where
  completed : stats.completedRequests = 0
  active : stats.activeRequests = stats.totalRequests
  below : stats.totalRequests < 2 ^ 64

theorem keeps_neverCompleted : Keeps NeverCompleted where
  fresh := ⟨rfl, rfl, by decide⟩
  counted stats held :=
    { completed := held.completed
      active := congrArg (fun requests => (requests + 1) % 2 ^ 64) held.active
      below := Nat.mod_lt _ (by decide) }
  checked _ _ held := ⟨held.completed, held.active, held.below⟩

/-- What the processor does with the numbers that occur: the small ones are exact,
no count is rounded to 0, and a whole number is converted to itself. -/
structure Doubles (platform : Platform) (toSize : ℚ → Nat) : Prop where
  zero : platform.round 0 = 0
  one : platform.round 1 = 1
  hundred : platform.round 100 = 100
  positive : ∀ count : Nat, 0 < count → count < 2 ^ 64 → platform.round count ≠ 0
  toZero : toSize 0 = 0
  toHundred : toSize 100 = 100

section Doubles

variable (doubles : Doubles platform toSize) {stats : StrandStats}
include doubles

theorem loadFactor_neverCompleted (held : NeverCompleted stats) :
    stats.loadFactor platform = if stats.totalRequests = 0 then 0 else 1 := by
  have whole : (stats.activeRequests + stats.completedRequests) % 2 ^ 64 = stats.totalRequests := by
    rw [held.completed, held.active, Nat.add_zero, Nat.mod_eq_of_lt held.below]
  rw [StrandStats.loadFactor, whole]
  split
  · rfl
  · rename_i some
    rw [held.active, div_self (doubles.positive _ (Nat.pos_of_ne_zero some) held.below),
      doubles.one]

/-- An unused strand weighs 100, and a used one nothing. -/
theorem weight_neverCompleted (held : NeverCompleted stats) :
    weight platform toSize stats = if stats.totalRequests = 0 then 100 else 0 := by
  rw [weight, loadFactor_neverCompleted doubles held]
  split
  · rw [zero_mul, doubles.zero, doubles.toZero]
    rfl
  · rw [one_mul, doubles.hundred, doubles.toHundred]
    rfl

end Doubles

/-! ## Where a weighted selection falls -/

theorem covers_of_life {live : LivePool} (life : LivePool.Life platform sorter toSize live) :
    Covers live.pool := by
  induction life with
  | constructed config strategy => exact covers_new platform config
  | @called live prior request covers =>
      have selected {after : StrandPool}
          (served : after = live.pool ∨ ∃ index, after = live.pool.updateStrandStats index) :
          Covers after := by
        rcases served with rfl | ⟨index, rfl⟩
        · exact covers
        · exact { covers with
            strandsStats := by
              rw [updateStrandStats, List.length_modify]
              exact covers.strandsStats }
      have resized {pool : StrandPool} (covers : Covers pool) (newSize : Nat) :
          Covers (pool.resize platform sorter newSize).1 := by
        rcases result : pool.resize platform sorter newSize with ⟨changed, outcome⟩
        cases outcome with
        | returned => exact (covers.resize result).1
        | threw what =>
            rw [resize] at result
            split at result
            · cases result
              exact covers
            · split at result <;> cases result
      cases request with
      | nextStrand draws => exact selected (nextStrand_pool _ _ _ draws)
      | strandForSession sessionId => exact selected (consistentHashStrand_pool _ _)
      | strandByHash hash => exact selected (consistentHashStrand_pool _ hash)
      | resize newSize => exact resized covers newSize
      | setLoadBalanceStrategy strategy => exact covers
      | updateConfig newConfig strategy =>
          simp only [LivePool.call, StrandPool.updateConfig]
          split
          · exact @resized { live.pool with config := newConfig } { covers with } _
          · exact { covers with }
      | performHealthCheck callback =>
          cases callback with
          | none => exact covers
          | some isHealthy =>
              exact { covers with
                strandsStats := List.length_mapIdx.trans covers.strandsStats }

/-- A strand in use is healthy and has not been used. -/
def Unused (pool : StrandPool) (index : Nat) : Prop :=
  index < pool.currentSize ∧ ∃ stats, pool.strandsStats[index]? = some stats ∧
    stats.isHealthy = true ∧ stats.totalRequests = 0

/-- The weights of the strands in use, and their sum. -/
theorem Unused.totalWeight (doubles : Doubles platform toSize) {pool : StrandPool}
    (never : All NeverCompleted pool) (vector : pool.currentSize * 56 < 2 ^ 63) :
    (((pool.strandsStats.take pool.currentSize).map (share platform toSize)).sum < 2 ^ 64 ∧
      StrandPool.totalWeight platform toSize (pool.strandsStats.take pool.currentSize) =
        ((pool.strandsStats.take pool.currentSize).map (share platform toSize)).sum) ∧
      ∀ index stats, (pool.strandsStats.take pool.currentSize)[index]? = some stats →
        (0 < share platform toSize stats ↔ Unused pool index) := by
  have weights (stats : StrandStats) (member : stats ∈ pool.strandsStats.take pool.currentSize) :
      weight platform toSize stats = if stats.totalRequests = 0 then 100 else 0 :=
    weight_neverCompleted doubles (never stats (List.mem_of_mem_take member))
  have fits : ((pool.strandsStats.take pool.currentSize).map (share platform toSize)).sum <
      2 ^ 64 := by
    have sum := @Weighable.sum_le platform toSize _ fun stats member _ => by
      rw [weights stats member]
      split <;> decide
    have length := List.length_take_le pool.currentSize pool.strandsStats
    omega
  refine ⟨⟨fits, totalWeight_eq fits⟩, fun index stats here => ?_⟩
  have weighs := weights stats (List.mem_of_getElem? here)
  obtain ⟨inside, isStats⟩ : index < pool.currentSize ∧ pool.strandsStats[index]? = some stats := by
    rw [List.getElem?_take] at here
    split at here
    · exact ⟨‹_›, here⟩
    · cases here
  rw [share, weighs, Unused]
  constructor
  · intro positive
    split at positive
    · rename_i healthy
      split at positive
      · exact ⟨inside, stats, isStats, healthy, ‹_›⟩
      · cases positive
    · cases positive
  · rintro ⟨-, other, isOther, healthy, unused⟩
    cases isStats.symm.trans isOther
    rw [if_pos healthy, if_pos unused]
    decide

/-- **A weighted selection takes an unused strand, or turns**: in every life, it
serves a healthy strand which has served no request as long as there is one, and
then it is round robin. -/
theorem weighted_serves_unused_or_turns (doubles : Doubles platform toSize) {live : LivePool}
    (life : LivePool.Life platform sorter toSize live) (filled : live.pool.strands ≠ [])
    (vector : live.pool.currentSize * 56 < 2 ^ 63) (roundRobinIndex draw : Nat) :
    ((∃ index, Unused live.pool index) → ∃ index, Unused live.pool index ∧
      live.pool.weightedRoundRobinStrand platform toSize roundRobinIndex draw =
        live.pool.serve roundRobinIndex index) ∧
    ((∀ index, ¬ Unused live.pool index) →
      live.pool.weightedRoundRobinStrand platform toSize roundRobinIndex draw =
        live.pool.roundRobinStrand roundRobinIndex) := by
  obtain ⟨⟨fits, total⟩, positive⟩ := Unused.totalWeight doubles
    (all_of_life keeps_neverCompleted life) vector
  have nonempty : live.pool.strands.isEmpty = false := by simpa using filled
  rw [weightedRoundRobinStrand, nonempty, if_neg Bool.false_ne_true,
    (covers_of_life life).statsInUse.1]
  dsimp only
  constructor
  · rintro ⟨unused, isUnused⟩
    have some : 0 < totalWeight platform toSize
        (live.pool.strandsStats.take live.pool.currentSize) := by
      obtain ⟨inside, stats, here, -⟩ := id isUnused
      have isInUse :
          (live.pool.strandsStats.take live.pool.currentSize)[unused]? = .some stats := by
        rw [List.getElem?_take_of_lt inside, here]
      rw [total, List.sum_pos_iff_exists_pos_nat]
      exact ⟨_, List.mem_map_of_mem (List.mem_of_getElem? isInUse),
        (positive unused stats isInUse).mpr isUnused⟩
    rw [if_neg (Nat.ne_of_gt some)]
    have below : uniform draw (totalWeight platform toSize
        (live.pool.strandsStats.take live.pool.currentSize) - 1) <
          ((live.pool.strandsStats.take live.pool.currentSize).map (share platform toSize)).sum :=
      total ▸ Nat.lt_of_le_of_lt (uniform_le _ _) (Nat.sub_lt some Nat.one_pos)
    obtain ⟨index, _, isIndex, here, weighs⟩ := shareOf_of_lt below
    rw [List.getElem?_map] at here
    obtain ⟨stats, isStats, rfl⟩ := Option.map_eq_some_iff.mp here
    rw [drawnFrom_eq _ 0 (Nat.zero_le _) (by rwa [Nat.zero_add]), Nat.sub_zero, isIndex]
    refine ⟨index, (positive index stats isStats).mp weighs, ?_⟩
    rw [Option.map_some, Nat.zero_add]
  · intro used
    have none : totalWeight platform toSize
        (live.pool.strandsStats.take live.pool.currentSize) = 0 := by
      rw [total]
      refine List.sum_eq_zero_iff_forall_eq_nat.mpr fun weight member => ?_
      obtain ⟨stats, isStats, rfl⟩ := List.mem_map.mp member
      obtain ⟨index, here⟩ := List.mem_iff_getElem?.mp isStats
      exact Nat.eq_zero_of_not_pos (mt (positive index stats here).mp (used index))
    rw [if_pos none]

/-- A processor which rounds nothing. -/
theorem doubles_exact : Doubles ⟨fun _ => 0, id⟩ fun load => load.floor.toNat where
  zero := rfl
  one := rfl
  hundred := rfl
  positive _ some _ := Nat.cast_ne_zero.mpr (Nat.ne_of_gt some)
  toZero := rfl
  toHundred := rfl

/-- Two new strands. -/
theorem weighted_serves_unused_two :
    ∃ index, Unused (new ⟨fun _ => 0, id⟩ ⟨2, 1, 64⟩) index ∧
      (new ⟨fun _ => 0, id⟩ ⟨2, 1, 64⟩).weightedRoundRobinStrand ⟨fun _ => 0, id⟩
          (fun load => load.floor.toNat) 0 5 =
        (new ⟨fun _ => 0, id⟩ ⟨2, 1, 64⟩).serve 0 index := by
  have life : LivePool.Life ⟨fun _ => 0, id⟩ stableSorter (fun load => load.floor.toNat)
      ⟨.weightedRoundRobin, 0, new ⟨fun _ => 0, id⟩ ⟨2, 1, 64⟩⟩ := .constructed _ _
  exact (weighted_serves_unused_or_turns doubles_exact life (by decide) (by decide) 0 5).1
    ⟨0, by decide, {}, rfl, rfl, rfl⟩

end StrandPool

end Foxhttp.Server
