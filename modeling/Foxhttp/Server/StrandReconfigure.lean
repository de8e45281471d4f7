import Foxhttp.Config.Sections
import Foxhttp.Server.StrandResize

/-!
# When a change of the configuration fails

`update_config` replaces the configuration and then resizes the pool, and it is
`resize` which compares the new size with the limits. So a call which throws has
replaced the configuration already, and nothing else.
-/

namespace Foxhttp.Server

open Foxhttp.Library

/-- The sizes of a whole configuration. -/
def StrandPoolConfig.sizesOf (config : Config.StrandPoolConfig) : StrandPoolConfig :=
  ⟨config.initialSize, config.minSize, config.maxSize⟩

namespace StrandPool

variable (platform : Platform) (sorter : Sorter lessLoaded)

/-- A resize throws and changes nothing out of the limits, and sets the size in them. -/
theorem resize_cases (pool : StrandPool) (newSize : Nat) :
    (¬ (pool.config.minSize ≤ newSize ∧ newSize ≤ pool.config.maxSize) ∧
        pool.resize platform sorter newSize = (pool, .threw "Invalid strand pool size")) ∨
      (pool.config.minSize ≤ newSize ∧ newSize ≤ pool.config.maxSize) ∧
        ∃ changed, pool.resize platform sorter newSize = (changed, .returned) ∧
          changed.currentSize = newSize := by
  rw [resize]
  split
  · rename_i outside
    exact .inl ⟨by omega, rfl⟩
  · rename_i inside
    refine .inr ⟨by omega, ?_⟩
    split
    · rename_i same
      exact ⟨pool, rfl, same.symm⟩
    · exact ⟨_, rfl, rfl⟩

theorem createStrands_config (pool : StrandPool) (count : Nat) :
    (pool.createStrands count).config = pool.config := by
  induction count generalizing pool with
  | zero => rfl
  | succ count inductionHypothesis => exact inductionHypothesis pool.createStrand

theorem foldl_removeStrand_config (indices : List Nat) (pool : StrandPool) :
    (indices.foldl removeStrand pool).config = pool.config := by
  induction indices generalizing pool with
  | nil => rfl
  | cons index indices inductionHypothesis =>
      rw [List.foldl_cons, inductionHypothesis, removeStrand]
      split <;> rfl

theorem resize_config (pool : StrandPool) (newSize : Nat) :
    (pool.resize platform sorter newSize).1.config = pool.config := by
  rw [resize]
  split
  · rfl
  · split
    · rfl
    · show StrandPool.config (if _ then _ else _) = _
      split
      · exact pool.createStrands_config _
      · exact foldl_removeStrand_config _ pool

theorem updateConfig_config (pool : StrandPool) (newConfig : StrandPoolConfig) :
    (pool.updateConfig platform sorter newConfig).1.config = newConfig := by
  rw [updateConfig]
  split
  · exact resize_config platform sorter _ _
  · rfl

end StrandPool

/-- A pool with the whole of its configuration. -/
structure ConfiguredPool where
  config : Config.StrandPoolConfig
  pool : StrandPool
  sizes : pool.config = .sizesOf config

namespace ConfiguredPool

/-- `update_config`. -/
def updateConfig (platform : Platform) (sorter : Sorter lessLoaded) (configured : ConfiguredPool)
    (newConfig : Config.StrandPoolConfig) : ConfiguredPool × Outcome :=
  let updated := configured.pool.updateConfig platform sorter (.sizesOf newConfig)
  (⟨newConfig, updated.1, configured.pool.updateConfig_config platform sorter _⟩, updated.2)

/-- A call which throws leaves everything as it was, and one which returns leaves
the pool with the initial size of the new configuration. -/
def AllOrNothing (platform : Platform) (sorter : Sorter lessLoaded) (configured : ConfiguredPool)
    (newConfig : Config.StrandPoolConfig) : Prop :=
  let (after, outcome) := configured.updateConfig platform sorter newConfig
  if outcome = .returned then after.pool.currentSize = newConfig.initialSize
  else after = configured

theorem eq_of_config {first second : ConfiguredPool} (config : first.config = second.config)
    (pool : { first.pool with config := second.pool.config } = second.pool) : first = second := by
  obtain ⟨firstConfig, firstPool, firstSizes⟩ := first
  obtain ⟨secondConfig, secondPool, secondSizes⟩ := second
  cases config
  rw [← firstSizes.trans secondSizes.symm] at pool
  cases pool
  rfl

/-- **An update of the configuration is all or nothing** exactly when the new
configuration is the one in place, or its initial size is the size of the pool or
lies within its own limits. -/
theorem updateConfig_allOrNothing_iff (platform : Platform) (sorter : Sorter lessLoaded)
    (configured : ConfiguredPool) (newConfig : Config.StrandPoolConfig) :
    configured.AllOrNothing platform sorter newConfig ↔
      newConfig = configured.config ∨ newConfig.initialSize = configured.pool.currentSize ∨
        newConfig.minSize ≤ newConfig.initialSize ∧
          newConfig.initialSize ≤ newConfig.maxSize := by
  let given : StrandPool := { configured.pool with config := .sizesOf newConfig }
  let updated := configured.pool.updateConfig platform sorter (.sizesOf newConfig)
  have returns (ends : updated.2 = .returned)
      (size : updated.1.currentSize = newConfig.initialSize) :
      configured.AllOrNothing platform sorter newConfig := (if_pos ends).mpr size
  have isUpdated : updated = if newConfig.initialSize ≠ given.currentSize then
      given.resize platform sorter newConfig.initialSize else (given, .returned) := rfl
  by_cases same : newConfig.initialSize = configured.pool.currentSize
  · rw [if_neg (not_not.mpr same)] at isUpdated
    refine iff_of_true (returns ?_ ?_) (.inr (.inl same))
    · rw [isUpdated]
    · rw [isUpdated, same]
  · rw [if_pos same] at isUpdated
    rcases given.resize_cases platform sorter newConfig.initialSize with
      ⟨outside, throws⟩ | ⟨inside, changed, returned, size⟩
    · have ends : updated.2 ≠ .returned := by
        rw [isUpdated, throws]
        exact Outcome.noConfusion
      refine (iff_of_eq (if_neg ends)).trans ?_
      constructor
      · exact fun unchanged => .inl (congrArg config unchanged)
      · rintro (kept | isSize | inside)
        · refine eq_of_config kept ?_
          show { updated.1 with config := configured.pool.config } = configured.pool
          rw [isUpdated, throws]
        · exact absurd isSize same
        · exact absurd inside outside
    · refine iff_of_true (returns ?_ ?_) (.inr (.inr inside))
      · rw [isUpdated, returned]
      · rw [isUpdated, returned, size]

/-- A pool of two strands, and a configuration of eight strands of four at most. -/
theorem failed_update_stays :
    ¬ ∀ (platform : Platform) (sorter : Sorter lessLoaded) (configured : ConfiguredPool)
      (newConfig : Config.StrandPoolConfig),
      configured.AllOrNothing platform sorter newConfig := by
  intro allOrNothing
  have unchanged := allOrNothing ⟨fun _ => 0, id⟩ StrandPool.stableSorter
    ⟨{ initialSize := 2 }, StrandPool.new ⟨fun _ => 0, id⟩ ⟨2, 1, 64⟩, rfl⟩
    { initialSize := 8, maxSize := 4 }
  have limit : 4 = 64 := congrArg (fun after => after.config.maxSize) unchanged
  cases limit

end ConfiguredPool

end Foxhttp.Server
