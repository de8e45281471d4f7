import Mathlib.Algebra.Group.Nat.Defs
import Mathlib.Data.Rat.Defs
import Mathlib.Algebra.Order.Ring.Unbundled.Rat
import Foxhttp.Library.Sorter
import Foxhttp.Library.Text

/-!
# The strand pool

A `StrandPool` keeps a vector of strands, a vector of their statistics and a
consistent hash ring of the indices of the first. `resize` drops the strands
with the least load factor by their indices, one after the other.
-/

namespace Foxhttp.Server

open Foxhttp.Library

/-- The counters of `StrandStats` which the pool reads. -/
structure StrandStats where
  totalRequests : Nat := 0
  activeRequests : Nat := 0
  completedRequests : Nat := 0
  isHealthy : Bool := true
  deriving DecidableEq, Repr

/-- The sizes of `StrandPoolConfig`. -/
structure StrandPoolConfig where
  initialSize : Nat
  minSize : Nat := 1
  maxSize : Nat := 64
  deriving DecidableEq, Repr

abbrev StrandId := Nat

/-- `StrandPool`. Strands are shared pointers, told apart by when they were made. -/
structure StrandPool where
  config : StrandPoolConfig
  strands : List StrandId
  strandsStats : List StrandStats
  currentSize : Nat
  /-- `<hash, strand_index>` -/
  hashRing : List (Nat × Nat)
  made : Nat

/-- What the standard library and the processor give: `std::hash<std::string>`
and the rounding of a result to a `double`. -/
structure Platform where
  hash : Text → Nat
  round : ℚ → ℚ

/-- How a call ends. -/
inductive Outcome where
  | returned
  | threw (what : String)
  deriving DecidableEq, Repr

namespace StrandStats

/-- `load_factor`. -/
def loadFactor (platform : Platform) (stats : StrandStats) : ℚ :=
  let total : Nat := (stats.activeRequests + stats.completedRequests) % 2 ^ 64
  if total = 0 then 0
  else platform.round (platform.round stats.activeRequests / platform.round total)

end StrandStats

/-- The order of `resize` on indices with their load factors. -/
def lessLoaded (first second : Nat × ℚ) : Bool :=
  decide (first.2 < second.2)

/-- The order of pairs of `std::sort`, not strictly. -/
def ringLe (first second : Nat × Nat) : Bool :=
  decide (first.1 < second.1) || (decide (first.1 = second.1) && decide (first.2 ≤ second.2))

namespace StrandPool

variable (platform : Platform) (sorter : Sorter lessLoaded)

/-- The name of a virtual node, `"strand_" + i + "_" + j`. -/
def virtualNode (i j : Nat) : Text :=
  "strand_".toList ++ Nat.toDigits 10 i ++ '_' :: Nat.toDigits 10 j

/-- `update_consistent_hash_ring`. -/
def updateConsistentHashRing (pool : StrandPool) : StrandPool :=
  { pool with hashRing :=
      ((List.range pool.currentSize).flatMap fun i =>
        (List.range 100).map fun j => (platform.hash (virtualNode i j), i)).mergeSort ringLe }

/-- `create_strand`. -/
def createStrand (pool : StrandPool) : StrandPool :=
  { pool with
    strands := pool.strands ++ [pool.made]
    strandsStats := pool.strandsStats ++ [{}]
    made := pool.made + 1 }

/-- The loops which call `create_strand`. -/
def createStrands (pool : StrandPool) : Nat → StrandPool
  | 0 => pool
  | count + 1 => pool.createStrand.createStrands count

/-- `remove_strand`. -/
def removeStrand (pool : StrandPool) (index : Nat) : StrandPool :=
  if index < pool.strands.length then
    { pool with
      strands := pool.strands.eraseIdx index
      strandsStats := pool.strandsStats.eraseIdx index }
  else pool

/-- `update_strand_stats`. -/
def updateStrandStats (pool : StrandPool) (index : Nat) : StrandPool :=
  { pool with strandsStats := pool.strandsStats.modify index fun stats =>
      { stats with
        totalRequests := (stats.totalRequests + 1) % 2 ^ 64
        activeRequests := (stats.activeRequests + 1) % 2 ^ 64 } }

/-- The index `std::lower_bound` finds in a sorted ring, from its beginning
again past its end. -/
def owner (ring : List (Nat × Nat)) (hash : Nat) : Option Nat :=
  ((ring.find? fun entry => !decide (entry.1 < hash)).or ring.head?).map Prod.snd

/-- `consistent_hash_strand`; nothing where it reads what is not there. -/
def consistentHashStrand (pool : StrandPool) (hash : Nat) :
    StrandPool × Option (Option StrandId) :=
  if pool.strands.isEmpty then (pool, some none)
  else
    match owner pool.hashRing hash with
    | none => (pool, none)
    | some index => (pool.updateStrandStats index, pool.strands[index]?.map some)

/-- `strand_by_hash`. -/
def strandByHash (pool : StrandPool) (hash : Nat) : StrandPool × Option (Option StrandId) :=
  pool.consistentHashStrand hash

/-- `strand_for_session`. -/
def strandForSession (pool : StrandPool) (sessionId : Text) :
    StrandPool × Option (Option StrandId) :=
  pool.consistentHashStrand (platform.hash sessionId)

/-- The constructor, with `initialize`. -/
def new (config : StrandPoolConfig) : StrandPool :=
  let pool : StrandPool :=
    { config := config
      strands := []
      strandsStats := []
      currentSize := 0
      hashRing := []
      made := 0 }
  updateConsistentHashRing platform
    { pool.createStrands config.initialSize with currentSize := config.initialSize }

/-- The indices with their load factors which `resize` sorts. -/
def loadFactors (pool : StrandPool) : List (Nat × ℚ) :=
  (pool.strandsStats.take pool.currentSize).mapIdx fun i stats => (i, stats.loadFactor platform)

/-- The indices which `resize` removes, in order. -/
def indicesToRemove (pool : StrandPool) (newSize : Nat) : List Nat :=
  ((sorter.sort (pool.loadFactors platform)).take (pool.currentSize - newSize)).map Prod.fst

/-- `resize`. -/
def resize (pool : StrandPool) (newSize : Nat) : StrandPool × Outcome :=
  if newSize < pool.config.minSize ∨ pool.config.maxSize < newSize then
    (pool, .threw "Invalid strand pool size")
  else if newSize = pool.currentSize then (pool, .returned)
  else
    let changed :=
      if pool.currentSize < newSize then pool.createStrands (newSize - pool.currentSize)
      else (pool.indicesToRemove platform sorter newSize).foldl removeStrand pool
    (updateConsistentHashRing platform { changed with currentSize := newSize }, .returned)

/-- `update_config`. -/
def updateConfig (pool : StrandPool) (newConfig : StrandPoolConfig) : StrandPool × Outcome :=
  let pool := { pool with config := newConfig }
  if newConfig.initialSize ≠ pool.currentSize then
    pool.resize platform sorter newConfig.initialSize
  else (pool, .returned)

end StrandPool

end Foxhttp.Server
