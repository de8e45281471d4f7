import Foxhttp.Library.Turns
import Foxhttp.Server.LeastConnections

/-!
# Strands in turns

Nothing counts an active request down again. So the least active requests are the
fewest selections, and least connections levels the strands, and on a new pool it
takes them in the turns of round robin.
-/

namespace Foxhttp.Server.StrandPool

open Foxhttp.Library

/-- What so many selections in a row return. -/
def selectedInARow (select : StrandPool → Nat → Selection) (pool : StrandPool)
    (roundRobinIndex : Nat) : Nat → List (Option (Option StrandId))
  | 0 => []
  | count + 1 =>
      let selection := select pool roundRobinIndex
      selection.strand ::
        selectedInARow select selection.pool selection.roundRobinIndex count

/-- The pool behind so many selections in a row. -/
def afterSelections (select : StrandPool → Nat → Selection) (pool : StrandPool)
    (roundRobinIndex : Nat) : Nat → StrandPool
  | 0 => pool
  | count + 1 =>
      let selection := select pool roundRobinIndex
      afterSelections select selection.pool selection.roundRobinIndex count

variable {platform : Platform} {pool : StrandPool}

/-- Serving changes the statistics alone. -/
theorem consistent_serve (consistent : Consistent platform pool) (roundRobinIndex index : Nat) :
    Consistent platform (pool.serve roundRobinIndex index).pool :=
  { consistent with
    strandsStats := by
      rw [serve, updateStrandStats, List.length_modify]
      exact consistent.strandsStats }

/-! ## Round robin -/

/-- In a row, round robin returns the strands of its turns. -/
theorem selectedInARow_roundRobin (strands : pool.strands ≠ []) (usable : 0 < pool.currentSize)
    {start : Nat} (below : start < 2 ^ 64) (count : Nat) :
    selectedInARow roundRobinStrand pool start count =
      (List.range count).map fun turn =>
        pool.strands[turnOf (2 ^ 64) pool.currentSize start turn]?.map some := by
  induction count generalizing pool start with
  | zero => rfl
  | succ count inductionHypothesis =>
      have nonempty : pool.strands.isEmpty = false := by simpa using strands
      have served : pool.roundRobinStrand start =
          pool.serve ((start + 1) % 2 ^ 64) (start % pool.currentSize) := by
        rw [roundRobinStrand, nonempty, if_neg Bool.false_ne_true, if_neg (Nat.ne_of_gt usable)]
      have behind := @inductionHypothesis
        (pool.serve ((start + 1) % 2 ^ 64) (start % pool.currentSize)).pool strands usable
        ((start + 1) % 2 ^ 64) (Nat.mod_lt _ (by decide))
      rw [selectedInARow, served]
      refine (congrArg (List.cons _) behind).trans ?_
      rw [List.range_succ_eq_map, List.map_cons, List.map_map]
      congr 1
      · have here : turnOf (2 ^ 64) pool.currentSize start 0 = start % pool.currentSize := by
          rw [turnOf, Nat.add_zero, Nat.mod_eq_of_lt below]
        rw [here]
        rfl
      · refine List.map_congr_left fun turn _ => ?_
        have onward : turnOf (2 ^ 64) pool.currentSize ((start + 1) % 2 ^ 64) turn =
            turnOf (2 ^ 64) pool.currentSize start (turn + 1) := by
          rw [turnOf, turnOf, Nat.mod_add_mod, Nat.add_assoc, Nat.add_comm 1 turn]
        rw [Function.comp, ← onward]
        rfl

/-- **Round robin is fair** in a round, of as many selections as there are strands,
exactly when its counter does not wrap in the round or the size is a power of two. -/
theorem round_robin_fair_iff (consistent : Consistent platform pool)
    (usable : 0 < pool.currentSize) (fits : pool.currentSize < 2 ^ 64) {start : Nat}
    (below : start < 2 ^ 64) :
    (selectedInARow roundRobinStrand pool start pool.currentSize).Perm
        (pool.strands.map fun strand => some (some strand)) ↔
      start + pool.currentSize ≤ 2 ^ 64 ∨ pool.currentSize ∣ 2 ^ 64 := by
  have strands : pool.strands ≠ [] := by
    intro empty
    have length := consistent.strands
    rw [empty, List.length_nil] at length
    omega
  have inRow : selectedInARow roundRobinStrand pool start pool.currentSize =
      (roundFrom (2 ^ 64) pool.currentSize start).map fun place =>
        pool.strands[place]?.map some := by
    rw [selectedInARow_roundRobin strands usable below, roundFrom, List.map_map]
    rfl
  have inOrder : (pool.strands.map fun strand => some (some strand)) =
      (List.range pool.currentSize).map fun place => pool.strands[place]?.map some := by
    refine List.ext_getElem ?_ fun place inside _ => ?_
    · rw [List.length_map, List.length_map, List.length_range, consistent.strands]
    · rw [List.length_map] at inside
      simp [List.getElem?_eq_getElem inside]
  rw [inRow, inOrder, ← fair_roundFrom_iff below usable (Nat.le_of_lt fits)]
  constructor
  · intro perm
    have distinct : ((List.range pool.currentSize).map fun place =>
        pool.strands[place]?.map some).Nodup := by
      rw [← inOrder]
      exact consistent.distinct.map fun _ _ same => Option.some.inj (Option.some.inj same)
    have nodup : (roundFrom (2 ^ 64) pool.currentSize start).Nodup :=
      List.Nodup.of_map _ (perm.nodup_iff.mpr distinct)
    exact fair_of_nodup nodup
  · intro fair
    exact fair.map _

/-- Four strands, in the middle of the turns. -/
theorem round_robin_fair_four :
    (selectedInARow roundRobinStrand (new ⟨fun _ => 0, id⟩ ⟨4, 1, 64⟩) (2 ^ 64 - 1) 4).Perm
        ((new ⟨fun _ => 0, id⟩ ⟨4, 1, 64⟩).strands.map fun strand => some (some strand)) ↔
      2 ^ 64 - 1 + 4 ≤ 2 ^ 64 ∨ 4 ∣ 2 ^ 64 :=
  round_robin_fair_iff (consistent_new ⟨fun _ => 0, id⟩ ⟨4, 1, 64⟩) (by decide) (by decide)
    (by decide)

/-! ## Least connections -/

/-- The active requests of the strands. -/
def activeCounts (pool : StrandPool) : List Nat :=
  pool.strandsStats.map (·.activeRequests)

theorem activeCounts_serve {roundRobinIndex index : Nat} {stats : StrandStats}
    (here : pool.strandsStats[index]? = some stats) (room : stats.activeRequests + 1 < 2 ^ 64) :
    activeCounts (pool.serve roundRobinIndex index).pool =
      (activeCounts pool).set index (stats.activeRequests + 1) := by
  rw [activeCounts, serve, updateStrandStats, activeCounts, List.modify_eq_set_getElem?, here]
  simp only [Option.map_some, Option.map_eq_map, Option.getD_some, List.map_set,
    Nat.mod_eq_of_lt room]

/-- Least connections raises one of the least, when every strand is healthy. -/
theorem leastConnections_raises (consistent : Consistent platform pool)
    (filled : pool.strandsStats ≠ []) (healthy : ∀ stats ∈ pool.strandsStats, stats.isHealthy)
    (room : ∀ stats ∈ pool.strandsStats, stats.activeRequests + 1 < 2 ^ 64)
    (roundRobinIndex : Nat) :
    Raises (activeCounts pool)
      (activeCounts (pool.leastConnectionsStrand roundRobinIndex).pool) := by
  obtain ⟨first, rest, isStats⟩ := List.exists_cons_of_ne_nil filled
  rw [leastConnectionsStrand_eq consistent isStats]
  obtain ⟨stats, here, -, least⟩ := leastFrom_least first rest
  rw [← isStats] at here least
  refine ⟨_, stats.activeRequests, ?_, ?_,
    activeCounts_serve here (room stats (List.mem_of_getElem? here))⟩
  · rw [activeCounts, List.getElem?_map, here]
    rfl
  · intro active member
    obtain ⟨other, isOther, rfl⟩ := List.mem_map.mp member
    exact least other isOther (healthy other isOther)

/-- Every strand is healthy, and has room for so many requests more. -/
def AllHealthy (pool : StrandPool) (more : Nat) : Prop :=
  ∀ stats ∈ pool.strandsStats, stats.isHealthy = true ∧ stats.activeRequests + more < 2 ^ 64

theorem AllHealthy.serve {more : Nat} (allHealthy : AllHealthy pool (more + 1))
    (roundRobinIndex index : Nat) : AllHealthy (pool.serve roundRobinIndex index).pool more := by
  intro stats member
  obtain ⟨place, here⟩ := List.mem_iff_getElem?.mp member
  rw [StrandPool.serve, updateStrandStats, List.getElem?_modify] at here
  obtain ⟨before, isBefore, rfl⟩ := Option.map_eq_some_iff.mp here
  obtain ⟨healthy, room⟩ := allHealthy before (List.mem_of_getElem? isBefore)
  split
  · have shrinks := Nat.mod_le (before.activeRequests + 1) (2 ^ 64)
    refine ⟨healthy, ?_⟩
    dsimp only
    omega
  · exact ⟨healthy, by omega⟩

/-- **Least connections levels the strands**: over any number of selections from
healthy strands, the active requests of a strand are the ones it began with or at
most one more than those of any other. -/
theorem least_connections_levels (count : Nat) (consistent : Consistent platform pool)
    (filled : pool.strandsStats ≠ []) (allHealthy : AllHealthy pool count)
    (roundRobinIndex i j : Nat) {first before other : Nat} :
    let after := afterSelections leastConnectionsStrand pool roundRobinIndex count
    (activeCounts after)[i]? = some first → (activeCounts pool)[i]? = some before →
      (activeCounts after)[j]? = some other → first ≤ max before (other + 1) := by
  intro after isFirst wasFirst isOther
  refine levelled ?_ isFirst wasFirst isOther
  clear isFirst wasFirst isOther
  induction count generalizing pool with
  | zero => exact .refl
  | succ count inductionHypothesis =>
      obtain ⟨stats, rest, isStats⟩ := List.exists_cons_of_ne_nil filled
      have served := leastConnectionsStrand_eq consistent isStats roundRobinIndex
      refine .head (leastConnections_raises consistent filled (fun stats member =>
        (allHealthy stats member).1) (fun stats member => ?_) roundRobinIndex) ?_
      · have room := (allHealthy stats member).2
        omega
      · have onward := inductionHypothesis
          (consistent_serve consistent roundRobinIndex
            (leastFrom 0 stats.activeRequests 1 rest)) ?_ (allHealthy.serve _ _)
        · simp only [after, afterSelections, served]
          exact onward
        · intro empty
          have length := congrArg List.length empty
          rw [StrandPool.serve, updateStrandStats, List.length_modify, isStats] at length
          cases length

/-- Two healthy strands, the first of them ahead by five requests. -/
def ahead : StrandPool :=
  { new ⟨fun _ => 0, id⟩ ⟨2, 1, 64⟩ with strandsStats := [{ activeRequests := 5 }, {}] }

theorem consistent_ahead : Consistent ⟨fun _ => 0, id⟩ ahead :=
  { consistent_new ⟨fun _ => 0, id⟩ ⟨2, 1, 64⟩ with strandsStats := rfl }

theorem least_connections_levels_ahead :
    activeCounts (afterSelections leastConnectionsStrand ahead 0 3) = [5, 3] ∧
      5 ≤ max 5 (3 + 1) := by
  refine ⟨by decide, least_connections_levels 3 consistent_ahead (by decide) ?_ 0 0 1 rfl rfl
    rfl⟩
  simp [AllHealthy, ahead]

/-! ## On a new pool -/

/-- The strands before a turn have one request more than the others. -/
structure InTurns (rounds turn : Nat) (stats : List StrandStats) : Prop where
  inside : turn < stats.length
  healthy : ∀ one ∈ stats, one.isHealthy = true
  served : ∀ one ∈ stats.take turn, one.activeRequests = rounds + 1
  waiting : ∀ one ∈ stats.drop turn, one.activeRequests = rounds

/-- Where nobody has fewer, the scan keeps its best. -/
theorem leastFrom_of_le {bestIndex minConnections i : Nat} {rest : List StrandStats}
    (least : ∀ stats ∈ rest, minConnections ≤ stats.activeRequests) :
    leastFrom bestIndex minConnections i rest = bestIndex := by
  induction rest generalizing i with
  | nil => rfl
  | cons stats rest inductionHypothesis =>
      obtain ⟨here, later⟩ := List.forall_mem_cons.mp least
      rw [leastFrom, if_neg fun both => Nat.not_lt.mpr here both.1]
      exact inductionHypothesis later

/-- The scan passes over those who have as many. -/
theorem leastFrom_append {bestIndex minConnections i : Nat} {before rest : List StrandStats}
    (least : ∀ stats ∈ before, minConnections ≤ stats.activeRequests) :
    leastFrom bestIndex minConnections i (before ++ rest) =
      leastFrom bestIndex minConnections (i + before.length) rest := by
  induction before generalizing i with
  | nil => rfl
  | cons stats before inductionHypothesis =>
      obtain ⟨here, later⟩ := List.forall_mem_cons.mp least
      rw [List.cons_append, leastFrom, if_neg fun both => Nat.not_lt.mpr here both.1,
        inductionHypothesis later, List.length_cons]
      congr 1
      omega

/-- The scan ends at the strand whose turn it is. -/
theorem leastFrom_inTurns {rounds turn : Nat} {first : StrandStats} {rest : List StrandStats}
    (inTurns : InTurns rounds turn (first :: rest)) :
    leastFrom 0 first.activeRequests 1 rest = turn := by
  obtain ⟨inside, healthy, served, waiting⟩ := inTurns
  cases turn with
  | zero =>
      refine leastFrom_of_le fun stats member => ?_
      rw [waiting stats (List.mem_cons_of_mem _ member), waiting first List.mem_cons_self]
  | succ turn =>
      rw [List.take_succ_cons] at served
      obtain ⟨isFirst, isBefore⟩ := List.forall_mem_cons.mp served
      rw [List.drop_succ_cons] at waiting
      rw [List.length_cons] at inside
      have reached : turn < rest.length := by omega
      have split := List.take_append_drop turn rest
      rw [List.drop_eq_getElem_cons reached] at split waiting
      obtain ⟨here, later⟩ := List.forall_mem_cons.mp waiting
      have isHealthy := healthy rest[turn] (List.mem_cons_of_mem _ (List.getElem_mem reached))
      calc leastFrom 0 first.activeRequests 1 rest
          = leastFrom 0 first.activeRequests 1
              (rest.take turn ++ rest[turn] :: rest.drop (turn + 1)) := by rw [split]
        _ = leastFrom 0 first.activeRequests (1 + (rest.take turn).length)
              (rest[turn] :: rest.drop (turn + 1)) := leastFrom_append fun stats member => by
            rw [isFirst, isBefore stats member]
        _ = leastFrom (1 + (rest.take turn).length) rest[turn].activeRequests
              (1 + (rest.take turn).length + 1) (rest.drop (turn + 1)) := by
            rw [leastFrom, if_pos ⟨by omega, isHealthy⟩]
        _ = 1 + (rest.take turn).length := leastFrom_of_le fun stats member => by
            rw [here, later stats member]
        _ = turn + 1 := by
            rw [List.length_take]
            omega

/-- The next turn, in the same round or the next one. -/
theorem InTurns.modify {rounds turn : Nat} {stats : List StrandStats}
    (inTurns : InTurns rounds turn stats) {raise : StrandStats → StrandStats}
    (raised : ∀ one, one.activeRequests = rounds → (raise one).activeRequests = rounds + 1)
    (keeps : ∀ one, (raise one).isHealthy = one.isHealthy) :
    InTurns (if turn + 1 = stats.length then rounds + 1 else rounds)
      (if turn + 1 = stats.length then 0 else turn + 1) (stats.modify turn raise) := by
  obtain ⟨inside, healthy, served, waiting⟩ := inTurns
  have split : stats.modify turn raise =
      stats.take turn ++ raise stats[turn] :: stats.drop (turn + 1) := by
    rw [List.modify_eq_take_cons_drop inside]
  rw [List.drop_eq_getElem_cons inside] at waiting
  obtain ⟨here, later⟩ := List.forall_mem_cons.mp waiting
  have before :
      ∀ one ∈ stats.take turn ++ [raise stats[turn]], one.activeRequests = rounds + 1 := by
    intro one member
    rcases List.mem_append.mp member with earlier | isHere
    · exact served one earlier
    · cases List.mem_singleton.mp isHere
      exact raised _ here
  have stillHealthy : ∀ one ∈ stats.modify turn raise, one.isHealthy = true := by
    intro one member
    obtain ⟨place, isOne⟩ := List.mem_iff_getElem?.mp member
    rw [List.getElem?_modify] at isOne
    obtain ⟨old, isOld, rfl⟩ := Option.map_eq_some_iff.mp isOne
    have wasHealthy := healthy old (List.mem_of_getElem? isOld)
    split
    · rw [keeps, wasHealthy]
    · exact wasHealthy
  have front : (stats.take turn ++ [raise stats[turn]]).length = turn + 1 := by
    rw [List.length_append, List.length_take, List.length_singleton]
    omega
  have shape : stats.modify turn raise =
      (stats.take turn ++ [raise stats[turn]]) ++ stats.drop (turn + 1) := by
    rw [split, List.append_assoc, List.singleton_append]
  by_cases last : turn + 1 = stats.length
  · rw [if_pos last, if_pos last]
    refine ⟨by rw [List.length_modify]; omega, stillHealthy, fun one member => ?_, ?_⟩
    · cases member
    · rw [List.drop_zero, shape, last, List.drop_length, List.append_nil]
      exact before
  · rw [if_neg last, if_neg last]
    refine ⟨by rw [List.length_modify]; omega, stillHealthy, ?_, ?_⟩
    · rw [shape, ← front, List.take_left']
      · exact before
      · rfl
    · rw [shape, ← front, List.drop_left']
      · rw [front]
        exact later
      · rfl

/-- In a row, least connections returns the strands of its turns. -/
theorem selectedInARow_least {rounds turn count : Nat} (consistent : Consistent platform pool)
    (inTurns : InTurns rounds turn pool.strandsStats) (room : rounds + count < 2 ^ 64)
    (roundRobinIndex : Nat) :
    selectedInARow leastConnectionsStrand pool roundRobinIndex count =
      (List.range count).map fun later =>
        pool.strands[(turn + later) % pool.currentSize]?.map some := by
  induction count generalizing pool rounds turn with
  | zero => rfl
  | succ count inductionHypothesis =>
      have size := consistent.strandsStats
      obtain ⟨first, rest, isStats⟩ := List.exists_cons_of_length_pos
        (Nat.zero_lt_of_lt inTurns.inside)
      have served :
          pool.leastConnectionsStrand roundRobinIndex = pool.serve roundRobinIndex turn := by
        rw [leastConnectionsStrand_eq consistent isStats, leastFrom_inTurns (isStats ▸ inTurns)]
      have onward := inductionHypothesis
        (consistent_serve consistent roundRobinIndex turn)
        (inTurns.modify (fun one isOne => by
          rw [isOne]
          exact Nat.mod_eq_of_lt (by omega)) fun _ => rfl) (by split <;> omega)
      have inside : turn < pool.currentSize := size ▸ inTurns.inside
      rw [selectedInARow, served]
      refine (congrArg (List.cons _) onward).trans ?_
      rw [List.range_succ_eq_map, List.map_cons, List.map_map]
      congr 1
      · rw [Nat.add_zero, Nat.mod_eq_of_lt inside]
        rfl
      · refine List.map_congr_left fun later _ => ?_
        have place : ((if turn + 1 = pool.strandsStats.length then 0 else turn + 1) + later) %
            pool.currentSize = (turn + (later + 1)) % pool.currentSize := by
          rw [size]
          split
          · rename_i last
            rw [Nat.zero_add, ← Nat.add_mod_right later, ← last]
            congr 1
            omega
          · congr 1
            omega
        simp only [Function.comp_apply, ← place]
        rfl

/-- The statistics of a new pool are those of new strands. -/
theorem new_idle (platform : Platform) (config : StrandPoolConfig) :
    ∀ one ∈ (new platform config).strandsStats, one = {} := by
  have created (pool : StrandPool) (count : Nat) (start : ∀ one ∈ pool.strandsStats, one = {}) :
      ∀ one ∈ (pool.createStrands count).strandsStats, one = {} := by
    induction count generalizing pool with
    | zero => exact start
    | succ count inductionHypothesis =>
        refine inductionHypothesis pool.createStrand fun one member => ?_
        rcases List.mem_append.mp member with earlier | isNew
        · exact start one earlier
        · exact List.mem_singleton.mp isNew
  exact created _ _ fun one member => by cases member

theorem inTurns_new (platform : Platform) (config : StrandPoolConfig)
    (filled : 0 < config.initialSize) : InTurns 0 0 (new platform config).strandsStats := by
  have idle := new_idle platform config
  refine ⟨(new_inStep platform config).strandsStats ▸ filled, ?_, fun one member => ?_, ?_⟩
  · exact fun one member => idle one member ▸ rfl
  · cases member
  · exact fun one member => idle one member ▸ rfl

/-- **On a new pool, least connections is round robin**: any number of selections,
up to what a counter holds, returns the strands which round robin returns. -/
theorem least_connections_is_round_robin (platform : Platform) (config : StrandPoolConfig)
    (filled : 0 < config.initialSize) (roundRobinIndex count : Nat) (room : count < 2 ^ 64) :
    selectedInARow leastConnectionsStrand (new platform config) roundRobinIndex count =
      selectedInARow roundRobinStrand (new platform config) 0 count := by
  have inStep := new_inStep platform config
  have strands : (new platform config).strands ≠ [] := by
    rw [← List.length_pos_iff, inStep.strands]
    exact filled
  rw [selectedInARow_least (consistent_new platform config) (inTurns_new platform config filled)
    (by rwa [Nat.zero_add]), selectedInARow_roundRobin strands (inStep.currentSize ▸ filled)
    (Nat.two_pow_pos 64)]
  refine List.map_congr_left fun later member => ?_
  have below := List.mem_range.mp member
  rw [turnOf, Nat.mod_eq_of_lt (by omega : 0 + later < 2 ^ 64)]

/-- Three strands. -/
theorem least_connections_is_round_robin_three :
    selectedInARow leastConnectionsStrand (new ⟨fun _ => 0, id⟩ ⟨3, 1, 64⟩) 7 5 =
      selectedInARow roundRobinStrand (new ⟨fun _ => 0, id⟩ ⟨3, 1, 64⟩) 0 5 :=
  least_connections_is_round_robin ⟨fun _ => 0, id⟩ ⟨3, 1, 64⟩ (by decide) 7 5 (by decide)

end Foxhttp.Server.StrandPool
