import Foxhttp.Library.Periodic
import Foxhttp.Server.StrandLife

/-!
# The health checks of a strand pool

`start` waits for the health check interval, and the handler asks the callback about
each index, stores the answers and waits again. The indices are those of the check: a
strand has the health which was answered for its index, as long as the size stays.
-/

namespace Foxhttp.Server

open Foxhttp.Library
open Foxhttp.Config (LoadBalanceStrategy)

/-- A pool with the health check interval of its configuration. -/
structure CheckedPool where
  live : LivePool
  healthCheckInterval : Nat

/-- A call, with the interval of the configuration which `update_config` takes. -/
structure CheckedCall where
  call : PoolCall
  healthCheckInterval : Nat := 5000

namespace CheckedPool

variable (platform : Platform) (sorter : Sorter lessLoaded) (toSize : ℚ → Nat)

/-- A pool behind a call. -/
def answer (checked : CheckedPool) (request : CheckedCall) : CheckedPool where
  live := checked.live.call platform sorter toSize request.call
  healthCheckInterval :=
    match request.call with
    | .updateConfig _ _ => request.healthCheckInterval
    | _ => checked.healthCheckInterval

/-- What the handler of the timer does to the pool. -/
def check (checked : CheckedPool) (callback : Option (Nat → Bool)) : CheckedPool :=
  { checked with
    live := { checked.live with pool := checked.live.pool.performHealthCheck callback } }

/-- A pool right behind its construction. -/
def Constructed (checked : CheckedPool) : Prop :=
  ∃ config strategy healthCheckInterval,
    checked = ⟨⟨strategy, 0, .new platform config⟩, healthCheckInterval⟩

/-- `start`, `stop` and `start_health_checking`, between any calls. -/
def healthChecks :
    System (Periodic CheckedPool) (PeriodicChoice CheckedCall (Option (Nat → Bool)))
      (PeriodicEvent CheckedCall (Option (Nat → Bool))) :=
  Periodic.system healthCheckInterval (answer platform sorter toSize) check
    (Constructed platform)

/-- The interval is at most so long, and a call leaves the size. -/
def Steady (most : Nat) :
    System.Guard (Periodic CheckedPool) (PeriodicEvent CheckedCall (Option (Nat → Bool))) :=
  fun _ loop event => loop.rest.healthCheckInterval ≤ most ∧
    match event with
    | some (.acted request) =>
        (loop.rest.answer platform sorter toSize request).live.pool.currentSize =
          loop.rest.live.pool.currentSize
    | _ => True

instance (most : Nat) (events : List (PeriodicEvent CheckedCall (Option (Nat → Bool))))
    (loop : Periodic CheckedPool)
    (event : Option (PeriodicEvent CheckedCall (Option (Nat → Bool)))) :
    Decidable (Steady platform sorter toSize most events loop event) :=
  match event with
  | some (.acted _) => inferInstanceAs (Decidable (_ ∧ _ = _))
  | some (.started _) | some .stopped | some (.passed _ _) | none =>
      inferInstanceAs (Decidable (_ ∧ True))

/-- What the last check was answered, by the timer or by a call. -/
def lastAnswers (events : List (PeriodicEvent CheckedCall (Option (Nat → Bool)))) :
    Option (Nat → Bool) :=
  (events.filterMap fun
    | .passed _ callback | .acted ⟨.performHealthCheck callback, _⟩ => callback
    | _ => none).getLast?

/-- Whether indices are healthy by the last answers. -/
def answered (events : List (PeriodicEvent CheckedCall (Option (Nat → Bool)))) : Nat → Bool :=
  (lastAnswers events).getD fun _ => true

variable {platform : Platform} {sorter : Sorter lessLoaded} {toSize : ℚ → Nat}

/-- The strands are as healthy as they were answered for. -/
structure AsAnswered (platform : Platform) (healthy : Nat → Bool) (pool : StrandPool) : Prop where
  consistent : StrandPool.Consistent platform pool
  health : ∀ index stats, pool.strandsStats[index]? = some stats →
    stats.isHealthy = healthy index

section Pool

variable {healthy : Nat → Bool} {pool : StrandPool}

theorem AsAnswered.updateStrandStats (asAnswered : AsAnswered platform healthy pool)
    (index : Nat) : AsAnswered platform healthy (pool.updateStrandStats index) where
  consistent := StrandPool.consistent_serve asAnswered.consistent 0 index
  health place stats here := by
    rw [StrandPool.updateStrandStats, List.getElem?_modify] at here
    obtain ⟨before, isBefore, rfl⟩ := Option.map_eq_some_iff.mp here
    have held := asAnswered.health place before isBefore
    split <;> exact held

/-- A selection changes no health. -/
theorem AsAnswered.selected (asAnswered : AsAnswered platform healthy pool) {next : StrandPool}
    (selected : next = pool ∨ ∃ index, next = pool.updateStrandStats index) :
    AsAnswered platform healthy next := by
  rcases selected with rfl | ⟨index, rfl⟩
  · exact asAnswered
  · exact asAnswered.updateStrandStats index

/-- A resize which leaves the size changes nothing. -/
theorem resize_of_size {newSize : Nat}
    (same : (pool.resize platform sorter newSize).1.currentSize = pool.currentSize) :
    (pool.resize platform sorter newSize).1 = pool := by
  rw [StrandPool.resize] at same ⊢
  split at same
  · rw [if_pos ‹_›]
  · rw [if_neg ‹_›]
    split at same
    · rw [if_pos ‹_›]
    · exact absurd same ‹_›

theorem AsAnswered.resize (asAnswered : AsAnswered platform healthy pool) {newSize : Nat}
    (same : (pool.resize platform sorter newSize).1.currentSize = pool.currentSize) :
    AsAnswered platform healthy (pool.resize platform sorter newSize).1 := by
  rw [resize_of_size same]
  exact asAnswered

theorem AsAnswered.updateConfig (asAnswered : AsAnswered platform healthy pool)
    {newConfig : StrandPoolConfig}
    (same : (pool.updateConfig platform sorter newConfig).1.currentSize = pool.currentSize) :
    AsAnswered platform healthy (pool.updateConfig platform sorter newConfig).1 := by
  have configured : AsAnswered platform healthy { pool with config := newConfig } :=
    ⟨{ asAnswered.consistent with }, asAnswered.health⟩
  rw [StrandPool.updateConfig] at same ⊢
  dsimp only at same ⊢
  split at same
  · rw [if_pos ‹_›]
    exact configured.resize same
  · rw [if_neg ‹_›]
    exact configured

/-- A check gives the strands the health it is answered. -/
theorem AsAnswered.performHealthCheck (asAnswered : AsAnswered platform healthy pool)
    (callback : Option (Nat → Bool)) :
    AsAnswered platform (callback.getD healthy) (pool.performHealthCheck callback) := by
  cases callback with
  | none => exact asAnswered
  | some isHealthy =>
      refine ⟨{ asAnswered.consistent with strandsStats := ?_ }, ?_⟩
      · exact List.length_mapIdx.trans asAnswered.consistent.strandsStats
      · intro index stats here
        rw [StrandPool.performHealthCheck, List.getElem?_mapIdx] at here
        obtain ⟨before, isBefore, rfl⟩ := Option.map_eq_some_iff.mp here
        have inside := (List.getElem?_eq_some_iff.mp isBefore).1
        rw [asAnswered.consistent.strandsStats] at inside
        rw [if_pos inside]
        rfl

end Pool

/-! ## What runs keep -/

variable {events : List (PeriodicEvent CheckedCall (Option (Nat → Bool)))}
  {loop next : Periodic CheckedPool}

/-- A call which leaves the size leaves the health to the last answers. -/
theorem AsAnswered.acted
    (asAnswered : AsAnswered platform (answered events) loop.rest.live.pool)
    (request : CheckedCall)
    (same : (loop.rest.answer platform sorter toSize request).live.pool.currentSize =
      loop.rest.live.pool.currentSize) :
    AsAnswered platform (answered (events ++ [.acted request]))
      (loop.rest.answer platform sorter toSize request).live.pool := by
  obtain ⟨call, healthCheckInterval⟩ := request
  have unanswered (isOther : ∀ callback, call ≠ .performHealthCheck callback) :
      answered (events ++ [.acted ⟨call, healthCheckInterval⟩]) = answered events := by
    cases call with
    | performHealthCheck callback => exact absurd rfl (isOther callback)
    | _ => simp [answered, lastAnswers]
  cases call with
  | nextStrand draws =>
      rw [unanswered (by simp)]
      exact asAnswered.selected (StrandPool.nextStrand_pool _ _ _ draws)
  | strandForSession sessionId =>
      rw [unanswered (by simp)]
      exact asAnswered.selected (StrandPool.consistentHashStrand_pool _ _)
  | strandByHash hash =>
      rw [unanswered (by simp)]
      exact asAnswered.selected (StrandPool.consistentHashStrand_pool _ hash)
  | resize newSize =>
      rw [unanswered (by simp)]
      exact asAnswered.resize same
  | setLoadBalanceStrategy strategy =>
      rw [unanswered (by simp)]
      exact asAnswered
  | updateConfig newConfig strategy =>
      rw [unanswered (by simp)]
      exact asAnswered.updateConfig same
  | performHealthCheck callback =>
      have behind : answered (events ++ [.acted ⟨.performHealthCheck callback,
          healthCheckInterval⟩]) = callback.getD (answered events) := by
        cases callback <;> simp [answered, lastAnswers]
      rw [behind]
      exact asAnswered.performHealthCheck callback

theorem asAnswered_step {most : Nat}
    (asAnswered : AsAnswered platform (answered events) loop.rest.live.pool)
    {choice : PeriodicChoice CheckedCall (Option (Nat → Bool))}
    {event : Option (PeriodicEvent CheckedCall (Option (Nat → Bool)))}
    (stepped : (healthChecks platform sorter toSize).step loop choice = some (event, next))
    (steady : Steady platform sorter toSize most events loop event) :
    AsAnswered platform (answered (events ++ event.toList)) next.rest.live.pool := by
  cases choice with
  | tick elapsed =>
      cases stepped
      simpa using asAnswered
  | act request =>
      cases stepped
      exact asAnswered.acted request steady.2
  | start =>
      simp only [healthChecks, Periodic.system, Periodic.step] at stepped
      split at stepped <;> cases stepped
      · simpa using asAnswered
      · simpa [answered, lastAnswers, Periodic.arm] using asAnswered
  | stop =>
      simp only [healthChecks, Periodic.system, Periodic.step] at stepped
      split at stepped <;> cases stepped
      · simpa [answered, lastAnswers] using asAnswered
      · simpa using asAnswered
  | expire =>
      simp only [healthChecks, Periodic.system, Periodic.step] at stepped
      split at stepped
      · cases (Option.ite_none_right_eq_some.mp stepped).2
        simpa using asAnswered
      · cases stepped
  | handle callback =>
      simp only [healthChecks, Periodic.system, Periodic.step] at stepped
      split at stepped
      · split at stepped <;> cases stepped
        · have behind : answered (events ++ [.passed loop.now callback]) =
              callback.getD (answered events) := by
            cases callback <;> simp [answered, lastAnswers]
          rw [Option.toList_some, behind]
          exact asAnswered.performHealthCheck callback
        · simpa using asAnswered
      · cases stepped

/-- In every run whose calls leave the size, strands are as healthy as last answered. -/
theorem asAnswered_runs {most : Nat}
    (run : (healthChecks platform sorter toSize).Runs (Steady platform sorter toSize most)
      events loop) : AsAnswered platform (answered events) loop.rest.live.pool := by
  induction run with
  | initial isInitial =>
      obtain ⟨_, ⟨config, strategy, healthCheckInterval, rfl⟩, rfl⟩ := isInitial
      refine ⟨StrandPool.consistent_new platform config, fun index stats here => ?_⟩
      cases StrandPool.new_idle platform config stats (List.mem_of_getElem? here)
      rfl
  | move _ stepped steady inductionHypothesis =>
      exact asAnswered_step inductionHypothesis stepped steady

/-- **Least connections heeds the health checks**, in every run whose calls leave the
size. While the checks are on and on time, they turned an interval and the slack ago at
most; they are made while they are on; and the strand which is served is the first or
was answered healthy, with no more requests than any strand which was. -/
theorem selections_heed_checks {most slack : Nat}
    (run : (healthChecks platform sorter toSize).Runs (Steady platform sorter toSize most)
      events loop) (filled : 0 < loop.rest.live.pool.currentSize) (roundRobinIndex : Nat) :
    (loop.running = true → loop.OnTime slack →
      ∃ turn, Periodic.lastTurn events = some turn ∧ loop.now ≤ turn + most + slack) ∧
    (∀ before now callback after, events = before ++ .passed now callback :: after →
      Periodic.switchedOn before = true) ∧
    ∃ index strand stats, loop.rest.live.pool.strands[index]? = some strand ∧
      loop.rest.live.pool.strandsStats[index]? = some stats ∧
      (loop.rest.live.pool.leastConnectionsStrand roundRobinIndex).strand =
        some (some strand) ∧
      (index = 0 ∨ answered events index = true) ∧
      ∀ other otherStats, loop.rest.live.pool.strandsStats[other]? = some otherStats →
        answered events other = true → stats.activeRequests ≤ otherStats.activeRequests := by
  refine ⟨fun running onTime => ?_, fun before now callback after whole => ?_, ?_⟩
  · refine Periodic.turn_in_time ?_ ?_ run onTime running
    · exact fun _ _ => rfl
    · exact fun _ _ _ steady => steady.1
  · exact Periodic.switchedOn_of_pass (whole ▸ run)
  · obtain ⟨consistent, health⟩ := asAnswered_runs run
    obtain ⟨first, rest, isStats⟩ : ∃ first rest,
        loop.rest.live.pool.strandsStats = first :: rest := by
      refine List.exists_cons_of_length_pos ?_
      rw [consistent.strandsStats]
      exact filled
    obtain ⟨stats, here, firstOrHealthy, least⟩ := StrandPool.leastFrom_least first rest
    rw [← isStats] at here least
    have inside := (List.getElem?_eq_some_iff.mp here).1
    rw [consistent.strandsStats, ← consistent.strands] at inside
    refine ⟨_, _, stats, List.getElem?_eq_getElem inside, here, ?_,
      firstOrHealthy.imp_right (health _ stats here).symm.trans,
      fun other otherStats isOther healthy => ?_⟩
    · rw [StrandPool.leastConnectionsStrand_eq consistent isStats, StrandPool.serve,
        List.getElem?_eq_getElem inside, Option.map_some]
    · exact least otherStats (List.mem_of_getElem? isOther)
        ((health other otherStats isOther).trans healthy)

/-- Two new strands, with an interval of 5. -/
def pairOfStrands : CheckedPool :=
  ⟨⟨.leastConnections, 0, .new ⟨fun _ => 0, id⟩ ⟨2, 1, 64⟩⟩, 5⟩

/-- A check behind the interval fails the first strand, which has a request. -/
theorem selections_heed_checks_second :
    ∃ reached, (healthChecks ⟨fun _ => 0, id⟩ StrandPool.stableSorter fun _ => 0).follow
        (Steady ⟨fun _ => 0, id⟩ StrandPool.stableSorter (fun _ => 0) 5) []
        { rest := pairOfStrands }
        [.start, .act ⟨.nextStrand ⟨0, 0⟩, 0⟩, .tick 5, .expire,
          .handle (some fun index => decide (index = 1))] = some reached ∧
      ∃ index strand stats, reached.2.rest.live.pool.strands[index]? = some strand ∧
        reached.2.rest.live.pool.strandsStats[index]? = some stats ∧
        (reached.2.rest.live.pool.leastConnectionsStrand 0).strand = some (some strand) ∧
        (index = 0 ∨ answered reached.1 index = true) ∧
        ∀ other otherStats, reached.2.rest.live.pool.strandsStats[other]? = some otherStats →
          answered reached.1 other = true →
            stats.activeRequests ≤ otherStats.activeRequests := by
  have isInitial : (healthChecks ⟨fun _ => 0, id⟩ StrandPool.stableSorter fun _ => 0).Initial
      { rest := pairOfStrands } :=
    ⟨_, ⟨⟨2, 1, 64⟩, .leastConnections, 5, rfl⟩, rfl⟩
  refine System.Runs.reaches (.initial isInitial) rfl fun run => ?_
  exact (@selections_heed_checks _ _ _ _ _ _ 0 run Nat.two_pos 0).2.2

end CheckedPool

end Foxhttp.Server
