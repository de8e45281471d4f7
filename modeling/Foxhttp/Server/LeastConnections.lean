import Foxhttp.Library.Preference
import Foxhttp.Server.SessionAffinity
import Foxhttp.Server.StrandSelection

/-!
# The strand with the least connections

The scan for the least active requests begins with those of the first strand and
passes over strands which are not healthy from the second on. So the first strand
is chosen healthy or not, unless a healthy one has fewer requests.
-/

namespace Foxhttp.Server.StrandPool

open Foxhttp.Library

/-- The strand at an index is healthy with the fewest active requests among the
healthy ones, and it is served: its counters are incremented and nothing else. -/
structure ServesLeast (pool : StrandPool) (selection : Selection) (index : Nat)
    (stats : StrandStats) : Prop where
  here : pool.strandsStats[index]? = some stats
  healthy : stats.isHealthy = true
  least : ∀ other ∈ pool.strandsStats, other.isHealthy = true →
    stats.activeRequests ≤ other.activeRequests
  returned : ∃ strand, pool.strands[index]? = some strand ∧ selection.strand = some (some strand)
  counted : selection.pool = { pool with
    strandsStats := pool.strandsStats.set index { stats with
      totalRequests := (stats.totalRequests + 1) % 2 ^ 64
      activeRequests := (stats.activeRequests + 1) % 2 ^ 64 } }

/-- The first strand is healthy, or a healthy strand has fewer active requests. -/
def FirstYields (stats : List StrandStats) : Prop :=
  ∀ first ∈ stats.head?, first.isHealthy = true ∨
    ∃ other ∈ stats, other.isHealthy = true ∧ other.activeRequests < first.activeRequests

/-- What the scan prefers: the fewest active requests, of a healthy strand. -/
def fewest (candidate : StrandStats × Nat) : Option Int :=
  if candidate.1.isHealthy then some (-candidate.1.activeRequests) else none

/-- The scan keeps the best of the candidates. -/
theorem leastFrom_eq (best : StrandStats × Nat) (minConnections i : Nat)
    (rest : List StrandStats) :
    (keepBest fewest (rest.zipIdx i) (-minConnections) (some best)).map Prod.snd =
      some (leastFrom best.2 minConnections i rest) := by
  induction rest generalizing best minConnections i with
  | nil => rfl
  | cons stats rest inductionHypothesis =>
      rw [List.zipIdx_cons, keepBest, leastFrom, fewest]
      by_cases healthy : stats.isHealthy = true
      · rw [if_pos healthy]
        by_cases fewer : stats.activeRequests < minConnections
        · rw [if_pos ⟨fewer, healthy⟩, ← inductionHypothesis (stats, i)]
          simp only
          rw [if_pos (by omega)]
        · rw [if_neg fun both => fewer both.1, ← inductionHypothesis best]
          simp only
          rw [if_neg (by omega)]
      · rw [if_neg healthy, if_neg fun both => healthy both.2]
        exact inductionHypothesis best minConnections (i + 1)

/-- Who is at most as preferred has at least as many requests. -/
theorem least_of_atMost {rest : List StrandStats} {i active : Nat}
    (atMost : AtMost fewest (rest.zipIdx i) (-active)) :
    ∀ other ∈ rest, other.isHealthy = true → active ≤ other.activeRequests := by
  intro other member healthy
  rw [← List.zipIdx_map_fst i rest, List.mem_map] at member
  obtain ⟨candidate, isCandidate, rfl⟩ := member
  have below := atMost candidate isCandidate (-candidate.1.activeRequests) (if_pos healthy)
  omega

/-- The scan ends at the first strand, or at a healthy one with fewer requests. -/
theorem leastFrom_cases (first : StrandStats) (rest : List StrandStats) :
    (leastFrom 0 first.activeRequests 1 rest = 0 ∧
        ∀ other ∈ rest, other.isHealthy = true → first.activeRequests ≤ other.activeRequests) ∨
      ∃ stats, (first :: rest)[leastFrom 0 first.activeRequests 1 rest]? = some stats ∧
        stats.isHealthy = true ∧ stats.activeRequests < first.activeRequests ∧
        ∀ other ∈ rest, other.isHealthy = true → stats.activeRequests ≤ other.activeRequests := by
  have ends := leastFrom_eq (first, 0) first.activeRequests 1 rest
  rcases @keepBest_cases _ fewest (rest.zipIdx 1) (-first.activeRequests) (some (first, 0)) with
    ⟨kept, atMost⟩ | ⟨⟨stats, index⟩, value, chosen, above, best⟩
  · rw [kept] at ends
    exact .inl ⟨(Option.some.inj ends).symm, least_of_atMost atMost⟩
  · rw [chosen] at ends
    have isIndex : index = leastFrom 0 first.activeRequests 1 rest := Option.some.inj ends
    obtain ⟨behind, here⟩ := List.mk_mem_zipIdx_iff_le_and_getElem?_sub.mp best.mem
    have rated := best.rated
    rw [fewest] at rated
    split at rated
    · rename_i healthy
      cases rated
      refine .inr ⟨stats, ?_, healthy, by simpa using above, least_of_atMost best.atMost⟩
      obtain ⟨before, rfl⟩ := Nat.exists_eq_add_of_le' behind
      rw [← isIndex, List.getElem?_cons_succ]
      exact here
    · cases rated

/-- The strand at the end of the scan is the first or healthy, and no healthy one has fewer. -/
theorem leastFrom_least (first : StrandStats) (rest : List StrandStats) :
    ∃ stats, (first :: rest)[leastFrom 0 first.activeRequests 1 rest]? = some stats ∧
      (leastFrom 0 first.activeRequests 1 rest = 0 ∨ stats.isHealthy = true) ∧
      ∀ other ∈ first :: rest, other.isHealthy = true →
        stats.activeRequests ≤ other.activeRequests := by
  rcases leastFrom_cases first rest with ⟨atFirst, least⟩ | ⟨stats, here, isHealthy, less, least⟩
  · refine ⟨first, ?_, .inl atFirst, List.forall_mem_cons.mpr ⟨fun _ => Nat.le_refl _, least⟩⟩
    rw [atFirst]
    rfl
  · exact ⟨stats, here, .inr isHealthy,
      List.forall_mem_cons.mpr ⟨fun _ => Nat.le_of_lt less, least⟩⟩

variable {platform : Platform} {pool : StrandPool}

/-- What `least_connections_strand` does with a consistent pool which has strands. -/
theorem leastConnectionsStrand_eq (consistent : Consistent platform pool) {first : StrandStats}
    {rest : List StrandStats} (stats : pool.strandsStats = first :: rest) (roundRobinIndex : Nat) :
    pool.leastConnectionsStrand roundRobinIndex =
      pool.serve roundRobinIndex (leastFrom 0 first.activeRequests 1 rest) := by
  have length := consistent.strands.trans consistent.strandsStats.symm
  have nonempty : pool.strands.isEmpty = false := by
    rw [stats] at length
    cases strands : pool.strands with
    | nil =>
        rw [strands] at length
        cases length
    | cons strand strands => rfl
  have inUse : pool.statsInUse = some pool.strandsStats := by
    rw [statsInUse, if_pos (Nat.le_of_eq consistent.strandsStats.symm),
      ← consistent.strandsStats, List.take_length]
  rw [leastConnectionsStrand, nonempty, if_neg Bool.false_ne_true, inUse, stats]
  rfl

/-- Serving the least healthy strand at an index serves the least. -/
theorem servesLeast_serve (consistent : Consistent platform pool) (roundRobinIndex : Nat)
    {index : Nat} {stats : StrandStats} (here : pool.strandsStats[index]? = some stats)
    (healthy : stats.isHealthy = true)
    (least : ∀ other ∈ pool.strandsStats, other.isHealthy = true →
      stats.activeRequests ≤ other.activeRequests) :
    ServesLeast pool (pool.serve roundRobinIndex index) index stats where
  here
  healthy
  least
  returned := by
    have inside := (List.getElem?_eq_some_iff.mp here).1
    rw [consistent.strandsStats, ← consistent.strands] at inside
    exact ⟨pool.strands[index], List.getElem?_eq_getElem inside, by
      rw [serve, List.getElem?_eq_getElem inside, Option.map_some]⟩
  counted := by
    rw [serve, updateStrandStats, List.modify_eq_set_getElem?, here]
    rfl

/-- **Least connections avoids unhealthy strands** exactly when the first strand
is healthy, or a healthy one has fewer active requests. -/
theorem servesLeast_iff (consistent : Consistent platform pool)
    (healthy : ∃ stats ∈ pool.strandsStats, stats.isHealthy = true) (roundRobinIndex : Nat) :
    (∃ index stats, ServesLeast pool (pool.leastConnectionsStrand roundRobinIndex) index stats) ↔
      FirstYields pool.strandsStats := by
  obtain ⟨first, rest, isStats⟩ : ∃ first rest, pool.strandsStats = first :: rest := by
    obtain ⟨stats, member, -⟩ := healthy
    exact List.exists_cons_of_ne_nil (List.ne_nil_of_mem member)
  rw [leastConnectionsStrand_eq consistent isStats]
  constructor
  · rintro ⟨index, stats, serves⟩ other isFirst
    rw [isStats] at isFirst
    cases isFirst
    rcases leastFrom_cases first rest with ⟨atFirst, -⟩ | ⟨fewer, here, isHealthy, less, -⟩
    · obtain ⟨strand, isStrand, returned⟩ := serves.returned
      rw [serve, atFirst] at returned
      obtain ⟨_, isFirst, ⟨⟩⟩ := Option.map_eq_some_iff.mp returned
      have inside := (List.getElem?_eq_some_iff.mp isFirst).1
      have isZero : 0 = index :=
        (List.getElem?_inj inside consistent.distinct).mp (isFirst.trans isStrand.symm)
      have here := serves.here
      rw [← isZero, isStats] at here
      cases here
      exact .inl serves.healthy
    · rw [isStats]
      exact .inr ⟨fewer, List.mem_of_getElem? here, isHealthy, less⟩
  · intro yields
    rcases leastFrom_cases first rest with ⟨atFirst, least⟩ | ⟨stats, here, isHealthy, less, least⟩
    · have firstHealthy : first.isHealthy = true := by
        refine (yields first (by rw [isStats]; rfl)).resolve_right ?_
        rintro ⟨other, member, isHealthy, less⟩
        rw [isStats, List.mem_cons] at member
        rcases member with rfl | later
        · exact Nat.lt_irrefl _ less
        · exact Nat.not_lt.mpr (least other later isHealthy) less
      rw [atFirst]
      refine ⟨0, first, servesLeast_serve consistent _ (by rw [isStats]; rfl) firstHealthy ?_⟩
      rw [isStats]
      exact List.forall_mem_cons.mpr ⟨fun _ => Nat.le_refl _, least⟩
    · refine ⟨_, stats, servesLeast_serve consistent _ (by rw [isStats]; exact here) isHealthy ?_⟩
      rw [isStats]
      exact List.forall_mem_cons.mpr ⟨fun _ => Nat.le_of_lt less, least⟩

/-- Two strands, of which the first is not healthy. -/
def firstFails (firstActive secondActive : Nat) : StrandPool :=
  { new ⟨fun _ => 0, id⟩ ⟨2, 1, 64⟩ with
    strandsStats :=
      [{ activeRequests := firstActive, isHealthy := false },
        { activeRequests := secondActive }] }

theorem consistent_firstFails (firstActive secondActive : Nat) :
    Consistent ⟨fun _ => 0, id⟩ (firstFails firstActive secondActive) :=
  { consistent_new ⟨fun _ => 0, id⟩ ⟨2, 1, 64⟩ with strandsStats := rfl }

/-- The first strand has more requests. -/
theorem servesLeast_iff_busy_first :
    (∃ index stats,
      ServesLeast (firstFails 5 1) ((firstFails 5 1).leastConnectionsStrand 0) index stats) ↔
        FirstYields (firstFails 5 1).strandsStats :=
  servesLeast_iff (consistent_firstFails 5 1) ⟨_, List.mem_cons_of_mem _ List.mem_cons_self, rfl⟩ 0

/-- The first strand has fewer requests, and is chosen. -/
theorem unhealthy_strand_chosen :
    ¬ ∀ (platform : Platform) (pool : StrandPool), Consistent platform pool →
      (∃ stats ∈ pool.strandsStats, stats.isHealthy = true) → ∀ roundRobinIndex,
        ∃ index stats,
          ServesLeast pool (pool.leastConnectionsStrand roundRobinIndex) index stats := by
  intro servesLeast
  obtain ⟨index, stats, serves⟩ := servesLeast _ _ (consistent_firstFails 0 1)
    ⟨_, List.mem_cons_of_mem _ List.mem_cons_self, rfl⟩ 0
  obtain ⟨strand, isStrand, returned⟩ := serves.returned
  have isFirst : ((firstFails 0 1).leastConnectionsStrand 0).strand = some (some 0) := by decide
  cases returned.symm.trans isFirst
  have here := serves.here
  have healthy := serves.healthy
  rcases index with _ | _ | index
  · cases here
    cases healthy
  · cases isStrand
  · cases isStrand

end Foxhttp.Server.StrandPool
