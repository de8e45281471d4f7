import Foxhttp.Server.StrandResize

/-!
# Session affinity across a shrink

The ring maps a hash to an index. The ring of fewer indices is the larger one
without the entries of the indices dropped, so an index which is kept keeps its
hashes. But the strand behind an index moves down when one before it is
removed, and its hashes stay behind.
-/

namespace Foxhttp.Server.StrandPool

open Foxhttp.Library

variable {platform : Platform} {sorter : Sorter lessLoaded}

/-- The ring of the indices below a size. -/
def ringOf (platform : Platform) (size : Nat) : List (Nat × Nat) :=
  ((List.range size).flatMap fun i =>
    (List.range 100).map fun j => (platform.hash (virtualNode i j), i)).mergeSort ringLe

/-- The vectors, the size and the ring belong together, and no strand is kept twice. -/
structure Consistent (platform : Platform) (pool : StrandPool) : Prop where
  strands : pool.strands.length = pool.currentSize
  strandsStats : pool.strandsStats.length = pool.currentSize
  ring : pool.hashRing = ringOf platform pool.currentSize
  distinct : pool.strands.Nodup

/-- The strands which a shrinking resize leaves. -/
def survivors (platform : Platform) (sorter : Sorter lessLoaded) (pool : StrandPool)
    (newSize : Nat) : List StrandId :=
  (pool.indicesToRemove platform sorter newSize).foldl List.eraseIdx pool.strands

/-- Every hash whose strand survives still leads to it. -/
def KeepsSessions (pool changed : StrandPool) : Prop :=
  ∀ hash strand, (pool.strandByHash hash).2 = some (some strand) → strand ∈ changed.strands →
    (changed.strandByHash hash).2 = some (some strand)

/-- Of the indices which own a hash and whose strand survives, those below the
new size have lost no strand before them, and every hash of one above it passes
to the index its strand moves to. -/
def Passes (platform : Platform) (sorter : Sorter lessLoaded) (pool : StrandPool)
    (newSize : Nat) : Prop :=
  ∀ hash index strand, owner pool.hashRing hash = some index →
    pool.strands[index]? = some strand → strand ∈ pool.survivors platform sorter newSize →
      if index < newSize then
        ∀ earlier ∈ pool.strands.take index, earlier ∈ pool.survivors platform sorter newSize
      else
        owner (ringOf platform newSize) hash = some
          ((pool.strands.take index).filter (· ∈ pool.survivors platform sorter newSize)).length

/-! ## The ring -/

theorem ringLe_antisymm {first second : Nat × Nat} (one : ringLe first second = true)
    (two : ringLe second first = true) : first = second := by
  simp only [ringLe, Bool.or_eq_true, Bool.and_eq_true, decide_eq_true_eq] at *
  exact Prod.ext (by omega) (by omega)

/-- The ring of fewer indices has the entries of those indices. -/
theorem ringOf_filter (platform : Platform) {size newSize : Nat} (smaller : newSize ≤ size) :
    ringOf platform newSize = (ringOf platform size).filter fun entry => entry.2 < newSize := by
  have nodes : ((List.range size).flatMap fun i =>
      (List.range 100).map fun j => (platform.hash (virtualNode i j), i)).filter
        (fun entry => entry.2 < newSize) =
      (List.range newSize).flatMap fun i =>
        (List.range 100).map fun j => (platform.hash (virtualNode i j), i) := by
    obtain ⟨more, rfl⟩ := Nat.exists_eq_add_of_le smaller
    rw [List.range_add, List.flatMap_append, List.filter_append]
    have kept : ((List.range newSize).flatMap fun i =>
        (List.range 100).map fun j => (platform.hash (virtualNode i j), i)).filter
          (fun entry => entry.2 < newSize) = _ := List.filter_eq_self.mpr (by
      intro entry member
      simp only [List.mem_flatMap, List.mem_range, List.mem_map] at member
      obtain ⟨i, below, j, -, rfl⟩ := member
      simpa using below)
    have dropped : (((List.range more).map (newSize + ·)).flatMap fun i =>
        (List.range 100).map fun j => (platform.hash (virtualNode i j), i)).filter
          (fun entry => entry.2 < newSize) = [] := List.filter_eq_nil_iff.mpr (by
      intro entry member
      simp only [List.mem_flatMap, List.mem_map, List.mem_range] at member
      obtain ⟨i, ⟨offset, -, rfl⟩, j, -, rfl⟩ := member
      simp)
    rw [kept, dropped, List.append_nil]
  have sorted (size : Nat) : (ringOf platform size).Pairwise fun first second =>
      ringLe first second = true := List.pairwise_mergeSort ringLe_trans ringLe_total _
  refine List.Perm.eq_of_pairwise (fun _ _ _ _ => ringLe_antisymm) (sorted newSize)
    ((sorted size).filter _) ?_
  rw [ringOf, ← nodes]
  exact (List.mergeSort_perm _ _).trans ((List.mergeSort_perm _ _).symm.filter _)

/-- An index which the smaller ring keeps keeps its hashes. -/
theorem owner_filter {ring : List (Nat × Nat)} {hash index : Nat} {keeps : Nat × Nat → Bool}
    (owns : owner ring hash = some index)
    (kept : ∀ entry ∈ ring, entry.2 = index → keeps entry = true) :
    owner (ring.filter keeps) hash = some index := by
  unfold owner at *
  cases found : ring.find? fun entry => !decide (entry.1 < hash) with
  | some entry =>
      rw [found] at owns
      obtain ⟨reaches, before, after, rfl, earlier⟩ := List.find?_eq_some_iff_append.mp found
      have isKept := kept entry (by simp) (Option.some.inj owns)
      have none : (before.filter keeps).find? (fun entry => !decide (entry.1 < hash)) = none :=
        List.find?_eq_none.mpr fun other member => by
          simpa using earlier other (List.mem_of_mem_filter member)
      rw [List.filter_append, List.filter_cons_of_pos isKept, List.find?_append, none,
        Option.none_or, List.find?_cons, reaches]
      exact owns
  | none =>
      rw [found] at owns
      have none : (ring.filter keeps).find? (fun entry => !decide (entry.1 < hash)) = none :=
        List.find?_eq_none.mpr fun other member =>
          List.find?_eq_none.mp found other (List.mem_of_mem_filter member)
      rw [none]
      cases ring with
      | nil => cases owns
      | cons entry rest =>
          have isKept := kept entry List.mem_cons_self (Option.some.inj owns)
          rw [List.filter_cons_of_pos isKept]
          exact owns

theorem owner_ringOf {size newSize hash index : Nat} (smaller : newSize ≤ size)
    (owns : owner (ringOf platform size) hash = some index) (kept : index < newSize) :
    owner (ringOf platform newSize) hash = some index := by
  rw [ringOf_filter platform smaller]
  exact owner_filter owns fun entry _ same => by simpa [same] using kept

theorem mem_ringOf {size : Nat} {entry : Nat × Nat} :
    entry ∈ ringOf platform size ↔
      entry.2 < size ∧ ∃ j < 100, entry.1 = platform.hash (virtualNode entry.2 j) := by
  rw [ringOf, List.mem_mergeSort, List.mem_flatMap]
  simp only [List.mem_range, List.mem_map]
  constructor
  · rintro ⟨i, below, j, small, rfl⟩
    exact ⟨below, j, small, rfl⟩
  · rintro ⟨below, j, small, isHash⟩
    exact ⟨entry.2, below, j, small, Prod.ext isHash.symm rfl⟩

/-- The hash of a virtual node which no other index shares belongs to its index. -/
theorem owner_virtualNode {size index j : Nat} (below : index < size) (small : j < 100)
    (alone : ∀ other k, platform.hash (virtualNode other k) = platform.hash (virtualNode index j) →
      other < size → other = index) :
    owner (ringOf platform size) (platform.hash (virtualNode index j)) = some index := by
  have member : (platform.hash (virtualNode index j), index) ∈ ringOf platform size :=
    mem_ringOf.mpr ⟨below, j, small, rfl⟩
  have sorted : (ringOf platform size).Pairwise fun first second => ringLe first second = true :=
    List.pairwise_mergeSort ringLe_trans ringLe_total _
  unfold owner
  cases found : (ringOf platform size).find? fun entry =>
      !decide (entry.1 < platform.hash (virtualNode index j)) with
  | none =>
      have absent := List.find?_eq_none.mp found _ member
      simp at absent
  | some entry =>
      obtain ⟨reaches, before, after, whole, earlier⟩ := List.find?_eq_some_iff_append.mp found
      have high : platform.hash (virtualNode index j) ≤ entry.1 := by simpa using reaches
      have low : entry.1 ≤ platform.hash (virtualNode index j) := by
        rw [whole] at member sorted
        rcases List.mem_append.mp member with first | rest
        · have short := earlier _ first
          simp at short
        · rcases List.mem_cons.mp rest with same | later
          · rw [← same]
          · have order := List.rel_of_pairwise_cons (List.pairwise_append.mp sorted).2.1 later
            simp only [ringLe, Bool.or_eq_true, Bool.and_eq_true, decide_eq_true_eq] at order
            omega
      obtain ⟨isIndex, k, -, isHash⟩ := mem_ringOf.mp (List.mem_of_find?_eq_some found)
      have same := alone entry.2 k (isHash.symm.trans (Nat.le_antisymm low high)) isIndex
      rw [Option.some_or, Option.map_some, same]

/-! ## The strands -/

theorem foldl_removeStrand_strands (indices : List Nat) (pool : StrandPool) :
    (indices.foldl removeStrand pool).strands = indices.foldl List.eraseIdx pool.strands := by
  induction indices generalizing pool with
  | nil => rfl
  | cons index indices inductionHypothesis =>
      have removed : (pool.removeStrand index).strands = pool.strands.eraseIdx index := by
        unfold removeStrand
        split
        · rfl
        · rename_i outside
          exact (List.eraseIdx_of_length_le (Nat.le_of_not_lt outside)).symm
      rw [List.foldl_cons, List.foldl_cons, inductionHypothesis, removed]

theorem foldl_eraseIdx_sublist (indices : List Nat) (strands : List StrandId) :
    (indices.foldl List.eraseIdx strands).Sublist strands := by
  induction indices generalizing strands with
  | nil => exact .refl strands
  | cons index indices inductionHypothesis =>
      exact (inductionHypothesis _).trans (List.eraseIdx_sublist strands index)

/-- What is left of distinct elements is those elements which are left. -/
theorem filter_mem_of_sublist {left whole : List StrandId} (sublist : left.Sublist whole)
    (distinct : whole.Nodup) : whole.filter (· ∈ left) = left := by
  have within : left.Sublist (whole.filter (· ∈ left)) := by
    have kept := sublist.filter (· ∈ left)
    rwa [List.filter_eq_self.mpr (by simp)] at kept
  refine (within.eq_of_length_le ?_).symm
  refine (List.Subperm.length_le (List.subperm_of_subset (distinct.filter _) ?_))
  intro strand member
  simpa using (List.mem_filter.mp member).2

/-- Where a strand which is left moves to: behind those which are left before it. -/
theorem getElem?_left_iff {left whole : List StrandId} (sublist : left.Sublist whole)
    (distinct : whole.Nodup) {index : Nat} {strand : StrandId}
    (here : whole[index]? = some strand) (remains : strand ∈ left) (position : Nat) :
    left[position]? = some strand ↔
      position = ((whole.take index).filter (· ∈ left)).length := by
  have there : left[((whole.take index).filter (· ∈ left)).length]? = some strand := by
    obtain ⟨inside, rfl⟩ := List.getElem?_eq_some_iff.mp here
    have split : whole.filter (· ∈ left) = (whole.take index).filter (· ∈ left) ++
        whole[index] :: (whole.drop (index + 1)).filter (· ∈ left) := by
      conv_lhs => rw [← List.take_append_drop index whole]
      rw [List.filter_append, List.drop_eq_getElem_cons inside,
        List.filter_cons_of_pos (by simpa using remains)]
    rw [filter_mem_of_sublist sublist distinct] at split
    refine (congrArg (·[((whole.take index).filter (· ∈ left)).length]?) split).trans ?_
    rw [List.getElem?_append_right (Nat.le_refl _), Nat.sub_self, List.getElem?_cons_zero]
  constructor
  · intro found
    obtain ⟨inside, -⟩ := List.getElem?_eq_some_iff.mp found
    exact (List.getElem?_inj inside (distinct.sublist sublist)).mp (found.trans there.symm)
  · rintro rfl
    exact there

/-! ## The shrink -/

theorem resize_shrinks {pool changed : StrandPool} {newSize : Nat}
    (shrinks : newSize < pool.currentSize)
    (returned : pool.resize platform sorter newSize = (changed, .returned)) :
    changed.strands = pool.survivors platform sorter newSize ∧
      changed.hashRing = ringOf platform newSize := by
  unfold resize at returned
  split at returned
  · cases returned
  · rw [if_neg (Nat.ne_of_lt shrinks), if_neg (Nat.lt_asymm shrinks)] at returned
    cases returned
    exact ⟨foldl_removeStrand_strands _ pool, rfl⟩

theorem strandByHash_eq_some_iff {pool : StrandPool} {hash : Nat} {strand : StrandId} :
    (pool.strandByHash hash).2 = some (some strand) ↔
      ∃ index, owner pool.hashRing hash = some index ∧ pool.strands[index]? = some strand := by
  simp only [strandByHash, consistentHashStrand]
  split
  · rename_i empty
    have none : pool.strands = [] := List.isEmpty_iff.mp empty
    simp [none]
  · split <;> simp [*]

/-- **Session affinity survives a shrink** exactly when no index below the new
size which owns a hash loses a strand before it, and the hashes of every other
index whose strand survives pass to where it moves. -/
theorem keepsSessions_iff {pool changed : StrandPool} {newSize : Nat}
    (consistent : Consistent platform pool) (shrinks : newSize < pool.currentSize)
    (returned : pool.resize platform sorter newSize = (changed, .returned)) :
    KeepsSessions pool changed ↔ pool.Passes platform sorter newSize := by
  obtain ⟨strands, ring⟩ := resize_shrinks shrinks returned
  have sublist : (pool.survivors platform sorter newSize).Sublist pool.strands :=
    foldl_eraseIdx_sublist _ _
  -- one hash, its index and its strand, which survives
  have one (hash index : Nat) (strand : StrandId) (owns : owner pool.hashRing hash = some index)
      (here : pool.strands[index]? = some strand)
      (remains : strand ∈ pool.survivors platform sorter newSize) :
      (changed.strandByHash hash).2 = some (some strand) ↔
        if index < newSize then
          ∀ earlier ∈ pool.strands.take index, earlier ∈ pool.survivors platform sorter newSize
        else
          owner (ringOf platform newSize) hash = some
            ((pool.strands.take index).filter
              (· ∈ pool.survivors platform sorter newSize)).length := by
    have moves := getElem?_left_iff sublist consistent.distinct here remains
    rw [strandByHash_eq_some_iff, strands, ring]
    simp only [moves, exists_eq_right]
    split
    · rename_i kept
      obtain ⟨inside, -⟩ := List.getElem?_eq_some_iff.mp here
      have before : (pool.strands.take index).length = index := by
        rw [List.length_take, Nat.min_eq_left (Nat.le_of_lt inside)]
      rw [owner_ringOf (Nat.le_of_lt shrinks) (consistent.ring ▸ owns) kept, Option.some.injEq]
      constructor
      · intro same
        have all := List.length_filter_eq_length_iff.mp (same.symm.trans before.symm)
        exact fun earlier member => by simpa using all earlier member
      · intro all
        rw [List.filter_eq_self.mpr (by simpa using all), before]
    · rfl
  constructor
  · intro keeps hash index strand owns here remains
    refine (one hash index strand owns here remains).mp (keeps hash strand ?_ (strands ▸ remains))
    exact strandByHash_eq_some_iff.mpr ⟨index, owns, here⟩
  · intro passes hash strand leads remains
    obtain ⟨index, owns, here⟩ := strandByHash_eq_some_iff.mp leads
    rw [strands] at remains
    exact (one hash index strand owns here remains).mpr
      (passes hash index strand owns here remains)

theorem createStrands_strands (pool : StrandPool) (count : Nat) :
    (pool.createStrands count).strands = pool.strands ++ List.range' pool.made count := by
  induction count generalizing pool with
  | zero => simp [createStrands]
  | succ count inductionHypothesis =>
      rw [createStrands, inductionHypothesis, List.range'_succ]
      simp [createStrand]

theorem consistent_new (platform : Platform) (config : StrandPoolConfig) :
    Consistent platform (new platform config) := by
  let empty : StrandPool :=
    { config := config, strands := [], strandsStats := [], currentSize := 0, hashRing := [],
      made := 0 }
  have inStep := new_inStep platform config
  refine ⟨inStep.strands, inStep.strandsStats, rfl, ?_⟩
  have strands : (new platform config).strands = List.range' 0 config.initialSize :=
    empty.createStrands_strands config.initialSize
  rw [strands]
  exact List.nodup_range'

/-- Three idle strands shrunk to two, when all virtual nodes have one hash. -/
theorem keepsSessions_iff_one_hash :
    KeepsSessions (new ⟨fun _ => 0, id⟩ ⟨3, 1, 64⟩)
        ((new ⟨fun _ => 0, id⟩ ⟨3, 1, 64⟩).resize ⟨fun _ => 0, id⟩ stableSorter 2).1 ↔
      (new ⟨fun _ => 0, id⟩ ⟨3, 1, 64⟩).Passes ⟨fun _ => 0, id⟩ stableSorter 2 :=
  keepsSessions_iff (consistent_new _ _) (Nat.lt_succ_self 2) (Prod.ext rfl rfl)

theorem virtualNode_digit {index : Nat} (j : Nat) (below : index < 10) :
    (virtualNode index j).getD 7 ' ' = index.digitChar := by
  have length : "strand_".toList.length = 7 := by decide
  unfold virtualNode
  generalize "strand_".toList = start at *
  rw [Nat.toDigits_of_lt_base below, List.append_assoc, List.getD_eq_getElem?_getD,
    List.getElem?_append_right (by omega), length]
  simp

/-- Three idle strands shrunk to two: the first is removed, and the sessions of
the second move to the third. -/
theorem sessions_move :
    ¬ ∀ (platform : Platform) (sorter : Sorter lessLoaded) (pool changed : StrandPool)
      (newSize : Nat), Consistent platform pool → newSize < pool.currentSize →
        pool.resize platform sorter newSize = (changed, .returned) →
          KeepsSessions pool changed := by
  intro keepsSessions
  -- the hash of a name is its first digit
  let platform : Platform := ⟨fun name => (name.getD 7 ' ').toNat, id⟩
  have digit (index j : Nat) (below : index < 3) :
      platform.hash (virtualNode index j) = 48 + index := by
    have char : ∀ index < 3, (Nat.digitChar index).toNat = 48 + index := by decide
    rw [← char index below, ← virtualNode_digit j (by omega)]
  have second (size : Nat) (enough : 1 < size) (few : size ≤ 3) :
      owner (ringOf platform size) (platform.hash (virtualNode 1 0)) = some 1 := by
    refine owner_virtualNode enough (by decide) fun other k same below => ?_
    rw [digit other k (by omega), digit 1 0 (by decide)] at same
    omega
  let pool := new platform ⟨3, 1, 64⟩
  let changed := (pool.resize platform stableSorter 2).1
  have keeps := keepsSessions platform stableSorter pool changed 2 (consistent_new _ _)
    (Nat.lt_succ_self 2) (Prod.ext rfl rfl)
  have before : (pool.strandByHash (platform.hash (virtualNode 1 0))).2 = some (some 1) :=
    strandByHash_eq_some_iff.mpr ⟨1, second 3 (by decide) (by decide), rfl⟩
  have after := keeps _ 1 before (by decide)
  obtain ⟨index, owns, here⟩ := strandByHash_eq_some_iff.mp after
  have isSecond : some 1 = some index := (second 2 (by decide) (by decide)).symm.trans owns
  cases isSecond
  exact absurd here (by decide)

end Foxhttp.Server.StrandPool
