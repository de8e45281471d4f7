import Mathlib.Logic.Function.Iterate
import Foxhttp.Client.Ownership

/-!
# What a dropped connection costs

`total_connections_` is decremented for every connection which the pool drops, and never
incremented. So it counts the drops downwards from 0, wraps around at the first one, and
is above the capacity from there on.
-/

namespace Foxhttp.Client

open Foxhttp.Library

namespace Counter

/-- A counter at 0 counts downwards from `2 ^ 64`. -/
theorem value_decrements {counter : Counter} (zero : counter.value = 0) {count : Nat}
    (atMost : count ≤ 2 ^ 64) :
    (decrement^[count] counter).value = if count = 0 then 0 else 2 ^ 64 - count := by
  induction count with
  | zero => exact zero
  | succ count inductionHypothesis =>
      have before := inductionHypothesis (Nat.le_of_succ_le atMost)
      rw [Function.iterate_succ_apply', if_neg (Nat.succ_ne_zero count), decrement]
      split
      · rename_i isZero
        dsimp only
        split at before <;> omega
      · rename_i value isValue
        rw [isValue] at before
        split at before
        · cases before
        · simp only
          omega

end Counter

namespace World

variable {opened : ConnectionId → Text × Nat} {maxSize : Nat} {world before middle after : World}

/-- How many connections there are in the pool and in the hands of its callers. -/
def held (world : World) : Nat :=
  world.idle.length + world.fresh.length + world.handedOut.length

/-- The pool drops so many of the connections which are held. -/
structure Drops (count : Nat) (before after : World) : Prop where
  held : before.held + after.made = before.made + after.held + count
  made : before.made ≤ after.made
  total : after.pool.totalConnections = Counter.decrement^[count] before.pool.totalConnections
  maxSize : after.pool.maxSize = before.pool.maxSize

theorem Drops.none (world : World) : Drops 0 world world :=
  ⟨Nat.add_comm _ _, Nat.le_refl _, rfl, rfl⟩

theorem Drops.trans {first second : Nat} (earlier : Drops first before middle)
    (later : Drops second middle after) : Drops (first + second) before after where
  held := by
    have := earlier.held
    have := later.held
    omega
  made := Nat.le_trans earlier.made later.made
  total := by
    rw [later.total, earlier.total, ← Function.iterate_add_apply, Nat.add_comm]
  maxSize := later.maxSize.trans earlier.maxSize

/-! ## Every call but `clear` -/

theorem length_idle_setQueue (world : World) (key : Text) (queue : Queue) :
    (world.setQueue key queue).idle.length + (world.queue key).length =
      queue.length + world.idle.length := by
  have lengths := (world.idle_setQueue key queue).length_eq
  simpa only [List.length_append] using lengths

/-- The loop of `acquire` drops the connections it passes over. -/
theorem acquireFrom_drops (world : World) (key : Text) (queue : Queue) :
    ∃ count, (world.acquireFrom key queue).1.held + (world.queue key).length + count =
        world.held + queue.length ∧
      (world.acquireFrom key queue).1.made = world.made ∧
      (world.acquireFrom key queue).1.pool.totalConnections =
        Counter.decrement^[count] world.pool.totalConnections ∧
      (world.acquireFrom key queue).1.pool.maxSize = world.pool.maxSize := by
  induction queue generalizing world with
  | nil =>
      refine ⟨0, ?_, rfl, rfl, rfl⟩
      have lengths := world.length_idle_setQueue key []
      change (world.setQueue key []).idle.length + world.fresh.length +
        world.handedOut.length + _ + 0 = _
      rw [held]
      simp only [List.length_nil] at lengths ⊢
      omega
  | cons conn rest inductionHypothesis =>
      rw [acquireFrom]
      split
      · refine ⟨0, ?_, rfl, rfl, rfl⟩
        have lengths := world.length_idle_setQueue key rest
        change (world.setQueue key rest).idle.length + world.fresh.length +
          (conn :: world.handedOut).length + _ + 0 = _
        rw [held, List.length_cons, List.length_cons]
        omega
      · obtain ⟨count, lengths, made, total, maxSize⟩ := inductionHypothesis world.decrementTotal
        refine ⟨count + 1, ?_, made, ?_, maxSize⟩
        · rw [List.length_cons]
          change _ + (world.queue key).length + count = world.held + rest.length at lengths
          omega
        · rw [total, Function.iterate_succ_apply]
          rfl

theorem cleanupPool_drops (world : World) (queue : Queue) :
    ∃ count, (world.cleanupPool queue).2.length + count = queue.length ∧
      (world.cleanupPool queue).1 = { world with pool := { world.pool with
        totalConnections := Counter.decrement^[count] world.pool.totalConnections } } := by
  induction queue generalizing world with
  | nil => exact ⟨0, rfl, rfl⟩
  | cons conn rest inductionHypothesis =>
      rw [cleanupPool]
      split
      · obtain ⟨count, lengths, same⟩ := inductionHypothesis world
        refine ⟨count, ?_, same⟩
        rw [List.length_cons, List.length_cons]
        omega
      · obtain ⟨count, lengths, same⟩ := inductionHypothesis world.decrementTotal
        refine ⟨count + 1, by rw [List.length_cons]; omega, ?_⟩
        rw [same, Function.iterate_succ_apply]
        rfl

theorem cleanupKey_drops (world : World) (key : Text) :
    ∃ count, Drops count world (world.cleanupKey key) := by
  obtain ⟨count, lengths, same⟩ := world.cleanupPool_drops (world.queue key)
  refine ⟨count, ?_⟩
  simp only [cleanupKey, same]
  split
  · rename_i isEmpty
    rw [List.isEmpty_iff.mp isEmpty, List.length_nil] at lengths
    refine ⟨?_, Nat.le_refl _, rfl, rfl⟩
    have erased := (kerase_perm world.pool.pools.entries key).length_eq
    rw [List.length_append] at erased
    change world.held + world.made = world.made + (((world.pool.pools.entries.kerase key).flatMap
      fun entry => entry.2).length + world.fresh.length + world.handedOut.length) + count
    change _ + (world.queue key).length = world.idle.length at erased
    rw [held]
    omega
  · refine ⟨?_, Nat.le_refl _, rfl, rfl⟩
    have replaced := world.length_idle_setQueue key (world.cleanupPool (world.queue key)).2
    change world.held + world.made = world.made + ((world.setQueue key _).idle.length +
      world.fresh.length + world.handedOut.length) + count
    rw [held]
    omega

theorem cleanupExpired_drops (world : World) : ∃ count, Drops count world world.cleanupExpired := by
  have loop : ∀ (keys : List Text) (world : World),
      ∃ count, Drops count world (keys.foldl cleanupKey world) := by
    intro keys
    induction keys with
    | nil => exact fun world => ⟨0, .none world⟩
    | cons key keys inductionHypothesis =>
        intro world
        obtain ⟨here, drops⟩ := world.cleanupKey_drops key
        obtain ⟨later, rest⟩ := inductionHypothesis (world.cleanupKey key)
        exact ⟨here + later, drops.trans rest⟩
  exact loop _ world

/-- What comes back is held by nobody, until it is kept. -/
theorem held_comesBack (owned : world.Owned opened) {conn : ConnectionId}
    (isHeld : conn ∈ world.fresh ∨ conn ∈ world.handedOut) (key : Text) :
    (world.comesBack conn key).held + 1 = world.held := by
  have once := owned.once conn
  rw [holders] at once
  have idle := (world.idle_comesBack conn key).length_eq
  change (world.comesBack conn key).idle.length + (world.fresh.erase conn).length +
    (world.handedOut.erase conn).length + 1 = _
  rw [idle, held]
  rcases isHeld with fresh | handedOut
  · have inFresh := List.count_pos_iff.mpr fresh
    have notOut : conn ∉ world.handedOut := List.count_eq_zero.mp (by omega)
    have some := List.length_pos_of_mem fresh
    rw [List.length_erase_of_mem fresh, List.erase_of_not_mem notOut]
    omega
  · have inOut := List.count_pos_iff.mpr handedOut
    have notFresh : conn ∉ world.fresh := List.count_eq_zero.mp (by omega)
    have some := List.length_pos_of_mem handedOut
    rw [List.length_erase_of_mem handedOut, List.erase_of_not_mem notFresh]
    omega

theorem release_drops (owned : world.Owned opened) {conn : ConnectionId}
    (isHeld : conn ∈ world.fresh ∨ conn ∈ world.handedOut) (host : Text) (port : Nat) :
    ∃ count, Drops count world (world.release (some conn) host port) := by
  have back := held_comesBack owned isHeld (makeKey host port)
  have made : (world.comesBack conn (makeKey host port)).made = world.made := rfl
  have total : (world.comesBack conn (makeKey host port)).pool.totalConnections =
      world.pool.totalConnections := rfl
  have maxSize : (world.comesBack conn (makeKey host port)).pool.maxSize =
      world.pool.maxSize := rfl
  rw [release_eq]
  generalize world.comesBack conn (makeKey host port) = base at *
  simp only
  split
  · refine ⟨1, ?_, Nat.le_of_eq made.symm, congrArg Counter.decrement total, maxSize⟩
    change world.held + base.made = world.made + base.held + 1
    omega
  · refine ⟨0, ?_, Nat.le_of_eq made.symm, total, maxSize⟩
    have kept := base.length_idle_setQueue (makeKey host port)
      (base.queue (makeKey host port) ++ [conn])
    rw [List.length_append, List.length_singleton] at kept
    change world.held + base.made = world.made + ((base.setQueue _ _).idle.length +
      base.fresh.length + base.handedOut.length) + 0
    rw [held] at back
    omega

theorem apply_drops (owned : world.Owned opened) {operation : Operation}
    (allowed : world.Allows operation) (noClear : operation ≠ .clear) :
    ∃ count, Drops count world (world.apply operation) := by
  cases operation with
  | acquire host port =>
      obtain ⟨count, lengths, made, total, maxSize⟩ :=
        world.acquireFrom_drops (makeKey host port) (world.queue (makeKey host port))
      refine ⟨count, ?_, Nat.le_of_eq made.symm, total, maxSize⟩
      change world.held + (world.acquireFrom _ _).1.made = world.made +
        (world.acquireFrom _ _).1.held + count
      omega
  | release conn host port =>
      cases conn with
      | none => exact ⟨0, .none world⟩
      | some conn => exact release_drops owned allowed host port
  | clear => exact absurd rfl noClear
  | cleanupExpired => exact world.cleanupExpired_drops
  | make =>
      refine ⟨0, ?_, Nat.le_succ _, rfl, rfl⟩
      change world.held + (world.made + 1) = world.made + (world.idle.length +
        (world.made :: world.fresh).length + world.handedOut.length) + 0
      rw [held, List.length_cons]
      omega
  | die conn | tick duration => exact ⟨0, Nat.add_comm _ _, Nat.le_refl _, rfl, rfl⟩

/-! ## Runs of calls -/

/-- What the calls of holders keep. -/
structure Kept (opened : ConnectionId → Text × Nat) (maxSize : Nat) (world : World) : Prop where
  owned : world.Owned opened
  few : world.held ≤ world.made
  maxSize : world.pool.maxSize = maxSize

theorem Kept.apply (kept : Kept opened maxSize world) {operation : Operation}
    (allowed : world.Allows operation)
    (own : ∀ conn host port, operation = .release (some conn) host port →
      opened conn = (host, port)) : Kept opened maxSize (world.apply operation) := by
  have few := kept.few
  by_cases isClear : operation = .clear
  · subst isClear
    refine ⟨kept.owned.apply allowed own, ?_, kept.maxSize⟩
    change 0 + world.fresh.length + world.handedOut.length ≤ world.made
    rw [held] at few
    omega
  · obtain ⟨count, drops⟩ := apply_drops kept.owned allowed isClear
    refine ⟨kept.owned.apply allowed own, ?_, drops.maxSize.trans kept.maxSize⟩
    have := drops.held
    omega

/-- Behind calls of holders which do not clear the pool, some connections are dropped. -/
theorem Kept.calls {operations : List Operation} (kept : Kept opened maxSize world)
    (obeys : world.Obeys opened operations) :
    Kept opened maxSize (world.after operations) ∧
      (.clear ∉ operations → ∃ count, Drops count world (world.after operations)) := by
  induction operations generalizing world with
  | nil => exact ⟨kept, fun _ => ⟨0, .none world⟩⟩
  | cons operation operations inductionHypothesis =>
      obtain ⟨byHolder, underOpened⟩ := obeys
      obtain ⟨allowed, rest⟩ := allowsAll_cons.mp byHolder
      have next : Kept opened maxSize (world.apply operation) := by
        refine kept.apply allowed ?_
        rintro conn host port rfl
        exact underOpened conn host port List.mem_cons_self
      obtain ⟨later, drops⟩ := inductionHypothesis next
        ⟨rest, fun conn host port member =>
          underOpened conn host port (List.mem_cons_of_mem operation member)⟩
      refine ⟨later, fun noClear => ?_⟩
      obtain ⟨notHere, noneLater⟩ := not_or.mp (mt List.mem_cons.mpr noClear)
      obtain ⟨first, here⟩ := apply_drops kept.owned allowed (Ne.symm notHere)
      obtain ⟨count, after⟩ := drops noneLater
      exact ⟨first + count, here.trans after⟩

theorem kept_start (opened : ConnectionId → Text × Nat) (maxSize idleTimeout : Nat) :
    Kept opened maxSize (start maxSize idleTimeout) :=
  ⟨owned_start opened maxSize idleTimeout, Nat.le_refl 0, rfl⟩

/-- What is released is in its queue exactly when it was kept. -/
theorem mem_queue_release (owned : world.Owned opened) {conn : ConnectionId}
    (isHeld : conn ∈ world.fresh ∨ conn ∈ world.handedOut) (host : Text) (port : Nat) :
    conn ∈ (world.release (some conn) host port).queue (makeKey host port) ↔
      (world.connections conn).isAlive = true ∧
        world.pool.totalConnections.value < world.pool.maxSize := by
  have absent : conn ∉ (world.comesBack conn (makeKey host port)).queue (makeKey host port) := by
    rw [queue_comesBack]
    exact fun member => owned.not_idle isHeld (mem_idle_of_queue member)
  rw [release_eq]
  generalize world.comesBack conn (makeKey host port) = base at *
  simp only
  split
  · rename_i discarded
    refine iff_of_false absent ?_
    rintro ⟨alive, below⟩
    simp only [alive, Bool.not_true, Bool.false_or, decide_eq_true_eq] at discarded
    omega
  · rename_i stays
    rw [queue_setQueue, if_pos rfl]
    refine iff_of_true (List.mem_append_right _ (List.mem_singleton_self conn)) ?_
    simpa using stays

/-- **A pool which dropped a connection keeps no other**: from a pool whose size is 0, a
new one or one that was cleared, on, the size is 0 exactly as long as nothing was
dropped, that is as long as what is held is what was held then and what was made since.
Until `clear`, a connection which is released is kept only as long. -/
theorem release_keeps_iff {idleTimeout : Nat} {earlier operations : List Operation}
    (obeyed : (start maxSize idleTimeout).Obeys opened earlier)
    (isBefore : before = (start maxSize idleTimeout).after earlier) (empty : before.size = 0)
    (obeys : before.Obeys opened operations) (noClear : .clear ∉ operations)
    (isWorld : world = before.after operations) (room : world.made + maxSize < 2 ^ 64) :
    (world.size = 0 ↔ world.held + before.made = before.held + world.made) ∧
      ∀ conn host port, conn ∈ world.fresh ∨ conn ∈ world.handedOut →
        (conn ∈ (world.release (some conn) host port).queue (makeKey host port) ↔
          (world.connections conn).isAlive = true ∧ 0 < maxSize ∧
            world.held + before.made = before.held + world.made) := by
  have keptBefore : Kept opened maxSize before :=
    isBefore ▸ ((kept_start opened maxSize idleTimeout).calls obeyed).1
  obtain ⟨kept, drops⟩ := keptBefore.calls obeys
  rw [← isWorld] at kept drops
  obtain ⟨count, dropped⟩ := drops noClear
  have conserved := dropped.held
  have few := keptBefore.few
  have total : world.size = if count = 0 then 0 else 2 ^ 64 - count := by
    rw [World.size, dropped.total]
    exact Counter.value_decrements empty (by omega)
  refine ⟨?_, fun conn host port isHeld => ?_⟩
  · rw [total]
    split <;> omega
  · rw [mem_queue_release kept.owned isHeld, kept.maxSize]
    change _ ∧ world.size < maxSize ↔ _
    rw [total]
    refine and_congr_right fun _ => ?_
    split <;> omega

/-- A connection which is released dead is dropped, and the next one is discarded. -/
theorem release_keeps_iff_dead :
    let world := (start 100 60).after [.make, .make, .die 0, .release (some 0) "a".toList 80]
    world.size = 2 ^ 64 - 1 ∧
      1 ∉ (world.release (some 1) "a".toList 80).queue (makeKey "a".toList 80) := by
  have obeys : (start 100 60).Obeys (fun _ => ("a".toList, 80))
      [.make, .make, .die 0, .release (some 0) "a".toList 80] := by
    refine ⟨?_, fun conn host port member => ?_⟩
    · exact allowsAll_cons.mpr ⟨trivial, allowsAll_cons.mpr ⟨trivial, allowsAll_cons.mpr ⟨trivial,
        allowsAll_cons.mpr ⟨.inl (by decide), allowsAll_nil _⟩⟩⟩⟩
    · simp only [List.mem_cons, List.not_mem_nil, or_false] at member
      rcases member with same | same | same | same <;> cases same
      rfl
  refine ⟨by decide, fun isKept => ?_⟩
  have before : (start 100 60).Obeys (fun _ => ("a".toList, 80)) [] :=
    ⟨allowsAll_nil _, by simp⟩
  have keeps := release_keeps_iff before rfl rfl obeys (by simp) rfl (by decide)
  obtain ⟨-, -, none⟩ := (keeps.2 1 "a".toList 80 (.inl (by decide))).mp isKept
  exact absurd none (by decide)

end World

end Foxhttp.Client
