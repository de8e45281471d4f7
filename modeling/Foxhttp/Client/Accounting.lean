import Mathlib.Data.List.Induction
import Foxhttp.Client.Pool

/-!
# What the counters of the pool say

`total_connections_` is never incremented, and a connection enters the pool by
a release which no acquire came before. So the counters are right exactly as
long as nothing is released, and the capacity holds exactly as long as every
release which `total_connections_` lets through finds room.
-/

namespace Foxhttp.Client.World

open Foxhttp.Library

/-- The counters agree with what is kept and what is handed out, and none was
decremented at zero. -/
structure Exact (world : World) : Prop where
  size : world.size = world.idle.length + world.handedOut.length
  active : world.activeCount = world.handedOut.length
  total_above_zero : world.pool.totalConnections.underflowed = false
  active_above_zero : world.pool.activeConnections.underflowed = false

/-- Nothing ever entered the pool. -/
structure Unused (world : World) : Prop where
  queues : ∀ entry ∈ world.pool.pools.entries, entry.2 = []
  handedOut : world.handedOut = []
  total : world.pool.totalConnections = .zero
  active : world.pool.activeConnections = .zero

namespace Unused

variable {world : World}

theorem queue (unused : world.Unused) (key : Text) : world.queue key = [] := by
  unfold World.queue
  cases found : world.pool.pools.lookup key with
  | none => rfl
  | some queue => exact unused.queues _ (AList.mem_lookup_iff.mp found)

theorem exact (unused : world.Unused) : world.Exact where
  size := by
    have none : world.idle = [] := List.flatMap_eq_nil_iff.mpr unused.queues
    rw [World.size, unused.total, none, unused.handedOut]
    rfl
  active := by
    rw [activeCount, unused.active, unused.handedOut]
    rfl
  total_above_zero := by rw [unused.total]; rfl
  active_above_zero := by rw [unused.active]; rfl

theorem setQueue_nil (unused : world.Unused) (key : Text) : (world.setQueue key []).Unused :=
  { unused with
    queues := by
      intro entry member
      rw [setQueue, AList.entries_insert] at member
      rcases List.mem_cons.mp member with rfl | old
      · rfl
      · exact unused.queues entry (List.mem_of_mem_eraseP old) }

theorem cleanupKey (unused : world.Unused) (key : Text) : (world.cleanupKey key).Unused := by
  rw [World.cleanupKey, unused.queue key]
  exact { unused with
    queues := fun entry member => unused.queues entry (List.mem_of_mem_eraseP member) }

/-- What is no release leaves the pool unused. -/
theorem apply (unused : world.Unused) {operation : Operation}
    (other : ∀ conn host port, operation ≠ .release (some conn) host port) :
    (world.apply operation).Unused := by
  cases operation with
  | acquire host port =>
      simp only [World.apply, acquire, unused.queue, acquireFrom]
      exact unused.setQueue_nil _
  | release conn host port =>
      cases conn with
      | none => exact unused
      | some conn => exact absurd rfl (other conn host port)
  | clear =>
      refine ⟨nofun, unused.handedOut, ?_, ?_⟩
      · simp only [World.apply, clear, unused.total]
        rfl
      · simp only [World.apply, clear, unused.active]
        rfl
  | cleanupExpired =>
      have loop : ∀ (keys : List Text) (world : World), world.Unused →
          (keys.foldl World.cleanupKey world).Unused := by
        intro keys
        induction keys with
        | nil => exact fun _ unused => unused
        | cons key keys inductionHypothesis =>
            exact fun _ unused => inductionHypothesis _ (unused.cleanupKey key)
      exact loop _ world unused
  | make | die conn | tick duration =>
    exact ⟨unused.queues, unused.handedOut, unused.total, unused.active⟩

end Unused

/-- A release of an unused pool's first connection decrements `active_connections_` at zero. -/
theorem release_underflows {world : World} (unused : world.Unused) (conn : ConnectionId)
    (host : Text) (port : Nat) :
    (world.release (some conn) host port).pool.activeConnections.underflowed = true := by
  have decremented : world.pool.activeConnections.decrement.underflowed = true := by
    rw [unused.active]
    rfl
  simp only [release]
  split
  · exact decremented
  · split <;> exact decremented

theorem after_append (world : World) (operations : List Operation) (operation : Operation) :
    world.after (operations ++ [operation]) = (world.after operations).apply operation := by
  simp [after]

theorem allowsAll_cons {world : World} {operation : Operation} {operations : List Operation} :
    world.AllowsAll (operation :: operations) ↔
      world.Allows operation ∧ (world.apply operation).AllowsAll operations := by
  constructor
  · intro allowed
    refine ⟨allowed [] operation operations rfl, fun before next later whole => ?_⟩
    exact allowed (operation :: before) next later (by rw [whole, List.cons_append])
  · rintro ⟨first, rest⟩ before next later whole
    cases before with
    | nil =>
        obtain ⟨rfl, rfl⟩ := List.cons.inj whole
        exact first
    | cons head before =>
        obtain ⟨rfl, tail⟩ := List.cons.inj whole
        exact rest before next later tail

theorem allowsAll_nil (world : World) : world.AllowsAll [] := by
  intro before operation later whole
  simp at whole

/-- **The accounting is exact** after every operation of a sequence exactly when
the sequence releases no connection. -/
theorem accounting_exact_iff (maxSize idleTimeout : Nat) (operations : List Operation) :
    (∀ before later, operations = before ++ later →
        ((start maxSize idleTimeout).after before).Exact) ↔
      ∀ conn host port, .release (some conn) host port ∉ operations := by
  have fresh : (start maxSize idleTimeout).Unused := ⟨nofun, rfl, rfl, rfl⟩
  constructor
  · intro exact
    suffices both : ((start maxSize idleTimeout).after operations).Unused ∧
        ∀ conn host port, .release (some conn) host port ∉ operations from both.2
    induction operations using List.reverseRecOn with
    | nil => exact ⟨fresh, fun _ _ _ => List.not_mem_nil⟩
    | append_singleton operations operation inductionHypothesis =>
        obtain ⟨unused, none⟩ := inductionHypothesis fun before later whole =>
          exact before (later ++ [operation]) (by rw [whole, List.append_assoc])
        have other : ∀ conn host port, operation ≠ .release (some conn) host port := by
          rintro conn host port rfl
          have above := (exact _ [] (List.append_nil _).symm).active_above_zero
          rw [after_append] at above
          rw [apply, release_underflows unused] at above
          cases above
        refine ⟨by rw [after_append]; exact unused.apply other, fun conn host port member => ?_⟩
        rcases List.mem_append.mp member with old | new
        · exact none conn host port old
        · exact other conn host port (List.mem_singleton.mp new).symm
  · rintro none before later rfl
    suffices unused : ((start maxSize idleTimeout).after before).Unused from unused.exact
    clear fresh
    induction before using List.reverseRecOn generalizing later with
    | nil => exact ⟨nofun, rfl, rfl, rfl⟩
    | append_singleton before operation inductionHypothesis =>
        rw [after_append]
        refine Unused.apply (inductionHypothesis (operation :: later) ?_) ?_
        · simpa using none
        · rintro conn host port rfl
          exact none conn host port (by simp)

/-- A caller makes a connection and releases it to the pool. -/
theorem first_release_breaks_accounting :
    ¬ ∀ (maxSize idleTimeout : Nat) (operations : List Operation),
      (start maxSize idleTimeout).AllowsAll operations →
        ((start maxSize idleTimeout).after operations).Exact := by
  intro alwaysExact
  have allowed : (start 100 60).AllowsAll
      [.make, .release (some 0) "example.org".toList 80] :=
    allowsAll_cons.mpr ⟨trivial, allowsAll_cons.mpr ⟨.inl (by decide), allowsAll_nil _⟩⟩
  exact absurd (alwaysExact 100 60 _ allowed).active_above_zero (by decide)

/-! ## Capacity -/

/-- The release of an open connection which `total_connections_` lets through. -/
def Pushes (world : World) : Operation → Prop
  | .release (some conn) _ _ => (world.connections conn).isAlive = true ∧
      world.pool.totalConnections.value < world.pool.maxSize
  | _ => False

theorem idle_setQueue_length (world : World) (key : Text) (queue : Queue) :
    (world.setQueue key queue).idle.length + (world.queue key).length =
      world.idle.length + queue.length := by
  have lengths := (world.idle_setQueue key queue).length_eq
  rw [List.length_append, List.length_append] at lengths
  omega

theorem acquireFrom_idle (world : World) (key : Text) (queue : Queue)
    (isQueue : queue.length ≤ (world.queue key).length) :
    (world.acquireFrom key queue).1.idle.length ≤ world.idle.length := by
  induction queue generalizing world with
  | nil =>
      have emptied := world.idle_setQueue_length key []
      simp only [List.length_nil] at emptied
      simp only [acquireFrom]
      omega
  | cons conn rest inductionHypothesis =>
      rw [acquireFrom]
      split
      · have shorter := world.idle_setQueue_length key rest
        rw [List.length_cons] at isQueue
        change (world.setQueue key rest).idle.length ≤ _
        omega
      · rw [List.length_cons] at isQueue
        exact inductionHypothesis world.decrementTotal (Nat.le_of_lt isQueue)

theorem cleanupPool_keeps (world : World) (queue : Queue) :
    (world.cleanupPool queue).2.length ≤ queue.length ∧
      (world.cleanupPool queue).1.pool.pools = world.pool.pools := by
  induction queue generalizing world with
  | nil => exact ⟨Nat.le_refl _, rfl⟩
  | cons conn rest inductionHypothesis =>
      rw [cleanupPool]
      split
      · obtain ⟨shorter, pools⟩ := inductionHypothesis world
        exact ⟨Nat.succ_le_succ shorter, pools⟩
      · obtain ⟨shorter, pools⟩ := inductionHypothesis world.decrementTotal
        exact ⟨Nat.le_succ_of_le shorter, pools⟩

theorem cleanupKey_idle (world : World) (key : Text) :
    (world.cleanupKey key).idle.length ≤ world.idle.length := by
  obtain ⟨shorter, pools⟩ := world.cleanupPool_keeps (world.queue key)
  generalize cleaned : world.cleanupPool (world.queue key) = result at *
  simp only [cleanupKey, cleaned]
  have sameIdle : result.1.idle = world.idle := by rw [idle, pools, idle]
  have sameQueue : result.1.queue key = world.queue key := by
    rw [World.queue, pools, World.queue]
  split
  · have erased := (kerase_perm result.1.pool.pools.entries key).length_eq
    rw [List.length_append] at erased
    rw [← sameIdle]
    show ((result.1.pool.pools.entries.kerase key).flatMap _).length ≤ _
    rw [idle]
    omega
  · have replaced := result.1.idle_setQueue_length key result.2
    rw [sameIdle, sameQueue] at replaced
    omega

theorem cleanupExpired_idle (world : World) :
    world.cleanupExpired.idle.length ≤ world.idle.length := by
  have loop : ∀ (keys : List Text) (world : World),
      (keys.foldl cleanupKey world).idle.length ≤ world.idle.length := by
    intro keys
    induction keys with
    | nil => exact fun _ => Nat.le_refl _
    | cons key keys inductionHypothesis =>
        intro world
        calc (keys.foldl cleanupKey (world.cleanupKey key)).idle.length
            ≤ (world.cleanupKey key).idle.length := inductionHypothesis _
          _ ≤ world.idle.length := world.cleanupKey_idle key
  exact loop _ world

/-- A release keeps one connection more exactly when it gets past the counter. -/
theorem release_idle (world : World) (conn : ConnectionId) (host : Text) (port : Nat) :
    (world.Pushes (.release (some conn) host port) →
      (world.release (some conn) host port).idle.length = world.idle.length + 1) ∧
    (¬ world.Pushes (.release (some conn) host port) →
      (world.release (some conn) host port).idle.length = world.idle.length) := by
  have pushed := (world.comesBack conn (makeKey host port)).idle_setQueue_length
    (makeKey host port) ((world.comesBack conn (makeKey host port)).queue (makeKey host port) ++
      [conn])
  rw [(world.idle_comesBack conn _).length_eq, List.length_append, List.length_singleton] at pushed
  rw [release_eq]
  simp only [Pushes]
  by_cases isAlive : (world.connections conn).isAlive = true
  · by_cases full : world.pool.maxSize ≤ world.pool.totalConnections.value
    · simp only [isAlive, full, Bool.not_true, decide_true, Bool.or_true, if_true, true_and,
        Nat.not_lt.mpr full, false_implies, not_false_eq_true, true_implies]
      exact (world.idle_comesBack conn _).length_eq
    · simp only [isAlive, full, Bool.not_true, decide_false, Bool.or_false, Bool.false_eq_true,
        if_false, Nat.not_le.mp full, true_implies, not_true_eq_false, false_implies, and_true]
      omega
  · simp only [isAlive, Bool.not_false, Bool.true_or, if_true, Bool.false_eq_true, false_and,
      false_implies, not_false_eq_true, true_implies, true_and]
    exact (world.idle_comesBack conn _).length_eq

/-- What keeps a full pool within its capacity: no release gets past the counter. -/
theorem apply_idle (world : World) (operation : Operation) :
    (world.Pushes operation → (world.apply operation).idle.length = world.idle.length + 1) ∧
      (¬ world.Pushes operation → (world.apply operation).idle.length ≤ world.idle.length) := by
  cases operation with
  | acquire host port =>
      exact ⟨nofun, fun _ => world.acquireFrom_idle _ _ (Nat.le_refl _)⟩
  | release conn host port =>
      cases conn with
      | none => exact ⟨nofun, fun _ => Nat.le_refl _⟩
      | some conn =>
          obtain ⟨pushes, keeps⟩ := world.release_idle conn host port
          exact ⟨pushes, fun held => Nat.le_of_eq (keeps held)⟩
  | clear => exact ⟨nofun, fun _ => Nat.zero_le _⟩
  | cleanupExpired => exact ⟨nofun, fun _ => world.cleanupExpired_idle⟩
  | make | die conn | tick duration => exact ⟨nofun, fun _ => Nat.le_refl _⟩

/-- **The capacity is respected** after every operation of a sequence exactly
when every release of an open connection which `total_connections_` lets
through finds fewer than `max_size` connections kept. -/
theorem capacity_respected_iff (maxSize idleTimeout : Nat) (operations : List Operation) :
    (∀ before later, operations = before ++ later →
        ((start maxSize idleTimeout).after before).idle.length ≤ maxSize) ↔
      ∀ before operation later, operations = before ++ operation :: later →
        ((start maxSize idleTimeout).after before).Pushes operation →
          ((start maxSize idleTimeout).after before).idle.length < maxSize := by
  constructor
  · intro within before operation later whole pushes
    have after := within (before ++ [operation]) later (by rw [whole, List.append_assoc]; rfl)
    rw [after_append, ((World.apply_idle _ operation).1 pushes)] at after
    exact after
  · rintro room before later rfl
    induction before using List.reverseRecOn generalizing later with
    | nil => exact Nat.zero_le _
    | append_singleton before operation inductionHypothesis =>
        have whole : before ++ [operation] ++ later = before ++ operation :: later := by
          rw [List.append_assoc]
          rfl
        rw [whole] at room
        have within := inductionHypothesis (operation :: later) room
        obtain ⟨grows, shrinks⟩ := World.apply_idle _ operation
        rw [after_append]
        by_cases pushes : ((start maxSize idleTimeout).after before).Pushes operation
        · rw [grows pushes]
          exact room before operation later rfl pushes
        · exact Nat.le_trans (shrinks pushes) within

/-- Two connections released to a pool for one. -/
theorem capacity_exceeded :
    ¬ ∀ (maxSize idleTimeout : Nat) (operations : List Operation),
      ((start maxSize idleTimeout).after operations).idle.length ≤ maxSize := by
  intro withinCapacity
  have kept := withinCapacity 1 60
    [.make, .make, .release (some 0) "a".toList 80, .release (some 1) "b".toList 80]
  exact absurd kept (by decide)

end Foxhttp.Client.World
