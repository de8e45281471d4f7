import Foxhttp.Client.Accounting

/-!
# One owner, one destination

Callers share their connections with the pool by the rules of `Obeys`. Then a
connection is in one queue or in one caller's hands, never twice, and it waits
under the key of the host and port it was opened for. The key determines both:
no decimal digit is a colon, so the last colon of a key ends its host.
-/

namespace Foxhttp.Client

open Foxhttp.Library

theorem colon_not_in_port (port : Nat) : ':' ∉ Nat.toDigits 10 port := by
  intro member
  have digit := Nat.isDigit_of_mem_toDigits (by decide) (by decide) member
  exact absurd digit (by decide)

/-- A key belongs to one host and one port, whatever the host contains. -/
theorem makeKey_injective {host other : Text} {port otherPort : Nat}
    (same : makeKey host port = makeKey other otherPort) : (host, port) = (other, otherPort) := by
  have digits : host = other ∧ Nat.toDigits 10 port = Nat.toDigits 10 otherPort := by
    rcases List.append_eq_append_iff.mp same with ⟨between, rest, whole⟩ | ⟨between, rest, whole⟩
    · cases between with
      | nil => exact ⟨by simpa using rest.symm, (List.cons.inj whole).2⟩
      | cons first between =>
          have inside : ':' ∈ Nat.toDigits 10 port := by
            rw [(List.cons.inj whole).2]
            exact List.mem_append_right _ List.mem_cons_self
          exact absurd inside (colon_not_in_port port)
    · cases between with
      | nil => exact ⟨by simpa using rest, (List.cons.inj whole).2.symm⟩
      | cons first between =>
          have inside : ':' ∈ Nat.toDigits 10 otherPort := by
            rw [(List.cons.inj whole).2]
            exact List.mem_append_right _ List.mem_cons_self
          exact absurd inside (colon_not_in_port otherPort)
  have ports := congrArg (fun chars => Nat.ofDigitChars 10 chars 0) digits.2
  simp only [Nat.ofDigitChars_ten_toDigits] at ports
  rw [digits.1, ports]

namespace World

/-- Connections are released by their holders, each under the host and port it
was opened for. -/
structure Obeys (opened : ConnectionId → Text × Nat) (world : World)
    (operations : List Operation) : Prop where
  byHolder : world.AllowsAll operations
  underOpened : ∀ conn host port, .release (some conn) host port ∈ operations →
    opened conn = (host, port)

/-- How often a connection is kept in a queue or held by a caller. -/
def holders (world : World) (conn : ConnectionId) : Nat :=
  world.idle.count conn + world.fresh.count conn + world.handedOut.count conn

/-- Every connection has one holder at most, and waits under its own key. -/
structure Owned (opened : ConnectionId → Text × Nat) (world : World) : Prop where
  once : ∀ conn, world.holders conn ≤ 1
  unmade : ∀ conn, world.made ≤ conn → world.holders conn = 0
  keyed : ∀ key, ∀ conn ∈ world.queue key, makeKey (opened conn).1 (opened conn).2 = key

theorem holders_setQueue (world : World) (key : Text) (queue : Queue) (conn : ConnectionId) :
    (world.setQueue key queue).holders conn + (world.queue key).count conn =
      world.holders conn + queue.count conn := by
  have counts := (world.idle_setQueue key queue).count_eq conn
  simp only [List.count_append] at counts
  change _ + world.fresh.count conn + world.handedOut.count conn + _ = _
  rw [holders]
  omega

theorem holders_enqueue (world : World) (key : Text) (conn other : ConnectionId) :
    (world.setQueue key (world.queue key ++ [conn])).holders other =
      world.holders other + if conn = other then 1 else 0 := by
  have counts := world.holders_setQueue key (world.queue key ++ [conn]) other
  simp only [List.count_append, List.count_singleton, beq_iff_eq] at counts
  omega

/-! ## What takes connections out of the queues -/

/-- Connections leave their queues; no holder is added. -/
structure Loses (before after : World) : Prop where
  queue : ∀ key, ∀ conn ∈ after.queue key, conn ∈ before.queue key
  holders : ∀ conn, after.holders conn ≤ before.holders conn
  made : after.made = before.made

namespace Loses

variable {first second third : World}

theorem refl (world : World) : Loses world world :=
  ⟨fun _ _ member => member, fun _ => Nat.le_refl _, rfl⟩

theorem trans (earlier : Loses first second) (later : Loses second third) :
    Loses first third where
  queue key conn member := earlier.queue key conn (later.queue key conn member)
  holders conn := Nat.le_trans (later.holders conn) (earlier.holders conn)
  made := later.made.trans earlier.made

theorem setQueue {world : World} {key : Text} {queue : Queue}
    (shorter : queue.Sublist (world.queue key)) : Loses world (world.setQueue key queue) where
  queue other conn member := by
    rw [queue_setQueue] at member
    split at member
    · rename_i same
      rw [same]
      exact shorter.subset member
    · exact member
  holders conn := by
    have counts := world.holders_setQueue key queue conn
    have fewer := shorter.count_le conn
    omega
  made := rfl

theorem owned {opened : ConnectionId → Text × Nat} (loses : Loses first second)
    (owned : first.Owned opened) : second.Owned opened where
  once conn := Nat.le_trans (loses.holders conn) (owned.once conn)
  unmade conn unmade := by
    have none := owned.unmade conn (loses.made ▸ unmade)
    have fewer := loses.holders conn
    omega
  keyed key conn member := owned.keyed key conn (loses.queue key conn member)

end Loses

theorem acquireFrom_loses (world : World) (key : Text) (queue : Queue)
    (shorter : queue.Sublist (world.queue key)) :
    Loses world (world.acquireFrom key queue).1 := by
  induction queue generalizing world with
  | nil => exact .setQueue shorter
  | cons conn rest inductionHypothesis =>
      rw [acquireFrom]
      split
      · have loses : Loses world (world.setQueue key rest) :=
          .setQueue ((List.sublist_cons_self conn rest).trans shorter)
        refine ⟨loses.queue, fun other => ?_, rfl⟩
        have counts := world.holders_setQueue key rest other
        have fewer := shorter.count_le other
        rw [List.count_cons] at fewer
        change (world.setQueue key rest).idle.count other + world.fresh.count other +
          (conn :: world.handedOut).count other ≤ _
        rw [List.count_cons]
        change (world.setQueue key rest).idle.count other + world.fresh.count other +
          world.handedOut.count other + _ = _ at counts
        omega
      · have loses := inductionHypothesis world.decrementTotal
          ((List.sublist_cons_self conn rest).trans shorter)
        exact ⟨loses.queue, loses.holders, loses.made⟩

/-- What `acquire` returns waited in the queue, and is alive. -/
theorem acquireFrom_some {world : World} {key : Text} {queue : Queue} {conn : ConnectionId}
    (acquired : (world.acquireFrom key queue).2 = some conn) :
    conn ∈ queue ∧ (world.connections conn).isAlive = true := by
  induction queue generalizing world with
  | nil => cases acquired
  | cons head rest inductionHypothesis =>
      rw [acquireFrom] at acquired
      split at acquired
      · rename_i alive
        cases acquired
        exact ⟨List.mem_cons_self, alive⟩
      · obtain ⟨member, alive⟩ := inductionHypothesis acquired
        exact ⟨List.mem_cons_of_mem head member, alive⟩

theorem cleanupPool_sublist (world : World) (queue : Queue) :
    (world.cleanupPool queue).2.Sublist queue ∧
      ∃ total, (world.cleanupPool queue).1 =
        { world with pool := { world.pool with totalConnections := total } } := by
  induction queue generalizing world with
  | nil => exact ⟨.slnil, _, rfl⟩
  | cons conn rest inductionHypothesis =>
      rw [cleanupPool]
      split
      · obtain ⟨kept, total⟩ := inductionHypothesis world
        exact ⟨kept.cons_cons conn, total⟩
      · obtain ⟨kept, total, same⟩ := inductionHypothesis world.decrementTotal
        exact ⟨kept.cons conn, total, same⟩

theorem cleanupKey_loses (world : World) (key : Text) : Loses world (world.cleanupKey key) := by
  obtain ⟨kept, total, same⟩ := world.cleanupPool_sublist (world.queue key)
  simp only [cleanupKey, same]
  split
  · refine ⟨fun other conn member => ?_, fun conn => ?_, rfl⟩
    · by_cases here : other = key
      · subst here
        simp [World.queue] at member
      · simpa [World.queue, AList.lookup_erase_ne here] using member
    · have erased := (kerase_perm world.pool.pools.entries key).count_eq conn
      rw [List.count_append] at erased
      change ((world.pool.pools.entries.kerase key).flatMap _).count conn +
        world.fresh.count conn + world.handedOut.count conn ≤ _
      rw [holders, idle]
      omega
  · have loses : Loses world (world.setQueue key (world.cleanupPool (world.queue key)).2) :=
      .setQueue kept
    exact ⟨loses.queue, loses.holders, loses.made⟩

theorem cleanupExpired_loses (world : World) : Loses world world.cleanupExpired := by
  have loop : ∀ (keys : List Text) (world : World), Loses world (keys.foldl cleanupKey world) := by
    intro keys
    induction keys with
    | nil => exact .refl
    | cons key keys inductionHypothesis =>
        exact fun world => (world.cleanupKey_loses key).trans (inductionHypothesis _)
  exact loop _ world

theorem clear_loses (world : World) : Loses world world.clear where
  queue _ _ member := by cases member
  holders conn := by
    change 0 + world.fresh.count conn + world.handedOut.count conn ≤ _
    rw [holders]
    omega
  made := rfl

/-! ## Release and creation -/

theorem holders_comesBack (world : World) (conn : ConnectionId) (key : Text)
    (other : ConnectionId) :
    (world.comesBack conn key).holders other = world.idle.count other +
      (world.fresh.erase conn).count other + (world.handedOut.erase conn).count other := by
  rw [holders, (world.idle_comesBack conn key).count_eq]
  rfl

theorem Owned.release {opened : ConnectionId → Text × Nat} {world : World}
    (owned : world.Owned opened) {conn : ConnectionId} {host : Text} {port : Nat}
    (held : conn ∈ world.fresh ∨ conn ∈ world.handedOut) (own : opened conn = (host, port)) :
    (world.release (some conn) host port).Owned opened := by
  have made : (world.comesBack conn (makeKey host port)).made = world.made := rfl
  have queues := world.queue_comesBack conn (makeKey host port)
  have holds := world.holders_comesBack conn (makeKey host port)
  rw [release_eq]
  generalize world.comesBack conn (makeKey host port) = base at made queues holds
  have fewer (other : ConnectionId) : base.holders other ≤ world.holders other := by
    have fresh : (world.fresh.erase conn).count other ≤ world.fresh.count other :=
      List.erase_sublist.count_le other
    have handedOut : (world.handedOut.erase conn).count other ≤ world.handedOut.count other :=
      List.erase_sublist.count_le other
    rw [holds, holders]
    omega
  have ended : base.holders conn < world.holders conn := by
    rw [holds, holders, List.count_erase_self, List.count_erase_self]
    rcases held with fresh | handedOut
    · have := List.count_pos_iff.mpr fresh
      omega
    · have := List.count_pos_iff.mpr handedOut
      omega
  have atBase : base.Owned opened :=
    Loses.owned ⟨fun key other member => queues key ▸ member, fewer, made⟩ owned
  simp only
  split
  · exact ⟨atBase.once, atBase.unmade, atBase.keyed⟩
  · have counts := base.holders_enqueue (makeKey host port) conn
    have still (other : ConnectionId) :
        base.holders other + (if conn = other then 1 else 0) ≤ world.holders other := by
      split
      · rename_i here
        exact here ▸ ended
      · exact fewer other
    refine ⟨fun other => ?_, fun other unmade => ?_, fun key other member => ?_⟩
    · rw [counts other]
      exact Nat.le_trans (still other) (owned.once other)
    · rw [counts other]
      exact Nat.le_zero.mp (owned.unmade other (made ▸ unmade) ▸ still other)
    · rw [queue_setQueue] at member
      split at member
      · rename_i here
        rcases List.mem_append.mp member with old | new
        · exact here ▸ atBase.keyed _ other old
        · rw [List.mem_singleton.mp new, own, here]
      · exact atBase.keyed key other member

theorem Owned.make {opened : ConnectionId → Text × Nat} {world : World}
    (owned : world.Owned opened) : (world.apply .make).Owned opened := by
  have counts (conn : ConnectionId) : (world.apply .make).holders conn =
      world.holders conn + if world.made = conn then 1 else 0 := by
    change world.idle.count conn + (world.made :: world.fresh).count conn +
      world.handedOut.count conn = _
    rw [List.count_cons, holders]
    simp only [beq_iff_eq]
    omega
  refine ⟨fun conn => ?_, fun conn unmade => ?_, owned.keyed⟩
  · rw [counts]
    split
    · rename_i same
      rw [owned.unmade conn (Nat.le_of_eq same)]
    · exact owned.once conn
  · have later : world.made < conn := unmade
    rw [counts, owned.unmade conn (Nat.le_of_lt later), if_neg (Nat.ne_of_lt later)]

theorem Owned.apply {opened : ConnectionId → Text × Nat} {world : World}
    (owned : world.Owned opened) {operation : Operation} (allowed : world.Allows operation)
    (own : ∀ conn host port, operation = .release (some conn) host port →
      opened conn = (host, port)) : (world.apply operation).Owned opened := by
  cases operation with
  | acquire host port => exact (world.acquireFrom_loses _ _ (.refl _)).owned owned
  | release conn host port =>
      cases conn with
      | none => exact owned
      | some conn => exact owned.release allowed (own conn host port rfl)
  | clear => exact world.clear_loses.owned owned
  | cleanupExpired => exact world.cleanupExpired_loses.owned owned
  | make => exact owned.make
  | die conn | tick duration => exact ⟨owned.once, owned.unmade, owned.keyed⟩

theorem Owned.after {opened : ConnectionId → Text × Nat} {world : World}
    (owned : world.Owned opened) {operations : List Operation}
    (obeys : world.Obeys opened operations) : (world.after operations).Owned opened := by
  induction operations generalizing world with
  | nil => exact owned
  | cons operation operations inductionHypothesis =>
      obtain ⟨byHolder, underOpened⟩ := obeys
      obtain ⟨allowed, rest⟩ := allowsAll_cons.mp byHolder
      have next : (world.apply operation).Owned opened := by
        refine owned.apply allowed ?_
        rintro conn host port rfl
        exact underOpened conn host port List.mem_cons_self
      refine inductionHypothesis next ⟨rest, fun conn host port member => ?_⟩
      exact underOpened conn host port (List.mem_cons_of_mem operation member)

theorem owned_start (opened : ConnectionId → Text × Nat) (maxSize idleTimeout : Nat) :
    (start maxSize idleTimeout).Owned opened :=
  ⟨fun _ => Nat.zero_le _, fun _ _ => rfl, fun _ _ member => by cases member⟩

theorem mem_idle_of_queue {world : World} {key : Text} {conn : ConnectionId}
    (member : conn ∈ world.queue key) : conn ∈ world.idle := by
  have erased := (kerase_perm world.pool.pools.entries key).mem_iff (a := conn)
  exact erased.mp (List.mem_append_right _ member)

/-- What a caller holds is in no queue. -/
theorem Owned.not_idle {opened : ConnectionId → Text × Nat} {world : World}
    (owned : world.Owned opened) {conn : ConnectionId}
    (held : conn ∈ world.fresh ∨ conn ∈ world.handedOut) :
    conn ∉ world.idle := by
  intro idle
  have once := owned.once conn
  have inQueue := List.count_pos_iff.mpr idle
  rw [holders] at once
  rcases held with fresh | handedOut
  · have := List.count_pos_iff.mpr fresh
    omega
  · have := List.count_pos_iff.mpr handedOut
    omega

/-- **A pooled connection has one owner and one destination**: what `acquire`
returns is held by no caller, is alive, and was never released under another
host or port. -/
theorem acquire_exclusive {opened : ConnectionId → Text × Nat} {maxSize idleTimeout : Nat}
    {operations : List Operation}
    (obeys : (start maxSize idleTimeout).Obeys opened operations)
    {host : Text} {port : Nat} {conn : ConnectionId}
    (acquired : (((start maxSize idleTimeout).after operations).acquire host port).2 = some conn) :
    conn ∉ ((start maxSize idleTimeout).after operations).handedOut ∧
      conn ∉ ((start maxSize idleTimeout).after operations).fresh ∧
      (((start maxSize idleTimeout).after operations).connections conn).isAlive = true ∧
      opened conn = (host, port) ∧
      ∀ other otherPort, .release (some conn) other otherPort ∈ operations →
        (other, otherPort) = (host, port) := by
  have owned := (owned_start opened maxSize idleTimeout).after obeys
  generalize (start maxSize idleTimeout).after operations = world at *
  obtain ⟨member, alive⟩ := acquireFrom_some acquired
  have one := owned.once conn
  have idle := List.count_pos_iff.mpr (mem_idle_of_queue member)
  rw [holders] at one
  have destination : opened conn = (host, port) := makeKey_injective (owned.keyed _ conn member)
  refine ⟨?_, ?_, alive, destination, fun other otherPort released => ?_⟩
  · exact List.count_eq_zero.mp (by omega)
  · exact List.count_eq_zero.mp (by omega)
  · rw [← obeys.underOpened conn other otherPort released, destination]

/-- A connection to a host with colons is taken again. -/
theorem acquire_exclusive_colons :
    0 ∉ ((start 100 60).after [.make, .release (some 0) "::1".toList 80]).handedOut ∧
      0 ∉ ((start 100 60).after [.make, .release (some 0) "::1".toList 80]).fresh := by
  have obeys : (start 100 60).Obeys (fun _ => ("::1".toList, 80))
      [.make, .release (some 0) "::1".toList 80] := by
    refine ⟨?_, fun conn host port member => ?_⟩
    · exact allowsAll_cons.mpr ⟨trivial, allowsAll_cons.mpr ⟨.inl (by decide), allowsAll_nil _⟩⟩
    · simp only [List.mem_cons, List.not_mem_nil, or_false] at member
      rcases member with made | released
      · cases made
      · cases released
        rfl
  have taken := acquire_exclusive obeys
    (show (((start 100 60).after [.make, .release (some 0) "::1".toList 80]).acquire
      "::1".toList 80).2 = some 0 by decide)
  exact ⟨taken.1, taken.2.1⟩

end World

end Foxhttp.Client
