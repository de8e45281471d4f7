import Foxhttp.Client.Ownership
import Foxhttp.Library.Transition

/-!
# How long a connection is idle

Only the handler of `cleanup_timer_` drops a connection for its age; `acquire` tests
none. The queues are in the order of their releases, so what `acquire` takes is the
connection which has been idle longest.
-/

namespace Foxhttp.Client

open Foxhttp.Library

/-- A pool with its cleanup timer. -/
structure TimedPool where
  world : World
  cleanupInterval : Nat
  /-- When the wait of `cleanup_timer_` is over. -/
  wait : Option Nat
  /-- When the waits were over whose handlers are still to run. -/
  due : List Nat

/-- What happens to a pool. -/
inductive PoolChoice where
  | call (operation : Operation)
  | startCleanupTimer
  /-- The wait is over, and the handler is queued. -/
  | expire
  /-- The handler runs. -/
  | handle

/-- What is seen of a pool. -/
inductive PoolEvent where
  | called (operation : Operation)
  | started
  | cleaned (now : Nat)

/-- Whether it is not private to the pool. -/
def Operation.isPublic : Operation → Bool
  | .cleanupExpired => false
  | _ => true

namespace World

variable {world before after : World}

/-- `Connection::last_activity`. -/
def lastActivity (world : World) (conn : ConnectionId) : Nat :=
  (world.connections conn).lastActivity

/-! ## What a cleanup leaves -/

theorem cleanupPool_eq (world : World) (queue : Queue) :
    (world.cleanupPool queue).2 = queue.filter world.keeps ∧
      ∃ total, (world.cleanupPool queue).1 =
        { world with pool := { world.pool with totalConnections := total } } := by
  refine ⟨?_, (world.cleanupPool_sublist queue).2⟩
  induction queue generalizing world with
  | nil => rfl
  | cons conn rest inductionHypothesis =>
      rw [cleanupPool, List.filter_cons]
      split
      · exact congrArg (conn :: ·) (inductionHypothesis world)
      · exact inductionHypothesis world.decrementTotal

/-- What a pass may change besides the queues are the totals. -/
structure SameAges (before after : World) : Prop where
  connections : after.connections = before.connections
  now : after.now = before.now
  idleTimeout : after.pool.idleTimeout = before.pool.idleTimeout

theorem SameAges.keeps (same : SameAges before after) : after.keeps = before.keeps := by
  funext conn
  rw [World.keeps, World.keeps, same.connections, same.now, same.idleTimeout]

theorem queue_cleanupKey (world : World) (key other : Text) :
    (world.cleanupKey key).queue other =
      if other = key then (world.queue key).filter world.keeps else world.queue other := by
  obtain ⟨kept, total, rest⟩ := world.cleanupPool_eq (world.queue key)
  simp only [cleanupKey, rest, kept]
  split
  · rename_i isEmpty
    split
    · rename_i here
      rw [List.isEmpty_iff.mp isEmpty, here]
      simp [World.queue]
    · rename_i elsewhere
      simp [World.queue, AList.lookup_erase_ne elsewhere]
  · exact queue_setQueue _ key other _

theorem cleanupKey_sameAges (world : World) (key : Text) :
    SameAges world (world.cleanupKey key) := by
  obtain ⟨-, total, rest⟩ := world.cleanupPool_eq (world.queue key)
  simp only [cleanupKey, rest]
  split <;> exact ⟨rfl, rfl, rfl⟩

/-- **A cleanup is exact**: every queue keeps the connections which are alive and not
idle for too long, in their order, and no other. -/
theorem cleanupExpired_eq (world : World) :
    SameAges world world.cleanupExpired ∧
      ∀ key, world.cleanupExpired.queue key = (world.queue key).filter world.keeps := by
  have loop : ∀ (keys : List Text) (world : World),
      SameAges world (keys.foldl cleanupKey world) ∧
        ∀ key, (keys.foldl cleanupKey world).queue key =
          if key ∈ keys then (world.queue key).filter world.keeps else world.queue key := by
    intro keys
    induction keys with
    | nil => exact fun world => ⟨⟨rfl, rfl, rfl⟩, fun key => (if_neg List.not_mem_nil).symm⟩
    | cons first keys inductionHypothesis =>
        intro world
        have here := world.cleanupKey_sameAges first
        obtain ⟨same, queues⟩ := inductionHypothesis (world.cleanupKey first)
        refine ⟨⟨same.connections.trans here.connections, same.now.trans here.now,
          same.idleTimeout.trans here.idleTimeout⟩, fun key => ?_⟩
        rw [List.foldl_cons, queues, here.keeps, queue_cleanupKey]
        by_cases isFirst : key = first
        · subst isFirst
          simp
        · simp [isFirst]
  obtain ⟨same, queues⟩ := loop world.pool.pools.keys world
  refine ⟨same, fun key => (queues key).trans ?_⟩
  split
  · rfl
  · rename_i absent
    have nothing : world.queue key = [] := by
      rw [World.queue, AList.lookup_eq_none.mpr absent]
      rfl
    rw [nothing]
    rfl

/-! ## What a call does to the ages -/

/-- What a call does to the ages of idle connections: a queue loses some and may get one
at its end, which was active just now, and the others are as they were. -/
structure Ages (before after : World) : Prop where
  now : before.now ≤ after.now
  idleTimeout : after.pool.idleTimeout = before.pool.idleTimeout
  lastActivity : ∀ conn, after.lastActivity conn = before.lastActivity conn ∨
    after.lastActivity conn = after.now
  queue : ∀ key, ∃ kept : Queue, kept.Sublist (before.queue key) ∧
    (∀ conn ∈ kept, after.lastActivity conn = before.lastActivity conn) ∧
    (after.queue key = kept ∨
      ∃ conn, after.queue key = kept ++ [conn] ∧ after.lastActivity conn = after.now)

/-- A call which only takes connections out of the queues. -/
theorem Ages.of_sublist (now : before.now ≤ after.now)
    (idleTimeout : after.pool.idleTimeout = before.pool.idleTimeout)
    (lastActivity : ∀ conn, after.lastActivity conn = before.lastActivity conn ∨
      after.lastActivity conn = after.now ∧ conn ∉ after.idle)
    (queue : ∀ key, (after.queue key).Sublist (before.queue key)) : Ages before after where
  now := now
  idleTimeout := idleTimeout
  lastActivity conn := (lastActivity conn).imp_right And.left
  queue key := by
    refine ⟨after.queue key, queue key, fun conn member => ?_, .inl rfl⟩
    rcases lastActivity conn with same | ⟨-, absent⟩
    · exact same
    · exact absurd (mem_idle_of_queue member) absent

theorem acquireFrom_touches (world : World) (key : Text) (queue : Queue)
    (shorter : queue.Sublist (world.queue key)) :
    (∀ other, ((world.acquireFrom key queue).1.queue other).Sublist (world.queue other)) ∧
      (world.acquireFrom key queue).1.now = world.now ∧
      (world.acquireFrom key queue).1.pool.idleTimeout = world.pool.idleTimeout ∧
      ∀ conn, (world.acquireFrom key queue).1.lastActivity conn = world.lastActivity conn ∨
        (world.acquireFrom key queue).1.lastActivity conn = world.now ∧
          conn ∈ (world.acquireFrom key queue).1.handedOut := by
  have replaced {world : World} {queue : Queue} (shorter : queue.Sublist (world.queue key))
      (other : Text) : ((world.setQueue key queue).queue other).Sublist (world.queue other) := by
    rw [queue_setQueue]
    split
    · rename_i here
      exact here ▸ shorter
    · exact .refl _
  induction queue generalizing world with
  | nil => exact ⟨replaced shorter, rfl, rfl, fun _ => .inl rfl⟩
  | cons conn rest inductionHypothesis =>
      have lessHere := (List.sublist_cons_self conn rest).trans shorter
      rw [acquireFrom]
      split
      · refine ⟨replaced lessHere, rfl, rfl, fun other => ?_⟩
        by_cases isConn : other = conn
        · refine .inr ⟨?_, isConn ▸ List.mem_cons_self⟩
          simp [World.lastActivity, modifyConnection, Connection.markInUse, isConn, setQueue]
        · refine .inl ?_
          simp [World.lastActivity, modifyConnection, isConn, setQueue]
      · exact inductionHypothesis world.decrementTotal lessHere

theorem release_ages {opened : ConnectionId → Text × Nat} (owned : world.Owned opened)
    {conn : ConnectionId} (held : conn ∈ world.fresh ∨ conn ∈ world.handedOut) (host : Text)
    (port : Nat) : Ages world (world.release (some conn) host port) := by
  have absent := owned.not_idle held
  have marked (other : ConnectionId) :
      (world.comesBack conn (makeKey host port)).lastActivity other =
        if other = conn then world.now else world.lastActivity other := by
    simp only [World.lastActivity, comesBack, modifyConnection, setQueue]
    split <;> rfl
  have queues := world.queue_comesBack conn (makeKey host port)
  have now : (world.comesBack conn (makeKey host port)).now = world.now := rfl
  have idleTimeout : (world.comesBack conn (makeKey host port)).pool.idleTimeout =
      world.pool.idleTimeout := rfl
  rw [release_eq]
  generalize world.comesBack conn (makeKey host port) = base at *
  have changed (other : ConnectionId) : base.lastActivity other = world.lastActivity other ∨
      base.lastActivity other = base.now := by
    rw [marked, now]
    split
    · exact .inr rfl
    · exact .inl rfl
  have still (key : Text) : ∀ other ∈ world.queue key,
      base.lastActivity other = world.lastActivity other := by
    intro other member
    rw [marked, if_neg]
    rintro rfl
    exact absent (mem_idle_of_queue member)
  simp only
  split
  · exact ⟨Nat.le_of_eq now.symm, idleTimeout, changed, fun key =>
      ⟨world.queue key, .refl _, still key, .inl (queues key)⟩⟩
  · refine ⟨Nat.le_of_eq now.symm, idleTimeout, changed, fun key => ?_⟩
    refine ⟨world.queue key, .refl _, still key, ?_⟩
    rw [queue_setQueue]
    split
    · rename_i here
      subst here
      refine .inr ⟨conn, by rw [queues], ?_⟩
      exact (marked conn).trans ((if_pos rfl).trans now.symm)
    · exact .inl (queues key)

/-- Every call of a holder is one of that kind. -/
theorem apply_ages {opened : ConnectionId → Text × Nat} (owned : world.Owned opened)
    {operation : Operation} (isPublic : operation.isPublic = true)
    (allowed : world.Allows operation) (kept : (world.apply operation).Owned opened) :
    Ages world (world.apply operation) := by
  cases operation with
  | acquire host port =>
      obtain ⟨queues, now, idleTimeout, changed⟩ :=
        world.acquireFrom_touches (makeKey host port) _ (.refl _)
      refine .of_sublist (Nat.le_of_eq now.symm) idleTimeout (fun conn => ?_) queues
      rcases changed conn with same | ⟨isNow, handedOut⟩
      · exact .inl same
      · exact .inr ⟨isNow.trans now.symm, kept.not_idle (.inr handedOut)⟩
  | release conn host port =>
      cases conn with
      | none => exact .of_sublist (Nat.le_refl _) rfl (fun _ => .inl rfl) fun _ => .refl _
      | some conn => exact release_ages owned allowed host port
  | clear =>
      exact .of_sublist (Nat.le_refl _) rfl (fun _ => .inl rfl) fun key => List.nil_sublist _
  | cleanupExpired => cases isPublic
  | make =>
      refine .of_sublist (Nat.le_refl _) rfl (fun conn => ?_) fun _ => .refl _
      by_cases isMade : conn = world.made
      · refine .inr ⟨by simp [World.lastActivity, apply, modifyConnection, isMade], ?_⟩
        exact kept.not_idle (.inl (isMade ▸ List.mem_cons_self))
      · exact .inl (by simp [World.lastActivity, apply, modifyConnection, isMade])
  | die conn =>
      refine .of_sublist (Nat.le_refl _) rfl (fun other => .inl ?_) fun _ => .refl _
      simp only [World.lastActivity, apply, modifyConnection]
      split
      · rename_i here
        rw [here]
      · rfl
  | tick duration =>
      exact .of_sublist (Nat.le_add_right _ _) rfl (fun _ => .inl rfl) fun _ => .refl _

/-! ## The order of the queues -/

/-- Every queue is in the order of its releases. -/
structure Ordered (world : World) : Prop where
  past : ∀ conn, world.lastActivity conn ≤ world.now
  inOrder : ∀ key, (world.queue key).Pairwise fun conn other =>
    world.lastActivity conn ≤ world.lastActivity other

theorem Ordered.ages (ordered : Ordered before) (ages : Ages before after) : Ordered after := by
  have past (conn : ConnectionId) : after.lastActivity conn ≤ after.now := by
    rcases ages.lastActivity conn with same | isNow
    · exact same ▸ Nat.le_trans (ordered.past conn) ages.now
    · exact Nat.le_of_eq isNow
  refine ⟨past, fun key => ?_⟩
  obtain ⟨kept, fewer, same, shape⟩ := ages.queue key
  have keptInOrder : kept.Pairwise fun conn other =>
      after.lastActivity conn ≤ after.lastActivity other := by
    refine ((ordered.inOrder key).sublist fewer).imp_of_mem fun isConn isOther le => ?_
    rw [same _ isConn, same _ isOther]
    exact le
  rcases shape with isKept | ⟨conn, one, isNow⟩
  · exact isKept ▸ keptInOrder
  · rw [one, List.pairwise_append]
    refine ⟨keptInOrder, List.pairwise_singleton _ _, fun other _ last isLast => ?_⟩
    rw [List.mem_singleton.mp isLast, isNow]
    exact past other

/-- In a queue in order, `acquire` takes the connection which is idle longest. -/
theorem acquireFrom_oldest {key : Text} {queue : Queue} {conn : ConnectionId}
    (inOrder : queue.Pairwise fun conn other => world.lastActivity conn ≤ world.lastActivity other)
    (acquired : (world.acquireFrom key queue).2 = some conn) :
    ∀ other ∈ queue, (world.connections other).isAlive = true →
      world.lastActivity conn ≤ world.lastActivity other := by
  induction queue generalizing world with
  | nil => exact fun _ member => by cases member
  | cons head rest inductionHypothesis =>
      rw [acquireFrom] at acquired
      obtain ⟨before, inOrder⟩ := List.pairwise_cons.mp inOrder
      split at acquired
      · cases acquired
        intro other member _
        rcases List.mem_cons.mp member with rfl | later
        · exact Nat.le_refl _
        · exact before other later
      · rename_i dead
        intro other member alive
        rcases List.mem_cons.mp member with rfl | later
        · exact absurd alive dead
        · exact @inductionHypothesis world.decrementTotal inOrder acquired other later alive

/-! ## Ages behind a cleanup -/

/-- At a time, no idle connection was over its age. -/
structure CleanAt (time : Nat) (world : World) : Prop where
  past : time ≤ world.now
  young : ∀ key, ∀ conn ∈ world.queue key,
    time ≤ world.lastActivity conn + world.pool.idleTimeout

/-- What a call of anyone does to the ages in the queues: a connection was in its queue
with the age which it has, or was active just now. -/
structure Aging (before after : World) : Prop where
  now : before.now ≤ after.now
  idleTimeout : after.pool.idleTimeout = before.pool.idleTimeout
  queue : ∀ key, ∀ conn ∈ after.queue key,
    (conn ∈ before.queue key ∧ after.lastActivity conn = before.lastActivity conn) ∨
      after.lastActivity conn = after.now

/-- A call which only takes connections out of the queues. -/
theorem Aging.of_subset (now : before.now ≤ after.now)
    (idleTimeout : after.pool.idleTimeout = before.pool.idleTimeout)
    (lastActivity : ∀ conn, after.lastActivity conn = before.lastActivity conn ∨
      after.lastActivity conn = after.now)
    (queue : ∀ key, after.queue key ⊆ before.queue key) : Aging before after where
  now := now
  idleTimeout := idleTimeout
  queue key conn member := (lastActivity conn).imp_left fun same => ⟨queue key member, same⟩

theorem release_aging (world : World) (conn : ConnectionId) (host : Text) (port : Nat) :
    Aging world (world.release (some conn) host port) := by
  have marked (other : ConnectionId) :
      (world.comesBack conn (makeKey host port)).lastActivity other =
        if other = conn then world.now else world.lastActivity other := by
    simp only [World.lastActivity, comesBack, modifyConnection, setQueue]
    split <;> rfl
  have queues := world.queue_comesBack conn (makeKey host port)
  have now : (world.comesBack conn (makeKey host port)).now = world.now := rfl
  have idleTimeout : (world.comesBack conn (makeKey host port)).pool.idleTimeout =
      world.pool.idleTimeout := rfl
  rw [release_eq]
  generalize world.comesBack conn (makeKey host port) = base at *
  have changed (other : ConnectionId) : base.lastActivity other = world.lastActivity other ∨
      base.lastActivity other = base.now := by
    rw [marked, now]
    split
    · exact .inr rfl
    · exact .inl rfl
  simp only
  split
  · exact .of_subset (Nat.le_of_eq now.symm) idleTimeout changed fun key => by
      rw [← queues]
      exact List.Subset.refl _
  · refine ⟨Nat.le_of_eq now.symm, idleTimeout, fun key other member => ?_⟩
    have older (isOlder : other ∈ base.queue key) :
        (other ∈ world.queue key ∧ base.lastActivity other = world.lastActivity other) ∨
          base.lastActivity other = base.now :=
      (changed other).imp_left fun same => ⟨queues key ▸ isOlder, same⟩
    rw [queue_setQueue] at member
    split at member
    · rename_i here
      subst here
      rcases List.mem_append.mp member with isOlder | isLast
      · exact older isOlder
      · rw [List.mem_singleton.mp isLast]
        exact .inr ((marked conn).trans ((if_pos rfl).trans now.symm))
    · exact older member

/-- Every public call is one of that kind, whoever makes it. -/
theorem apply_aging (world : World) {operation : Operation}
    (isPublic : operation.isPublic = true) : Aging world (world.apply operation) := by
  cases operation with
  | acquire host port =>
      obtain ⟨queues, now, idleTimeout, changed⟩ :=
        world.acquireFrom_touches (makeKey host port) _ (.refl _)
      exact .of_subset (Nat.le_of_eq now.symm) idleTimeout
        (fun conn => (changed conn).imp_right fun touched => touched.1.trans now.symm)
        fun key => (queues key).subset
  | release conn host port =>
      cases conn with
      | none => exact .of_subset (Nat.le_refl _) rfl (fun _ => .inl rfl) fun _ => .refl _
      | some conn => exact world.release_aging conn host port
  | clear =>
      exact .of_subset (Nat.le_refl _) rfl (fun _ => .inl rfl) fun key => List.nil_subset _
  | cleanupExpired => cases isPublic
  | make =>
      refine .of_subset (Nat.le_refl _) rfl (fun conn => ?_) fun _ => .refl _
      by_cases isMade : conn = world.made
      · exact .inr (by simp [World.lastActivity, apply, modifyConnection, isMade])
      · exact .inl (by simp [World.lastActivity, apply, modifyConnection, isMade])
  | die conn =>
      refine .of_subset (Nat.le_refl _) rfl (fun other => .inl ?_) fun _ => .refl _
      simp only [World.lastActivity, apply, modifyConnection]
      split
      · rename_i here
        rw [here]
      · rfl
  | tick duration =>
      exact .of_subset (Nat.le_add_right _ _) rfl (fun _ => .inl rfl) fun _ => .refl _

theorem CleanAt.aging {time : Nat} (clean : CleanAt time before) (aging : Aging before after) :
    CleanAt time after := by
  refine ⟨Nat.le_trans clean.past aging.now, fun key conn member => ?_⟩
  rcases aging.queue key conn member with ⟨earlier, same⟩ | isNow
  · rw [same, aging.idleTimeout]
    exact clean.young key conn earlier
  · rw [isNow]
    exact Nat.le_trans (Nat.le_trans clean.past aging.now) (Nat.le_add_right _ _)

theorem cleanAt_cleanupExpired (world : World) : CleanAt world.now world.cleanupExpired := by
  obtain ⟨same, queues⟩ := world.cleanupExpired_eq
  refine ⟨Nat.le_of_eq same.now.symm, fun key conn member => ?_⟩
  rw [queues] at member
  have keeps := (List.mem_filter.mp member).2
  rw [World.keeps, Bool.and_eq_true, decide_eq_true_eq] at keeps
  rw [World.lastActivity, same.connections, same.idleTimeout]
  omega

theorem cleanupExpired_ages (world : World) : Ages world world.cleanupExpired := by
  obtain ⟨same, queues⟩ := world.cleanupExpired_eq
  refine .of_sublist (Nat.le_of_eq same.now.symm) same.idleTimeout (fun conn => .inl ?_)
    fun key => ?_
  · rw [World.lastActivity, World.lastActivity, same.connections]
  · exact queues key ▸ List.filter_sublist

end World

namespace TimedPool

/-- A pool before its first use. -/
def start (maxSize idleTimeout cleanupInterval : Nat) : TimedPool :=
  ⟨.start maxSize idleTimeout, cleanupInterval, none, []⟩

/-- `start_cleanup_timer`. What replaces the timer cancels its wait. -/
def startCleanupTimer (pool : TimedPool) : TimedPool :=
  { pool with wait := some (pool.world.now + pool.cleanupInterval) }

/-- What a pool makes of what happens to it. -/
def step (pool : TimedPool) : PoolChoice → Option (Option PoolEvent × TimedPool)
  | .call operation =>
      if operation.isPublic then
        some (some (.called operation), { pool with world := pool.world.apply operation })
      else none
  | .startCleanupTimer => some (some .started, pool.startCleanupTimer)
  | .expire =>
      match pool.wait with
      | some deadline =>
          if deadline ≤ pool.world.now then
            some (none, { pool with wait := none, due := pool.due ++ [deadline] })
          else none
      | none => none
  | .handle =>
      match pool.due with
      | _ :: due =>
          some (some (.cleaned pool.world.now),
            { pool with world := pool.world.cleanupExpired, due := due }.startCleanupTimer)
      | [] => none

/-- Pools with their timer. -/
def system (maxSize idleTimeout cleanupInterval : Nat) :
    System TimedPool PoolChoice PoolEvent where
  Initial pool := pool = start maxSize idleTimeout cleanupInterval
  step := step

variable {maxSize idleTimeout cleanupInterval : Nat} {opened : ConnectionId → Text × Nat}
  {pool next : TimedPool} {event : Option PoolEvent} {events : List PoolEvent}

/-- Calls are made by the holders of their connections. -/
def ByHolder (opened : ConnectionId → Text × Nat) : System.Guard TimedPool PoolEvent :=
  fun _ pool event => ∀ operation, event = some (.called operation) →
    pool.world.Allows operation ∧ ∀ conn host port, operation = .release (some conn) host port →
      opened conn = (host, port)

/-- What every run keeps of a pool. -/
structure Tidy (opened : ConnectionId → Text × Nat) (world : World) : Prop where
  owned : world.Owned opened
  ordered : world.Ordered

theorem Tidy.step (tidy : Tidy opened pool.world) (byHolder : ByHolder opened events pool event)
    {choice : PoolChoice} (stepped : pool.step choice = some (event, next)) :
    Tidy opened next.world := by
  cases choice with
  | call operation =>
      obtain ⟨isPublic, outcome⟩ := Option.ite_none_right_eq_some.mp stepped
      cases outcome
      obtain ⟨allowed, own⟩ := byHolder operation rfl
      have owned := tidy.owned.apply allowed own
      exact ⟨owned, tidy.ordered.ages (World.apply_ages tidy.owned isPublic allowed owned)⟩
  | startCleanupTimer =>
      cases stepped
      exact tidy
  | expire =>
      simp only [TimedPool.step] at stepped
      split at stepped
      · cases (Option.ite_none_right_eq_some.mp stepped).2
        exact tidy
      · cases stepped
  | handle =>
      simp only [TimedPool.step] at stepped
      split at stepped <;> cases stepped
      exact ⟨pool.world.cleanupExpired_loses.owned tidy.owned,
        tidy.ordered.ages pool.world.cleanupExpired_ages⟩

theorem tidy_start : Tidy opened (.start maxSize idleTimeout) where
  owned := World.owned_start opened maxSize idleTimeout
  ordered := ⟨fun _ => Nat.le_refl 0, fun _ => .nil⟩

/-- **The pool is fair to its connections**: in every run in which connections are
released by their holders, `acquire` takes the one which is idle longest of those to
its host and port which are alive. -/
theorem acquire_takes_oldest
    (run : (system maxSize idleTimeout cleanupInterval).Runs (ByHolder opened) events pool)
    {host : Text} {port : Nat} {conn : ConnectionId}
    (acquired : (pool.world.acquire host port).2 = some conn) :
    ∀ other ∈ pool.world.queue (makeKey host port), (pool.world.connections other).isAlive = true →
      pool.world.lastActivity conn ≤ pool.world.lastActivity other := by
  have tidy : Tidy opened pool.world := by
    clear acquired
    induction run with
    | initial isInitial => exact isInitial ▸ tidy_start
    | move _ stepped byHolder inductionHypothesis =>
        exact inductionHypothesis.step byHolder stepped
  exact World.acquireFrom_oldest (tidy.ordered.inOrder _) acquired

theorem runs_call {guard : System.Guard TimedPool PoolEvent}
    (run : (system maxSize idleTimeout cleanupInterval).Runs guard events pool)
    (operation : Operation) (isPublic : operation.isPublic = true)
    (allowed : guard events pool (some (.called operation))) :
    (system maxSize idleTimeout cleanupInterval).Runs guard (events ++ [.called operation])
      { pool with world := pool.world.apply operation } :=
  .move run (show (system maxSize idleTimeout cleanupInterval).step pool (.call operation) =
    some (some (.called operation), _) from if_pos isPublic) allowed

/-- What is no release needs no holder. -/
theorem byHolder_other {operation : Operation}
    (other : ∀ conn host port, operation ≠ .release (some conn) host port) :
    ByHolder opened events pool (some (.called operation)) := by
  rintro called same
  cases same
  refine ⟨?_, fun conn host port same => absurd same (other conn host port)⟩
  cases operation with
  | release conn host port =>
      cases conn with
      | none => trivial
      | some conn => exact absurd rfl (other conn host port)
  | acquire | clear | cleanupExpired | make | die | tick => trivial

theorem byHolder_release {conn : ConnectionId} {host : Text} {port : Nat}
    (held : conn ∈ pool.world.fresh ∨ conn ∈ pool.world.handedOut)
    (own : opened conn = (host, port)) :
    ByHolder opened events pool (some (.called (.release (some conn) host port))) := by
  rintro called same
  cases same
  refine ⟨held, fun _ _ _ same => ?_⟩
  cases same
  exact own

/-- Of two connections, the one released first is taken. -/
theorem acquire_takes_oldest_two :
    let world := (World.start 100 60).after
      [.make, .make, .release (some 1) "a".toList 80, .tick 5, .release (some 0) "a".toList 80]
    (world.acquire "a".toList 80).2 = some 1 ∧ world.lastActivity 1 ≤ world.lastActivity 0 := by
  have begun : (system 100 60 10).Runs (ByHolder fun _ => ("a".toList, 80)) []
      (start 100 60 10) := .initial rfl
  have one := runs_call begun .make rfl (byHolder_other (by simp))
  have two := runs_call one .make rfl (byHolder_other (by simp))
  have back := runs_call two (.release (some 1) "a".toList 80) rfl
    (byHolder_release (.inl (by decide)) rfl)
  have later := runs_call back (.tick 5) rfl (byHolder_other (by simp))
  have run := runs_call later (.release (some 0) "a".toList 80) rfl
    (byHolder_release (.inl (by decide)) rfl)
  have acquired : (((World.start 100 60).after [.make, .make, .release (some 1) "a".toList 80,
      .tick 5, .release (some 0) "a".toList 80]).acquire "a".toList 80).2 = some 1 := by decide
  exact ⟨acquired, acquire_takes_oldest run acquired 0 (by decide) (by decide)⟩

/-! ## The cleanup timer -/

/-- When the waits are over whose handlers have not run. -/
def deadlines (pool : TimedPool) : List Nat :=
  pool.due ++ pool.wait.toList

/-- Nothing of the timer is later than it may be. -/
def OnTime (slack : Nat) (pool : TimedPool) : Prop :=
  ∀ deadline ∈ pool.deadlines, pool.world.now ≤ deadline + slack

/-- Any calls, with a timer which is started once and is on time. -/
structure Prompt (slack : Nat) (events : List PoolEvent) (pool : TimedPool)
    (event : Option PoolEvent) : Prop where
  onTime : pool.OnTime slack
  once : event = some .started → PoolEvent.started ∉ events

end TimedPool

/-- The last cleanup. -/
def lastCleaned (events : List PoolEvent) : Option Nat :=
  (events.filterMap fun
    | .cleaned now => some now
    | _ => none).getLast?

theorem lastCleaned_silent {event : PoolEvent} (silent : ∀ now, event ≠ .cleaned now)
    (events : List PoolEvent) : lastCleaned (events ++ [event]) = lastCleaned events := by
  rw [lastCleaned, List.filterMap_append]
  cases event with
  | cleaned now => exact absurd rfl (silent now)
  | called operation | started => exact congrArg List.getLast? (List.append_nil _)

theorem lastCleaned_cleaned (events : List PoolEvent) (now : Nat) :
    lastCleaned (events ++ [.cleaned now]) = some now := by
  rw [lastCleaned, List.filterMap_append]
  exact List.getLast?_concat

namespace TimedPool

variable {maxSize idleTimeout cleanupInterval slack : Nat} {pool next : TimedPool}
  {event : Option PoolEvent} {events : List PoolEvent}

/-- The timer goes on, and the pool is clean as of the last cleanup. -/
structure Cleans (idleTimeout cleanupInterval : Nat) (events : List PoolEvent)
    (pool : TimedPool) : Prop where
  timeout : pool.world.pool.idleTimeout = idleTimeout
  interval : pool.cleanupInterval = cleanupInterval
  unstarted : PoolEvent.started ∉ events → pool.deadlines = [] ∧ lastCleaned events = none
  clean : ∀ time, lastCleaned events = some time → World.CleanAt time pool.world ∧
    ∃ deadline ∈ pool.deadlines, deadline ≤ time + cleanupInterval

theorem Cleans.step (cleans : Cleans idleTimeout cleanupInterval events pool)
    (prompt : Prompt slack events pool event) {choice : PoolChoice}
    (stepped : pool.step choice = some (event, next)) :
    Cleans idleTimeout cleanupInterval (events ++ event.toList) next := by
  cases choice with
  | call operation =>
      obtain ⟨isPublic, outcome⟩ := Option.ite_none_right_eq_some.mp stepped
      cases outcome
      have aging := pool.world.apply_aging isPublic
      have configured := aging.idleTimeout.trans cleans.timeout
      have same := @lastCleaned_silent (.called operation) (fun _ => by simp) events
      refine ⟨configured, cleans.interval, fun absent => ?_, fun time isLast => ?_⟩
      · rw [Option.toList_some, same]
        exact cleans.unstarted fun started => absent (List.mem_append_left _ started)
      · rw [Option.toList_some, same] at isLast
        obtain ⟨clean, waits⟩ := cleans.clean time isLast
        exact ⟨clean.aging aging, waits⟩
  | startCleanupTimer =>
      cases stepped
      have nothing := (cleans.unstarted (prompt.once rfl)).2
      have same := @lastCleaned_silent .started (fun _ => by simp) events
      refine ⟨cleans.timeout, cleans.interval, fun absent => ?_, fun time isLast => ?_⟩
      · exact absurd (List.mem_append_right _ (List.mem_singleton_self _)) absent
      · rw [Option.toList_some, same, nothing] at isLast
        cases isLast
  | expire =>
      simp only [TimedPool.step] at stepped
      split at stepped
      · rename_i deadline waits
        cases (Option.ite_none_right_eq_some.mp stepped).2
        rw [Option.toList_none, List.append_nil]
        have same : deadlines { pool with wait := none, due := pool.due ++ [deadline] } =
            pool.deadlines := by simp [deadlines, waits]
        refine ⟨cleans.timeout, cleans.interval, ?_, ?_⟩
        · rw [same]
          exact cleans.unstarted
        · rw [same]
          exact cleans.clean
      · cases stepped
  | handle =>
      simp only [TimedPool.step] at stepped
      split at stepped <;> cases stepped
      rename_i deadline due isDue
      have started : PoolEvent.started ∈ events := by
        by_contra absent
        have nothing := (cleans.unstarted absent).1
        rw [deadlines, isDue] at nothing
        cases nothing
      have same := pool.world.cleanupExpired_eq.1
      refine ⟨same.idleTimeout.trans cleans.timeout, cleans.interval, fun absent => ?_,
        fun time isLast => ?_⟩
      · exact absurd (List.mem_append_left _ started) absent
      · rw [Option.toList_some, lastCleaned_cleaned] at isLast
        cases isLast
        refine ⟨pool.world.cleanAt_cleanupExpired, _, ?_, Nat.le_refl _⟩
        rw [← cleans.interval, ← same.now]
        exact List.mem_append_right _ (List.mem_singleton_self _)

/-- **Idle connections are dropped in time**, whoever calls: with a timer which was started
once and whose handlers run at most `slack` late, from the first cleanup on no connection in
the pool, and so none which `acquire` takes, has been idle for longer than the timeout, the
interval and the slack together. -/
theorem idle_is_bounded
    (run : (system maxSize idleTimeout cleanupInterval).Runs (Prompt slack) events pool)
    (onTime : pool.OnTime slack) (cleaned : (lastCleaned events).isSome = true) :
    (∀ key, ∀ conn ∈ pool.world.queue key, pool.world.now ≤
      pool.world.lastActivity conn + idleTimeout + cleanupInterval + slack) ∧
    ∀ host port conn, (pool.world.acquire host port).2 = some conn → pool.world.now ≤
      pool.world.lastActivity conn + idleTimeout + cleanupInterval + slack := by
  have cleans : Cleans idleTimeout cleanupInterval events pool := by
    clear onTime cleaned
    induction run with
    | initial isInitial =>
        subst isInitial
        exact ⟨rfl, rfl, fun _ => ⟨rfl, rfl⟩, fun _ isLast => by cases isLast⟩
    | move _ stepped prompt inductionHypothesis => exact inductionHypothesis.step prompt stepped
  obtain ⟨time, isLast⟩ := Option.isSome_iff_exists.mp cleaned
  obtain ⟨clean, deadline, waits, atMost⟩ := cleans.clean time isLast
  have bounded : ∀ key, ∀ conn ∈ pool.world.queue key, pool.world.now ≤
      pool.world.lastActivity conn + idleTimeout + cleanupInterval + slack := by
    intro key conn member
    have young := clean.young key conn member
    have late := onTime deadline waits
    rw [cleans.timeout] at young
    omega
  refine ⟨bounded, fun host port conn acquired => ?_⟩
  exact bounded _ conn (World.acquireFrom_some acquired).1

instance (slack : Nat) (pool : TimedPool) : Decidable (pool.OnTime slack) :=
  inferInstanceAs (Decidable (∀ deadline ∈ pool.deadlines, pool.world.now ≤ deadline + slack))

/-- A connection is released, and stays behind one cleanup. -/
theorem idle_is_bounded_first :
    ∃ pool : TimedPool, 0 ∈ pool.world.queue (makeKey "a".toList 80) ∧
      pool.world.now ≤ pool.world.lastActivity 0 + 60 + 10 + 1 := by
  have begun : (system 100 60 10).Runs (Prompt 1) [] (start 100 60 10) := .initial rfl
  have made := runs_call begun .make rfl ⟨by decide, by simp⟩
  have back := runs_call made (.release (some 0) "a".toList 80) rfl
    ⟨by decide, by simp⟩
  have started := @System.Runs.move _ _ _ _ _ _ _ .startCleanupTimer _ _ back rfl
    ⟨by decide, by simp⟩
  have later := runs_call started (.tick 10) rfl ⟨by decide, by simp⟩
  have expired := @System.Runs.move _ _ _ _ _ _ _ .expire _ _ later rfl
    ⟨by decide, by simp⟩
  have run := @System.Runs.move _ _ _ _ _ _ _ .handle _ _ expired rfl
    ⟨by decide, by simp⟩
  have waits : 0 ∈ ((World.start 100 60).after [.make, .release (some 0) "a".toList 80, .tick 10,
      .cleanupExpired]).queue (makeKey "a".toList 80) := by decide
  exact ⟨_, waits, (idle_is_bounded run (by decide) rfl).1 _ 0 waits⟩

end TimedPool

end Foxhttp.Client
