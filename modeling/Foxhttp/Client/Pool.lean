import Mathlib.Algebra.Group.Nat.Defs
import Mathlib.Data.List.AList
import Foxhttp.Library.Text

/-!
# The connection pool

A `ConnectionPool` keeps a queue of idle connections for every host and two
`size_t` counters. Every public operation holds the pool's lock, so each is one
indivisible update. The connections themselves are shared with the callers:
they may close at any time, in a queue or in a caller's hands.
-/

namespace Foxhttp.Client

open Foxhttp.Library

abbrev ConnectionId := Nat

/-- `Connection`; a socket is open or closed. -/
structure Connection where
  isOpen : Bool
  inUse : Bool
  lastActivity : Nat
  deriving DecidableEq, Repr

/-- `Connection::is_alive`. -/
def Connection.isAlive (conn : Connection) : Bool :=
  conn.isOpen

/-- `Connection::mark_in_use`. -/
def Connection.markInUse (now : Nat) (conn : Connection) : Connection :=
  { conn with inUse := true, lastActivity := now }

/-- `Connection::mark_idle`. -/
def Connection.markIdle (now : Nat) (conn : Connection) : Connection :=
  { conn with inUse := false, lastActivity := now }

/-- A `size_t` counter, and whether it was ever decremented at zero. -/
structure Counter where
  value : Nat
  underflowed : Bool
  deriving DecidableEq, Repr

namespace Counter

def zero : Counter := ⟨0, false⟩

/-- `++counter`, which wraps. -/
def increment (counter : Counter) : Counter :=
  { counter with value := (counter.value + 1) % 2 ^ 64 }

/-- `--counter`, which wraps. -/
def decrement (counter : Counter) : Counter :=
  match counter.value with
  | 0 => { value := 2 ^ 64 - 1, underflowed := true }
  | value + 1 => { counter with value := value }

end Counter

abbrev Queue := List ConnectionId

/-- `ConnectionPool`. -/
structure ConnectionPool where
  maxSize : Nat
  idleTimeout : Nat
  pools : AList (fun _ : Text => Queue)
  totalConnections : Counter
  activeConnections : Counter

/-- A pool in use, with the connections its callers and its queues share. -/
structure World where
  pool : ConnectionPool
  connections : ConnectionId → Connection
  now : Nat
  /-- The connections made by callers so far. -/
  made : Nat
  /-- Made by a caller and not yet released to the pool. -/
  fresh : List ConnectionId
  /-- Acquired and not yet released. -/
  handedOut : List ConnectionId

/-- `make_key`. -/
def makeKey (host : Text) (port : Nat) : Text :=
  host ++ ':' :: Nat.toDigits 10 port

namespace World

/-- A pool before its first use. -/
def start (maxSize idleTimeout : Nat) : World where
  pool :=
    { maxSize := maxSize
      idleTimeout := idleTimeout
      pools := ∅
      totalConnections := .zero
      activeConnections := .zero }
  connections _ := ⟨false, false, 0⟩
  now := 0
  made := 0
  fresh := []
  handedOut := []

/-- Every connection kept in a queue. -/
def idle (world : World) : List ConnectionId :=
  world.pool.pools.entries.flatMap fun entry => entry.2

def modifyConnection (world : World) (conn : ConnectionId)
    (change : Connection → Connection) : World :=
  { world with connections := fun other =>
      if other = conn then change (world.connections conn) else world.connections other }

/-- The queue `pools_[key]` refers to. -/
def queue (world : World) (key : Text) : Queue :=
  (world.pool.pools.lookup key).getD []

def setQueue (world : World) (key : Text) (queue : Queue) : World :=
  { world with pool := { world.pool with pools := world.pool.pools.insert key queue } }

def decrementTotal (world : World) : World :=
  { world with pool :=
      { world.pool with totalConnections := world.pool.totalConnections.decrement } }

/-! ## Operations -/

/-- The loop of `acquire` over the queue of its key. -/
def acquireFrom (world : World) (key : Text) : Queue → World × Option ConnectionId
  | [] => (world.setQueue key [], none)
  | conn :: rest =>
      if (world.connections conn).isAlive then
        let world := (world.setQueue key rest).modifyConnection conn (.markInUse world.now)
        ({ world with
            pool := { world.pool with activeConnections := world.pool.activeConnections.increment }
            handedOut := conn :: world.handedOut }, some conn)
      else world.decrementTotal.acquireFrom key rest

/-- `acquire`. -/
def acquire (world : World) (host : Text) (port : Nat) : World × Option ConnectionId :=
  world.acquireFrom (makeKey host port) (world.queue (makeKey host port))

/-- `release`. -/
def release (world : World) (conn : Option ConnectionId) (host : Text) (port : Nat) : World :=
  match conn with
  | none => world
  | some conn =>
      let key := makeKey host port
      let world := world.setQueue key (world.queue key)
      let world := world.modifyConnection conn (.markIdle world.now)
      let world := { world with
        pool := { world.pool with activeConnections := world.pool.activeConnections.decrement }
        fresh := world.fresh.erase conn
        handedOut := world.handedOut.erase conn }
      if !(world.connections conn).isAlive then world.decrementTotal
      else if world.pool.maxSize ≤ world.pool.totalConnections.value then world.decrementTotal
      else world.setQueue key (world.queue key ++ [conn])

/-- `size`. -/
def size (world : World) : Nat :=
  world.pool.totalConnections.value

/-- `active_count`. -/
def activeCount (world : World) : Nat :=
  world.pool.activeConnections.value

/-- `clear`. -/
def clear (world : World) : World :=
  { world with pool :=
      { world.pool with
        pools := ∅
        totalConnections := { world.pool.totalConnections with value := 0 }
        activeConnections := { world.pool.activeConnections with value := 0 } } }

/-- `cleanup_pool` keeps a connection that is alive and was used lately. -/
def keeps (world : World) (conn : ConnectionId) : Bool :=
  (world.connections conn).isAlive &&
    decide (world.now - (world.connections conn).lastActivity ≤ world.pool.idleTimeout)

/-- `cleanup_pool`. -/
def cleanupPool (world : World) : Queue → World × Queue
  | [] => (world, [])
  | conn :: rest =>
      if world.keeps conn then
        let (world, valid) := world.cleanupPool rest
        (world, conn :: valid)
      else world.decrementTotal.cleanupPool rest

/-- The turn of `cleanup_expired` for one key. -/
def cleanupKey (world : World) (key : Text) : World :=
  let (world, valid) := world.cleanupPool (world.queue key)
  if valid.isEmpty then
    { world with pool := { world.pool with pools := world.pool.pools.erase key } }
  else world.setQueue key valid

/-- `cleanup_expired`. -/
def cleanupExpired (world : World) : World :=
  world.pool.pools.keys.foldl cleanupKey world

end World

/-- What callers and connections do. -/
inductive Operation where
  | acquire (host : Text) (port : Nat)
  | release (conn : Option ConnectionId) (host : Text) (port : Nat)
  | clear
  | cleanupExpired
  /-- A caller makes a connection of its own. -/
  | make
  /-- A socket closes. -/
  | die (conn : ConnectionId)
  | tick (duration : Nat)

namespace World

/-- The world after an operation. -/
def apply (world : World) : Operation → World
  | .acquire host port => (world.acquire host port).1
  | .release conn host port => world.release conn host port
  | .clear => world.clear
  | .cleanupExpired => world.cleanupExpired
  | .make =>
      { world.modifyConnection world.made fun _ => ⟨true, false, world.now⟩ with
        made := world.made + 1
        fresh := world.made :: world.fresh }
  | .die conn => world.modifyConnection conn fun socket => { socket with isOpen := false }
  | .tick duration => { world with now := world.now + duration }

/-- The world after a sequence of operations. -/
def after (world : World) (operations : List Operation) : World :=
  operations.foldl apply world

/-- A connection is released by its holder: the caller which made it, or the
one to which it is handed out. -/
def Allows (world : World) : Operation → Prop
  | .release (some conn) _ _ => conn ∈ world.fresh ∨ conn ∈ world.handedOut
  | _ => True

/-- In a sequence of operations every connection is released by its holder. -/
def AllowsAll (world : World) (operations : List Operation) : Prop :=
  ∀ before operation later, operations = before ++ operation :: later →
    (world.after before).Allows operation

/-! ## Queues -/

/-- Erasing a key takes out its queue and nothing else. -/
theorem kerase_perm (entries : List (Sigma fun _ : Text => Queue)) (key : Text) :
    (((List.kerase key entries).flatMap fun entry => entry.2) ++
      (List.dlookup key entries).getD []).Perm (entries.flatMap fun entry => entry.2) := by
  induction entries with
  | nil => exact .refl _
  | cons entry entries inductionHypothesis =>
      obtain ⟨other, queue⟩ := entry
      by_cases same : key = other
      · subst same
        simpa using List.perm_append_comm
      · rw [List.kerase_cons_ne same, List.dlookup_cons_ne _ _ same]
        simpa using inductionHypothesis.append_left queue

theorem idle_setQueue (world : World) (key : Text) (queue : Queue) :
    ((world.setQueue key queue).idle ++ world.queue key).Perm (queue ++ world.idle) := by
  have erased := kerase_perm world.pool.pools.entries key
  simpa [idle, setQueue, World.queue, AList.lookup] using erased.append_left queue

theorem queue_setQueue (world : World) (key other : Text) (queue : Queue) :
    (world.setQueue key queue).queue other = if other = key then queue else world.queue other := by
  split
  · rename_i same
    subst same
    simp [World.queue, setQueue]
  · rename_i different
    simp [World.queue, setQueue, AList.lookup_insert_ne different]

/-- The world into which a connection has come back, before it is kept or dropped. -/
def comesBack (world : World) (conn : ConnectionId) (key : Text) : World :=
  let touched := world.setQueue key (world.queue key)
  { touched.modifyConnection conn (.markIdle world.now) with
    pool := { touched.pool with activeConnections := touched.pool.activeConnections.decrement }
    fresh := touched.fresh.erase conn
    handedOut := touched.handedOut.erase conn }

theorem release_eq (world : World) (conn : ConnectionId) (host : Text) (port : Nat) :
    world.release (some conn) host port =
      let base := world.comesBack conn (makeKey host port)
      if !(world.connections conn).isAlive ||
          world.pool.maxSize ≤ world.pool.totalConnections.value then base.decrementTotal
      else base.setQueue (makeKey host port) (base.queue (makeKey host port) ++ [conn]) := by
  have alive : ((world.comesBack conn (makeKey host port)).connections conn).isAlive =
      (world.connections conn).isAlive := by
    simp [comesBack, modifyConnection, setQueue, Connection.markIdle, Connection.isAlive]
  have unfolded : world.release (some conn) host port =
      let base := world.comesBack conn (makeKey host port)
      if !(base.connections conn).isAlive then base.decrementTotal
      else if world.pool.maxSize ≤ world.pool.totalConnections.value then base.decrementTotal
      else base.setQueue (makeKey host port) (base.queue (makeKey host port) ++ [conn]) := rfl
  simp only [unfolded, alive]
  by_cases isAlive : (world.connections conn).isAlive = true
  · simp only [isAlive, Bool.not_true, Bool.false_eq_true, if_false, Bool.false_or,
      decide_eq_true_eq]
  · simp only [isAlive, Bool.not_false, Bool.true_or, if_true]

theorem queue_comesBack (world : World) (conn : ConnectionId) (key other : Text) :
    (world.comesBack conn key).queue other = world.queue other := by
  change (world.setQueue key (world.queue key)).queue other = _
  rw [queue_setQueue]
  split
  · rename_i same
    rw [same]
  · rfl

/-- No queue has changed, but for the order of the table. -/
theorem idle_comesBack (world : World) (conn : ConnectionId) (key : Text) :
    (world.comesBack conn key).idle.Perm world.idle := by
  have replaced := world.idle_setQueue key (world.queue key)
  exact (List.perm_append_right_iff _).mp (replaced.trans List.perm_append_comm)

end World

end Foxhttp.Client
