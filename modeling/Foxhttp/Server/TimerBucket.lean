import Foxhttp.Library.Sorter
import Foxhttp.Library.Transition

/-!
# The timer bucket

A `TimerBucket` keeps the pending tasks of some timers and one asynchronous
wait for the earliest of them. A pass takes the expired tasks out and calls
their callbacks one after the other; the callbacks may call the bucket again.
Between two calls of a pass, every method is one indivisible update.
-/

namespace Foxhttp.Server

open Foxhttp.Library

abbrev TimerId := Nat

abbrev CallbackId := Nat

/-- `TimerPriority`. -/
inductive TimerPriority where
  | low | normal | high | critical
deriving DecidableEq, Repr

/-- The value of the enumerator. -/
def TimerPriority.toNat : TimerPriority → Nat
  | .low => 0
  | .normal => 1
  | .high => 2
  | .critical => 3

/-- `TimerTimePoint::max()`. Times are ticks of the clock, in nanoseconds. -/
def timePointMax : Int := 9223372036854775807

/-- `TimerTask`, with its interval in milliseconds. An empty callback is none. -/
structure TimerTask where
  expiryTime : Int
  callback : Option CallbackId
  interval : Int
  isRepeating : Bool
  priority : TimerPriority
  id : TimerId
  createdTime : Int
deriving DecidableEq, Repr

namespace TimerTask

/-- `is_expired`. -/
def isExpired (now : Int) (task : TimerTask) : Bool :=
  decide (task.expiryTime ≤ now)

/-- `next_execution_time`. -/
def nextExecutionTime (task : TimerTask) : Int :=
  task.expiryTime + task.interval * 1000000

/-- The order of `process_expired_tasks`. -/
def before (first second : TimerTask) : Bool :=
  decide (second.priority.toNat < first.priority.toNat)

theorem before_asymmetric (first second : TimerTask) (earlier : first.before second = true) :
    second.before first = false := by
  simp only [before, decide_eq_true_eq, decide_eq_false_iff_not] at *
  omega

theorem before_incomparable (first second third : TimerTask)
    (firstTwo : second.before first = false) (lastTwo : third.before second = false) :
    third.before first = false := by
  simp only [before, decide_eq_false_iff_not] at *
  omega

/-- A sort of tasks. -/
def byPriority : Sorter before :=
  .insertion before_asymmetric before_incomparable

end TimerTask

/-- An asynchronous wait of the timer. Once it is completed its handler is on
its way with no error, whatever the timer is set to. -/
structure Wait where
  expiry : Int
  completed : Bool := false
deriving DecidableEq, Repr

/-- `TimerBucket`, as it is constructed. The ids in `pending_tasks_` are
distinct; the waits are those of `timer_` whose handler has not run. -/
structure TimerBucket where
  pendingTasks : List TimerTask := []
  nextExpiryTime : Int := timePointMax
  isRunning : Bool := false
  waits : List Wait := []
  totalExecuted : Nat := 0
deriving DecidableEq, Repr

namespace TimerBucket

variable (sorter : Sorter TimerTask.before)

/-- `pending_tasks_.emplace(task.id, task)`. -/
def emplace (bucket : TimerBucket) (task : TimerTask) : TimerBucket :=
  if bucket.pendingTasks.any fun other => other.id == task.id then bucket
  else { bucket with pendingTasks := bucket.pendingTasks ++ [task] }

/-- `cancel_task`. -/
def cancelTask (bucket : TimerBucket) (id : TimerId) : Bool × TimerBucket :=
  (bucket.pendingTasks.any fun task => task.id == id,
    { bucket with pendingTasks := bucket.pendingTasks.filter fun task => task.id != id })

/-- `get_next_expiry`. -/
def getNextExpiry (bucket : TimerBucket) : Option Int :=
  if bucket.pendingTasks = [] then none
  else some (bucket.pendingTasks.foldl
    (fun next task => if task.expiryTime < next then task.expiryTime else next) timePointMax)

/-- `get_pending_count`. -/
def getPendingCount (bucket : TimerBucket) : Nat :=
  bucket.pendingTasks.length

/-- `timer_->cancel()`: waits which have completed are not reached. -/
def cancelTimer (bucket : TimerBucket) : TimerBucket :=
  { bucket with waits := bucket.waits.filter Wait.completed }

/-- `timer_->expires_at(expiry)` and `async_wait`. -/
def armTimer (bucket : TimerBucket) (expiry : Int) : TimerBucket :=
  { bucket.cancelTimer with waits := bucket.cancelTimer.waits ++ [{ expiry }] }

/-- The first block of `process_expired_tasks`: take the expired tasks out, in
the order in which their callbacks are called. -/
def takeExpired (now : Int) (bucket : TimerBucket) : List TimerTask × TimerBucket :=
  (sorter.sort (bucket.pendingTasks.filter (TimerTask.isExpired now)),
    { bucket with
      pendingTasks := bucket.pendingTasks.filter fun task => !task.isExpired now })

/-- What `process_expired_tasks` does after a callback. -/
def finishTask (bucket : TimerBucket) (task : TimerTask) : TimerBucket :=
  let counted := { bucket with totalExecuted := (bucket.totalExecuted + 1) % UInt64.size }
  if task.isRepeating then counted.emplace { task with expiryTime := task.nextExecutionTime }
  else counted

/-- `start_timer`, up to the pass it begins with these tasks when the earliest
one has expired already. -/
def startTimer (now : Int) (bucket : TimerBucket) : Option (List TimerTask) × TimerBucket :=
  match bucket.getNextExpiry with
  | none => (none, bucket)
  | some next =>
      if next ≤ now then
        let (expired, rest) := bucket.takeExpired sorter now
        (some expired, rest)
      else (none, bucket.armTimer next)

/-- `start`. A new timer takes the place of the old one, which drops its waits. -/
def start (now : Int) (bucket : TimerBucket) : Option (List TimerTask) × TimerBucket :=
  if bucket.isRunning then (none, bucket)
  else { bucket.cancelTimer with isRunning := true }.startTimer sorter now

/-- `stop`. -/
def stop (bucket : TimerBucket) : TimerBucket :=
  if bucket.isRunning then { bucket.cancelTimer with isRunning := false, pendingTasks := [] }
  else bucket

/-- `add_task`, through `reschedule_timer`, with the mutex left out. -/
def addTask (now : Int) (bucket : TimerBucket) (task : TimerTask) :
    Bool × Option (List TimerTask) × TimerBucket :=
  if bucket.isRunning then
    let added := bucket.emplace task
    if task.expiryTime < bucket.nextExpiryTime then
      (true, added.cancelTimer.startTimer sorter now)
    else (true, none, added)
  else (false, none, bucket)

end TimerBucket

/-! ## Passes -/

/-- A `process_expired_tasks` in progress. The pass of a handler is followed by
`start_timer`. -/
structure Pass where
  handler : Bool
  running : Option TimerTask := none
  remaining : List TimerTask
deriving DecidableEq, Repr

/-- A bucket, the clock and the passes in progress, each begun in a callback of
the one below it. -/
structure TimerWorld where
  bucket : TimerBucket := {}
  now : Int := 0
  passes : List Pass := []
deriving DecidableEq, Repr

/-- How a callback ends. An exception which is not a `std::exception` leaves
the pass. -/
inductive CallbackEnd where
  | returned | stdException | foreignException
deriving DecidableEq, Repr

/-- One move: the clock, a wait of the timer, a call of the bucket from outside
or from the callback which is running, or a step of the uppermost pass. -/
inductive TimerMove where
  | advance (duration : Nat)
  | complete (place : Nat)
  | fire (place : Nat)
  | start
  | stop
  | addTask (task : TimerTask)
  | cancelTask (id : TimerId)
  | invoke
  | leave (how : CallbackEnd)
  | endPass
deriving DecidableEq, Repr

namespace TimerWorld

variable (sorter : Sorter TimerTask.before)

/-- May the bucket be called: is no pass in progress, or a callback running? -/
def callable (world : TimerWorld) : Bool :=
  match world.passes with
  | [] => true
  | pass :: _ => pass.running.isSome

/-- Go on with what `start_timer` did, and the pass it may have begun. -/
def started (world : TimerWorld) (passes : List Pass) :
    Option (List TimerTask) × TimerBucket → TimerWorld
  | (none, bucket) => { world with bucket, passes }
  | (some expired, bucket) =>
      { world with bucket, passes := { handler := false, remaining := expired } :: passes }

/-- The handler of a completed wait. -/
def fire (world : TimerWorld) (place : Nat) : Option TimerWorld :=
  match world.bucket.waits[place]? with
  | some wait =>
      if wait.completed then
        let bucket := { world.bucket with waits := world.bucket.waits.eraseIdx place }
        if bucket.isRunning then
          let (expired, rest) := bucket.takeExpired sorter world.now
          some { world with
            bucket := rest, passes := { handler := true, remaining := expired } :: world.passes }
        else some { world with bucket }
      else none
  | none => none

/-- The wait at a place completes when its time has come. -/
def complete (world : TimerWorld) (place : Nat) : Option TimerWorld :=
  match world.bucket.waits[place]? with
  | some wait =>
      if wait.expiry ≤ world.now then
        some { world with bucket := { world.bucket with
          waits := world.bucket.waits.set place { wait with completed := true } } }
      else none
  | none => none

/-- The next turn of the loop of the uppermost pass. -/
def invoke (world : TimerWorld) : Option TimerWorld :=
  match world.passes with
  | ⟨handler, none, task :: remaining⟩ :: below =>
      match task.callback with
      | some _ => some { world with passes := ⟨handler, some task, remaining⟩ :: below }
      | none => some { world with
          bucket := world.bucket.finishTask task, passes := ⟨handler, none, remaining⟩ :: below }
  | _ => none

/-- The callback of the uppermost pass ends. -/
def leave (world : TimerWorld) (how : CallbackEnd) : Option TimerWorld :=
  match world.passes with
  | ⟨handler, some task, remaining⟩ :: below =>
      match how with
      | .returned | .stdException => some { world with
          bucket := world.bucket.finishTask task, passes := ⟨handler, none, remaining⟩ :: below }
      | .foreignException => some { world with passes := below }
  | _ => none

/-- The loop of the uppermost pass ends. -/
def endPass (world : TimerWorld) : Option TimerWorld :=
  match world.passes with
  | ⟨true, none, []⟩ :: below =>
      some (world.started below (world.bucket.startTimer sorter world.now))
  | ⟨false, none, []⟩ :: below => some { world with passes := below }
  | _ => none

/-- A call of the bucket. -/
def call (world : TimerWorld) (next : TimerWorld) : Option TimerWorld :=
  if world.callable then some next else none

/-- One move. -/
def step (world : TimerWorld) : TimerMove → Option TimerWorld
  | .advance duration => some { world with now := world.now + duration }
  | .complete place => world.complete place
  | .fire place => if world.callable then world.fire sorter place else none
  | .start => world.call (world.started world.passes (world.bucket.start sorter world.now))
  | .stop => world.call { world with bucket := world.bucket.stop }
  | .addTask task =>
      world.call (world.started world.passes (world.bucket.addTask sorter world.now task).2)
  | .cancelTask id => world.call { world with bucket := (world.bucket.cancelTask id).2 }
  | .invoke => world.invoke
  | .leave how => world.leave how
  | .endPass => world.endPass sorter

end TimerWorld

/-- The runs of a bucket from its construction at some time. A run reports its
moves. -/
def timerSystem (sorter : Sorter TimerTask.before) : System TimerWorld TimerMove TimerMove where
  Initial world := ∃ now, world = { now }
  step world move := (world.step sorter move).map fun next => (some move, next)

end Foxhttp.Server
