import Foxhttp.Server.TimerArming

/-!
# The timer manager

A `TimerManager` spreads its timers over buckets by their ids. Its methods may
be called from any thread at any moment, those which the `io_context` runs
included: a callback calls on the thread which runs it, and a pass its call
begins is over before the callback goes on.
-/

namespace Foxhttp.Server

open Foxhttp.Library

namespace TimerBucket

variable (sorter : Sorter TimerTask.before)

/-- The wait at a place completes when its time has come. -/
def completeWait (now : Int) (bucket : TimerBucket) (place : Nat) : Option TimerBucket :=
  match bucket.waits[place]? with
  | some wait =>
      if wait.expiry ≤ now then
        some { bucket with waits := bucket.waits.set place { wait with completed := true } }
      else none
  | none => none

/-- The handler of a completed wait, up to the pass it begins. -/
def fireWait (now : Int) (bucket : TimerBucket) (place : Nat) :
    Option (Option (List TimerTask) × TimerBucket) :=
  match bucket.waits[place]? with
  | some wait =>
      if wait.completed then
        let bucket := { bucket with waits := bucket.waits.eraseIdx place }
        if bucket.isRunning then
          let (expired, rest) := bucket.takeExpired sorter now
          some (some expired, rest)
        else some (none, bucket)
      else none
  | none => none

end TimerBucket

/-- The pass of a bucket. -/
abbrev BucketPass := Nat × Pass

/-- `TimerManager`, the clock, and the passes in progress on every thread, the
uppermost first. -/
structure TimerManager where
  bucketCount : Nat
  buckets : List TimerBucket
  nextTimerId : TimerId := 0
  now : Int
  threads : List (List BucketPass) := []
  deriving DecidableEq, Repr

/-- What a history tells. -/
inductive TimerEvent where
  | scheduled (id : TimerId)
  | started (id : TimerId)
  | reinserted (id : TimerId)
  | cancelled (id : TimerId)
  deriving DecidableEq, Repr

/-- One move. A caller is a thread which runs a callback, or any other. -/
inductive ManagerMove where
  | advance (duration : Nat)
  | complete (bucket place : Nat)
  | fire (bucket place : Nat)
  | scheduleAt (caller : Option Nat) (time : Int) (callback : Option CallbackId)
      (priority : TimerPriority)
  | scheduleEvery (caller : Option Nat) (interval : Int) (callback : Option CallbackId)
      (priority : TimerPriority)
  | cancel (id : TimerId)
  | invoke (thread : Nat)
  | leave (thread : Nat) (how : CallbackEnd)
  | endPass (thread : Nat)
  deriving DecidableEq, Repr

namespace TimerManager

variable (sorter : Sorter TimerTask.before)

/-- The manager after its construction and `start`. -/
def running (bucketCount : Nat) (now : Int) : TimerManager where
  bucketCount
  buckets := List.replicate bucketCount (({} : TimerBucket).start sorter now).2
  now

def setBucket (manager : TimerManager) (index : Nat) (bucket : TimerBucket) : TimerManager :=
  { manager with buckets := manager.buckets.set index bucket }

/-- A pass begins on the thread of the caller. -/
def begin (manager : TimerManager) (caller : Option Nat) (pass : BucketPass) : TimerManager :=
  { manager with threads :=
      match caller with
      | none => manager.threads ++ [[pass]]
      | some thread => manager.threads.modify thread (pass :: ·) }

/-- Go on with what a bucket became, and the pass it may have begun. -/
def continued (manager : TimerManager) (caller : Option Nat) (index : Nat) (handler : Bool)
    (result : Option (List TimerTask) × TimerBucket) : TimerManager :=
  match result.1 with
  | none => manager.setBucket index result.2
  | some expired => (manager.setBucket index result.2).begin caller
      (index, { handler, remaining := expired })

/-- Does the caller run a callback, or is it a thread of its own? -/
def mayCall (manager : TimerManager) : Option Nat → Bool
  | none => true
  | some thread =>
      match manager.threads[thread]? with
      | some (pass :: _) => pass.2.running.isSome
      | _ => false

/-- `schedule_impl`. -/
def scheduleImpl (manager : TimerManager) (caller : Option Nat) (time interval : Int)
    (callback : Option CallbackId) (isRepeating : Bool) (priority : TimerPriority) :
    Option (Option TimerEvent × TimerManager) :=
  if manager.mayCall caller then
    let id := (manager.nextTimerId + 1) % UInt64.size
    let manager := { manager with nextTimerId := id }
    let task : TimerTask :=
      { expiryTime := time, callback, interval, isRepeating, priority, id,
        createdTime := manager.now }
    let index := id % manager.bucketCount
    manager.buckets[index]?.map fun bucket =>
      let (added, result) := bucket.addTask sorter manager.now task
      (if added then some (.scheduled id) else none, manager.continued caller index false result)
  else none

/-- `cancel`. -/
def cancel (manager : TimerManager) (id : TimerId) : Option (Option TimerEvent × TimerManager) :=
  let index := id % manager.bucketCount
  manager.buckets[index]?.map fun bucket =>
    (some (.cancelled id), manager.setBucket index (bucket.cancelTask id).2)

/-- A task is done with, and is put back when it repeats. -/
def finish (manager : TimerManager) (thread index : Nat) (task : TimerTask)
    (passes : List BucketPass) : Option (Option TimerEvent × TimerManager) :=
  manager.buckets[index]?.map fun bucket =>
    (if task.isRepeating then some (.reinserted task.id) else none,
      { manager.setBucket index (bucket.finishTask task) with
        threads := manager.threads.set thread passes })

/-- The next turn of the loop of the uppermost pass of a thread. -/
def invoke (manager : TimerManager) (thread : Nat) : Option (Option TimerEvent × TimerManager) :=
  match manager.threads[thread]? with
  | some ((index, ⟨handler, none, task :: remaining⟩) :: below) =>
      match task.callback with
      | some _ =>
          some (some (.started task.id), { manager with
            threads := manager.threads.set thread
              ((index, ⟨handler, some task, remaining⟩) :: below) })
      | none => manager.finish thread index task ((index, ⟨handler, none, remaining⟩) :: below)
  | _ => none

/-- The callback of the uppermost pass of a thread ends. -/
def leave (manager : TimerManager) (thread : Nat) (how : CallbackEnd) :
    Option (Option TimerEvent × TimerManager) :=
  match manager.threads[thread]? with
  | some ((index, ⟨handler, some task, remaining⟩) :: below) =>
      match how with
      | .returned | .stdException =>
          manager.finish thread index task ((index, ⟨handler, none, remaining⟩) :: below)
      | .foreignException =>
          some (none, { manager with threads := manager.threads.set thread below })
  | _ => none

/-- The loop of the uppermost pass of a thread ends. -/
def endPass (manager : TimerManager) (thread : Nat) :
    Option (Option TimerEvent × TimerManager) :=
  match manager.threads[thread]? with
  | some ((index, ⟨handler, none, []⟩) :: below) =>
      let rest := { manager with threads := manager.threads.set thread below }
      if handler then
        manager.buckets[index]?.map fun bucket =>
          (none, rest.continued (some thread) index false (bucket.startTimer sorter manager.now))
      else some (none, rest)
  | _ => none

/-- One move. -/
def step (manager : TimerManager) : ManagerMove → Option (Option TimerEvent × TimerManager)
  | .advance duration => some (none, { manager with now := manager.now + duration })
  | .complete index place => do
      let bucket ← manager.buckets[index]?
      let completed ← bucket.completeWait manager.now place
      some (none, manager.setBucket index completed)
  | .fire index place => do
      let bucket ← manager.buckets[index]?
      let result ← bucket.fireWait sorter manager.now place
      some (none, manager.continued none index true result)
  | .scheduleAt caller time callback priority =>
      manager.scheduleImpl sorter caller time 0 callback false priority
  | .scheduleEvery caller interval callback priority =>
      manager.scheduleImpl sorter caller (manager.now + interval * 1000000) interval callback true
        priority
  | .cancel id => manager.cancel id
  | .invoke thread => manager.invoke thread
  | .leave thread how => manager.leave thread how
  | .endPass thread => manager.endPass sorter thread

end TimerManager

/-- The histories of a running manager. -/
def managerSystem (sorter : Sorter TimerTask.before) :
    System TimerManager ManagerMove TimerEvent where
  Initial manager := ∃ bucketCount now, manager = .running sorter bucketCount now
  step manager move := manager.step sorter move

end Foxhttp.Server
