import Foxhttp.Server.TimerBucket

/-!
# The lock of a timer bucket

The mutex of a bucket is not recursive. `add_task` holds it while
`reschedule_timer` goes through `start_timer` to `get_next_expiry`, which locks
it again. A call never does so exactly when it does not come to reschedule.
-/

namespace Foxhttp.Server

open Foxhttp.Library

/-- What a call does that matters to the lock. What a callback calls in its
turn is a call of its own. -/
inductive LockStep where
  | lock
  | unlock
  | callback (id : TimerId)
deriving DecidableEq, Repr

/-- Whether the lock is held after some steps, or nothing when one of them locks
it while it is held. -/
def holdsAfter : Bool → List LockStep → Option Bool
  | held, [] => some held
  | true, .lock :: _ => none
  | false, .lock :: rest => holdsAfter true rest
  | _, .unlock :: rest => holdsAfter false rest
  | held, .callback _ :: rest => holdsAfter held rest

/-- No step locks while the lock is held. -/
def NeverRelocks (steps : List LockStep) : Prop :=
  (holdsAfter false steps).isSome = true

instance (steps : List LockStep) : Decidable (NeverRelocks steps) :=
  inferInstanceAs (Decidable (_ = true))

/-- What a call meets: the clock as `start_timer` and as the pass read it, and
how callbacks end. -/
structure CallMeets where
  decided : Int
  swept : Int
  ends : TimerTask → CallbackEnd

/-- The calls of a bucket. -/
inductive TimerCall where
  | start
  | stop
  | addTask (task : TimerTask)
  | cancelTask (id : TimerId)
  | getNextExpiry
  | getPendingCount
  | processExpiredTasks
deriving DecidableEq, Repr

namespace TimerBucket

variable (sorter : Sorter TimerTask.before) (meets : CallMeets)

/-- A block under a `lock_guard`. -/
def guarded : List LockStep := [.lock, .unlock]

/-- The loop of `process_expired_tasks`. -/
def loopLocks : List TimerTask → List LockStep
  | [] => []
  | task :: rest =>
      let called := if task.callback.isSome then [.callback task.id] else []
      let ended := if task.callback.isSome then meets.ends task else .returned
      match ended with
      | .foreignException => called
      | .returned | .stdException =>
          called ++ (if task.isRepeating then guarded else []) ++ loopLocks rest

/-- `process_expired_tasks`. -/
def processExpiredTasksLocks (bucket : TimerBucket) : List LockStep :=
  guarded ++ loopLocks meets (bucket.takeExpired sorter meets.swept).1

/-- `start_timer`. -/
def startTimerLocks (bucket : TimerBucket) : List LockStep :=
  guarded ++
    match bucket.getNextExpiry with
    | none => []
    | some next => if next ≤ meets.decided then bucket.processExpiredTasksLocks sorter meets else []

/-- `reschedule_timer`. -/
def rescheduleTimerLocks (bucket : TimerBucket) : List LockStep :=
  bucket.cancelTimer.startTimerLocks sorter meets

/-- `start`. -/
def startLocks (bucket : TimerBucket) : List LockStep :=
  if bucket.isRunning then []
  else { bucket.cancelTimer with isRunning := true }.startTimerLocks sorter meets

/-- `stop`. -/
def stopLocks (bucket : TimerBucket) : List LockStep :=
  if bucket.isRunning then guarded else []

/-- `add_task`, whose guard is released when it returns or an exception passes. -/
def addTaskLocks (bucket : TimerBucket) (task : TimerTask) : List LockStep :=
  [.lock] ++
    (if bucket.isRunning then
      if task.expiryTime < bucket.nextExpiryTime then
        (bucket.emplace task).rescheduleTimerLocks sorter meets
      else []
    else []) ++
    [.unlock]

/-- What a call does with the lock. -/
def locks (bucket : TimerBucket) : TimerCall → List LockStep
  | .start => bucket.startLocks sorter meets
  | .stop => bucket.stopLocks
  | .addTask task => bucket.addTaskLocks sorter meets task
  | .cancelTask _ | .getNextExpiry | .getPendingCount => guarded
  | .processExpiredTasks => bucket.processExpiredTasksLocks sorter meets

end TimerBucket

/-! ## Blocks which hold and release the lock -/

theorem holdsAfter_append (held : Bool) (first second : List LockStep) :
    holdsAfter held (first ++ second) = (holdsAfter held first).bind (holdsAfter · second) := by
  induction first generalizing held with
  | nil => rfl
  | cons step rest inductionHypothesis =>
    cases step with
    | lock =>
      cases held with
      | true => rfl
      | false => exact inductionHypothesis true
    | unlock => cases held <;> exact inductionHypothesis false
    | callback id => cases held <;> exact inductionHypothesis _

/-- Steps which find the lock free and leave it free. -/
def Releases (steps : List LockStep) : Prop :=
  holdsAfter false steps = some false

namespace Releases

theorem nil : Releases [] :=
  rfl

theorem append {first second : List LockStep} (one : Releases first) (two : Releases second) :
    Releases (first ++ second) := by
  rw [Releases, holdsAfter_append, one]
  exact two

theorem neverRelocks {steps : List LockStep} (releases : Releases steps) : NeverRelocks steps := by
  rw [NeverRelocks, releases]
  rfl

end Releases

namespace TimerBucket

variable {sorter : Sorter TimerTask.before} {meets : CallMeets}

theorem guarded_releases : Releases guarded :=
  rfl

theorem loopLocks_releases (tasks : List TimerTask) : Releases (loopLocks meets tasks) := by
  induction tasks with
  | nil => exact .nil
  | cons task rest inductionHypothesis =>
    have called : Releases (if task.callback.isSome then [.callback task.id] else []) := by
      split <;> rfl
    have again : Releases (if task.isRepeating then guarded else []) := by
      split <;> rfl
    rw [loopLocks]
    split
    · exact called
    · exact (called.append again).append inductionHypothesis
    · exact (called.append again).append inductionHypothesis

theorem processExpiredTasksLocks_releases (bucket : TimerBucket) :
    Releases (bucket.processExpiredTasksLocks sorter meets) :=
  guarded_releases.append (loopLocks_releases _)

theorem startTimerLocks_releases (bucket : TimerBucket) :
    Releases (bucket.startTimerLocks sorter meets) := by
  refine guarded_releases.append ?_
  split
  · exact .nil
  · split
    · exact bucket.processExpiredTasksLocks_releases
    · exact .nil

/-- With the lock held, `start_timer` locks it first of all. -/
theorem startTimerLocks_relocks (bucket : TimerBucket) :
    holdsAfter true (bucket.startTimerLocks sorter meets) = none :=
  rfl

/-- `add_task` locks twice exactly when it reschedules. -/
theorem neverRelocks_addTask_iff (bucket : TimerBucket) (task : TimerTask) :
    NeverRelocks (bucket.addTaskLocks sorter meets task) ↔
      ¬ (bucket.isRunning = true ∧ task.expiryTime < bucket.nextExpiryTime) := by
  rw [addTaskLocks]
  by_cases running : bucket.isRunning = true
  · by_cases sooner : task.expiryTime < bucket.nextExpiryTime
    · refine iff_of_false (fun never => ?_) (fun calm => calm ⟨running, sooner⟩)
      rw [if_pos running, if_pos sooner, NeverRelocks, List.append_assoc,
        holdsAfter_append] at never
      simp [holdsAfter, holdsAfter_append, rescheduleTimerLocks, startTimerLocks_relocks] at never
    · refine iff_of_true ?_ (fun reschedules => sooner reschedules.2)
      rw [if_pos running, if_neg sooner]
      rfl
  · refine iff_of_true ?_ (fun reschedules => running reschedules.1)
    rw [if_neg running]
    rfl

/-- No call locks twice but an `add_task` which reschedules: on a running bucket,
of a task which expires before `next_expiry_time_`. -/
theorem neverRelocks_iff (sorter : Sorter TimerTask.before) (meets : CallMeets)
    (bucket : TimerBucket) (call : TimerCall) :
    NeverRelocks (bucket.locks sorter meets call) ↔
      ¬ ∃ task, call = .addTask task ∧ bucket.isRunning = true ∧
        task.expiryTime < bucket.nextExpiryTime := by
  cases call with
  | addTask task =>
    simp only [locks, TimerCall.addTask.injEq, exists_eq_left']
    exact bucket.neverRelocks_addTask_iff task
  | start =>
    refine iff_of_true (Releases.neverRelocks ?_) (by simp)
    rw [locks, startLocks]
    split
    · exact .nil
    · exact startTimerLocks_releases _
  | stop =>
    refine iff_of_true (Releases.neverRelocks ?_) (by simp)
    rw [locks, stopLocks]
    split
    · exact guarded_releases
    · exact .nil
  | cancelTask id => exact iff_of_true guarded_releases.neverRelocks (by simp)
  | getNextExpiry => exact iff_of_true guarded_releases.neverRelocks (by simp)
  | getPendingCount => exact iff_of_true guarded_releases.neverRelocks (by simp)
  | processExpiredTasks =>
    exact iff_of_true bucket.processExpiredTasksLocks_releases.neverRelocks (by simp)

/-- The first task of a bucket which has just been started: `add_task` and then
`get_next_expiry` lock. -/
theorem first_task_relocks :
    ¬ ∀ (sorter : Sorter TimerTask.before) (meets : CallMeets) (bucket : TimerBucket)
      (call : TimerCall), NeverRelocks (bucket.locks sorter meets call) := by
  intro neverRelocks
  have never := neverRelocks TimerTask.byPriority ⟨0, 0, fun _ => .returned⟩
    (start TimerTask.byPriority 0 {}).2 (.addTask ⟨1000, some 0, 0, false, .normal, 1, 0⟩)
  revert never
  decide

end TimerBucket

end Foxhttp.Server
