import Foxhttp.Config.Sections
import Foxhttp.Server.TimerCancellation
import Foxhttp.Server.TimerLocks

/-!
# Do timer ids lead back to their bucket?

`schedule_impl` and `cancel` take the bucket of an id from the number of buckets
in `config_`, which `update_config` replaces. The vector of buckets stays as it
was made, with the tasks where they were put. A schedule which comes to
reschedule does not return: its `add_task` waits for the mutex it holds, and so
does every later call on the bucket.
-/

namespace Foxhttp.Server

open Foxhttp.Library
open Foxhttp.Config (TimerManagerConfig)

/-- Does `add_task` lock the mutex it holds? -/
def TimerBucket.relocks (bucket : TimerBucket) (task : TimerTask) : Bool :=
  bucket.isRunning && decide (task.expiryTime < bucket.nextExpiryTime)

theorem TimerBucket.relocks_iff {sorter : Sorter TimerTask.before} {meets : CallMeets}
    {bucket : TimerBucket} {task : TimerTask} :
    bucket.relocks task = true ↔ ¬ NeverRelocks (bucket.addTaskLocks sorter meets task) := by
  rw [neverRelocks_addTask_iff, not_not, relocks, Bool.and_eq_true, decide_eq_true_eq]

namespace TimerManager

/-- `update_config`, as far as a running manager reads the configuration. -/
def updateConfig (manager : TimerManager) (newConfig : TimerManagerConfig) : TimerManager :=
  { manager with bucketCount := newConfig.bucketCount }

/-- The bucket of an id, nothing where its index is a division by zero or beyond
the vector. -/
def bucketOf (manager : TimerManager) (id : TimerId) : Option TimerBucket :=
  if manager.bucketCount = 0 then none else manager.buckets[id % manager.bucketCount]?

/-- What a move schedules, with its caller. -/
def schedules (manager : TimerManager) : ManagerMove → Option (Option Nat × TimerTask)
  | .scheduleAt caller time callback priority =>
      some (caller,
        { expiryTime := time, callback, interval := 0, isRepeating := false, priority,
          id := (manager.nextTimerId + 1) % UInt64.size, createdTime := manager.now })
  | .scheduleEvery caller interval callback priority =>
      some (caller,
        { expiryTime := manager.now + interval * 1000000, callback, interval, isRepeating := true,
          priority, id := (manager.nextTimerId + 1) % UInt64.size, createdTime := manager.now })
  | _ => none

/-- Does the move come to lock the mutex it holds? -/
def relocks (manager : TimerManager) (move : ManagerMove) : Bool :=
  (manager.schedules move).any fun (caller, task) =>
    manager.mayCall caller && (manager.bucketOf task.id).any fun bucket => bucket.relocks task

/-- The bucket whose mutex a move takes. -/
def locks (manager : TimerManager) : ManagerMove → Option Nat
  | .advance _ | .complete .. => none
  | .fire index _ => some index
  | .scheduleAt .. | .scheduleEvery .. =>
      some ((manager.nextTimerId + 1) % UInt64.size % manager.bucketCount)
  | .cancel id => some (id % manager.bucketCount)
  | .invoke thread =>
      match manager.threads[thread]? with
      | some ((index, ⟨_, none, task :: _⟩) :: _) =>
          if task.callback = none ∧ task.isRepeating then some index else none
      | _ => none
  | .leave thread how =>
      match manager.threads[thread]? with
      | some ((index, ⟨_, some task, _⟩) :: _) =>
          if how ≠ .foreignException ∧ task.isRepeating then some index else none
      | _ => none
  | .endPass thread =>
      match manager.threads[thread]? with
      | some ((index, pass) :: _) => if pass.handler then some index else none
      | _ => none

end TimerManager

/-- Does the move take the bucket of an id? -/
def ManagerMove.takesBucket : ManagerMove → Bool
  | .scheduleAt .. | .scheduleEvery .. | .cancel _ => true
  | _ => false

/-- A manager whose configuration may change, and the buckets whose mutex is held
for ever. -/
structure ConfiguredManager where
  manager : TimerManager
  stuck : List Nat := []
deriving DecidableEq, Repr

/-- A move of a manager whose configuration may change. -/
inductive ManagerCall where
  | move (move : ManagerMove)
  | updateConfig (newConfig : TimerManagerConfig)

namespace ConfiguredManager

/-- A schedule whose `add_task` waits for the mutex it holds: the task is in the
bucket, the wait of the bucket is cancelled, and nothing more happens on the
thread of the caller. -/
def hang (world : ConfiguredManager) (move : ManagerMove) : Option ConfiguredManager := do
  let (caller, task) ← world.manager.schedules move
  let bucket ← world.manager.bucketOf task.id
  let index := task.id % world.manager.bucketCount
  some {
    manager := { world.manager.setBucket index (bucket.emplace task).cancelTimer with
      nextTimerId := task.id
      threads := caller.elim world.manager.threads (world.manager.threads.set · []) }
    stuck := index :: world.stuck }

/-- One call. A division by zero ends the history, and a move which takes the
mutex of a stuck bucket is never made. -/
def call (sorter : Sorter TimerTask.before) (world : ConfiguredManager) :
    ManagerCall → Option ConfiguredManager
  | .move move =>
      if move.takesBucket ∧ world.manager.bucketCount = 0 then none
      else if (world.manager.locks move).any fun index => world.stuck.contains index then none
      else if world.manager.relocks move then world.hang move
      else (world.manager.step sorter move).map fun taken => { world with manager := taken.2 }
  | .updateConfig newConfig =>
      some { world with manager := world.manager.updateConfig newConfig }

/-- `cancel`, with what it returns, if it does. -/
def cancelReturning (world : ConfiguredManager) (id : TimerId) :
    Option (Bool × ConfiguredManager) :=
  let index := id % world.manager.bucketCount
  if world.stuck.contains index then none
  else (world.manager.bucketOf id).map fun bucket =>
    ((bucket.cancelTask id).1,
      { world with manager := world.manager.setBucket index (bucket.cancelTask id).2 })

end ConfiguredManager

/-- A task is pending in a bucket. -/
def TimerManager.Pending (manager : TimerManager) (index : Nat) (task : TimerTask) : Prop :=
  ∃ bucket, manager.buckets[index]? = some bucket ∧ task ∈ bucket.pendingTasks

/-- Every id has a bucket, and a pending task is found there: `cancel` returns
`true`, and no task of the id is left. -/
structure LeadsBack (world : ConfiguredManager) : Prop where
  divides : 0 < world.manager.bucketCount
  inRange : ∀ id, id % world.manager.bucketCount < world.manager.buckets.length
  removes : ∀ {index task}, world.manager.Pending index task →
    ∃ after, world.cancelReturning task.id = some (true, after) ∧
      ∀ {place other}, after.manager.Pending place other → other.id ≠ task.id

/-- The tasks of a pass which it may still put back. -/
def Pass.returning (pass : Pass) : List TimerTask :=
  (pass.running.toList ++ pass.remaining).filter (·.isRepeating)

/-- What is pending, and what a pass may still put back, has a property. -/
structure Everywhere (property : Nat → TimerTask → Prop) (manager : TimerManager) : Prop where
  pending : ∀ {index task}, manager.Pending index task → property index task
  returning : ∀ {thread index pass task}, thread ∈ manager.threads → (index, pass) ∈ thread →
    task ∈ pass.returning → property index task

/-- A number of buckets by which every id has one, and every task is where its id
leads. -/
def keepsPlaces (manager : TimerManager) (bucketCount : Nat) : Bool :=
  decide (0 < bucketCount ∧ bucketCount ≤ manager.buckets.length) &&
    (manager.buckets.zipIdx.all fun placed =>
      placed.1.pendingTasks.all fun task => task.id % bucketCount == placed.2) &&
    manager.threads.all fun thread => thread.all fun pass =>
      pass.2.returning.all fun task => task.id % bucketCount == pass.1

/-- The configuration is updated to numbers of buckets which keep the tasks where
their ids lead, and no schedule comes to reschedule. -/
def keepsPlacesUnlocked (_ : List ManagerCall) (world : ConfiguredManager) :
    Option ManagerCall → Bool
  | some (.updateConfig newConfig) => keepsPlaces world.manager newConfig.bucketCount
  | some (.move move) => !world.manager.relocks move
  | none => true

/-! ## What a move leaves where it is -/

namespace Everywhere

variable {sorter : Sorter TimerTask.before} {property : Nat → TimerTask → Prop}
  {manager next : TimerManager} {index : Nat} {bucket changed : TimerBucket}

theorem setBucket (everywhere : Everywhere property manager)
    (holds : ∀ task ∈ changed.pendingTasks, property index task) :
    Everywhere property (manager.setBucket index changed) where
  pending := by
    rintro other task ⟨held, found, member⟩
    by_cases same : other = index
    · subst same
      have inside : other < manager.buckets.length := by
        have within := (List.getElem?_eq_some_iff.mp found).1
        simpa [TimerManager.setBucket] using within
      simp only [TimerManager.setBucket, List.getElem?_set_self inside,
        Option.some.injEq] at found
      exact holds task (found ▸ member)
    · simp only [TimerManager.setBucket, List.getElem?_set_ne (Ne.symm same)] at found
      exact everywhere.pending ⟨held, found, member⟩
  returning := everywhere.returning

theorem begin {caller : Option Nat} {pass : Pass} (everywhere : Everywhere property manager)
    (holds : ∀ task ∈ pass.returning, property index task) :
    Everywhere property (manager.begin caller (index, pass)) where
  pending := everywhere.pending
  returning := by
    intro thread other held task running isPass member
    rcases TimerManager.mem_begin running with old | ⟨old, isOld, rfl⟩
    · exact everywhere.returning old isPass member
    · rcases List.mem_cons.mp isPass with same | below
      · cases same
        exact holds task member
      · rcases isOld with isOld | rfl
        · exact everywhere.returning isOld below member
        · cases below

/-- A bucket changes and may begin a pass, with tasks which have the property. -/
theorem continued {caller : Option Nat} {handler : Bool}
    {result : Option (List TimerTask) × TimerBucket} (everywhere : Everywhere property manager)
    (holds : ∀ task, task ∈ result.1.getD [] ∨ task ∈ result.2.pendingTasks →
      property index task) :
    Everywhere property (manager.continued caller index handler result) := by
  have kept := everywhere.setBucket fun task member => holds task (.inr member)
  rw [TimerManager.continued]
  split
  · exact kept
  · rename_i expired isExpired
    refine kept.begin fun task member => holds task (.inl ?_)
    rw [isExpired]
    exact List.mem_of_mem_filter member

theorem setThread {thread : Nat} {passes fewer : List BucketPass}
    (everywhere : Everywhere property manager) (isThread : manager.threads[thread]? = some passes)
    (held : ∀ {index pass task}, (index, pass) ∈ fewer → task ∈ pass.returning →
      ∃ old, (index, old) ∈ passes ∧ task ∈ old.returning) :
    Everywhere property { manager with threads := manager.threads.set thread fewer } where
  pending := everywhere.pending
  returning := by
    intro changed index pass task running isPass member
    rcases List.mem_or_eq_of_mem_set running with old | rfl
    · exact everywhere.returning old isPass member
    · obtain ⟨old, isOld, isHeld⟩ := held isPass member
      exact everywhere.returning (List.mem_of_getElem? isThread) isOld isHeld

/-- The uppermost pass of a thread is done with one of its tasks. -/
theorem finish {thread : Nat} {task : TimerTask} {pass rest : Pass} {below : List BucketPass}
    {event : Option TimerEvent} (everywhere : Everywhere property manager)
    (moves : ∀ index task time, property index task →
      property index { task with expiryTime := time })
    (isThread : manager.threads[thread]? = some ((index, pass) :: below))
    (isHeld : task ∈ pass.running.toList ++ pass.remaining)
    (fewer : ∀ other ∈ rest.returning, other ∈ pass.returning)
    (moved : manager.finish thread index task ((index, rest) :: below) = some (event, next)) :
    Everywhere property next := by
  obtain ⟨bucket, found, same⟩ := Option.map_eq_some_iff.mp moved
  cases same
  have kept : Everywhere property (manager.setBucket index (bucket.finishTask task)) := by
    refine everywhere.setBucket fun other member => ?_
    rw [TimerBucket.finishTask] at member
    split at member
    · rename_i repeating
      rcases TimerBucket.mem_emplace member with old | rfl
      · exact everywhere.pending ⟨bucket, found, old⟩
      · exact moves _ _ _ (everywhere.returning (List.mem_of_getElem? isThread)
          List.mem_cons_self (List.mem_filter.mpr ⟨isHeld, repeating⟩))
    · exact everywhere.pending ⟨bucket, found, member⟩
  refine kept.setThread isThread fun {other held task} isPass member => ?_
  rcases List.mem_cons.mp isPass with same | isBelow
  · cases same
    exact ⟨pass, List.mem_cons_self, fewer task member⟩
  · exact ⟨held, List.mem_cons_of_mem _ isBelow, member⟩

/-- A task enters the bucket of its id, which may begin a pass. -/
theorem scheduleImpl {caller : Option Nat} {time interval : Int} {callback : Option CallbackId}
    {isRepeating : Bool} {priority : TimerPriority} {event : Option TimerEvent}
    (everywhere : Everywhere property manager)
    (scheduled : ∀ task : TimerTask, property (task.id % manager.bucketCount) task)
    (moved : manager.scheduleImpl sorter caller time interval callback isRepeating priority =
      some (event, next)) : Everywhere property next := by
  rw [TimerManager.scheduleImpl] at moved
  split at moved
  · obtain ⟨bucket, found, same⟩ := Option.map_eq_some_iff.mp moved
    obtain ⟨-, rfl⟩ := Prod.mk.inj same
    have counted : Everywhere property
        { manager with nextTimerId := (manager.nextTimerId + 1) % UInt64.size } :=
      ⟨everywhere.pending, everywhere.returning⟩
    refine counted.continued fun task held => ?_
    rcases TimerBucket.mem_addTask held with pending | ⟨rfl, -⟩
    · exact everywhere.pending ⟨bucket, found, pending⟩
    · have placed := scheduled
        { expiryTime := time, callback, interval, isRepeating, priority,
          id := (manager.nextTimerId + 1) % UInt64.size, createdTime := manager.now }
      exact placed
  · cases moved

/-- The task which runs and those behind it are still held when it has finished. -/
theorem finishRunning {thread : Nat} {handler : Bool} {task : TimerTask}
    {remaining : List TimerTask} {below : List BucketPass} {event : Option TimerEvent}
    (everywhere : Everywhere property manager)
    (moves : ∀ index task time, property index task →
      property index { task with expiryTime := time })
    (isThread : manager.threads[thread]? = some ((index, ⟨handler, some task, remaining⟩) :: below))
    (moved : manager.finish thread index task ((index, ⟨handler, none, remaining⟩) :: below) =
      some (event, next)) : Everywhere property next := by
  refine everywhere.finish moves isThread List.mem_cons_self (fun other member => ?_) moved
  exact List.mem_filter.mpr ⟨List.mem_cons_of_mem _ (List.mem_filter.mp member).1,
    (List.mem_filter.mp member).2⟩

theorem invoke {thread : Nat} {event : Option TimerEvent} (everywhere : Everywhere property manager)
    (moves : ∀ index task time, property index task →
      property index { task with expiryTime := time })
    (moved : manager.invoke thread = some (event, next)) : Everywhere property next := by
  rw [TimerManager.invoke] at moved
  split at moved
  · rename_i index handler task remaining below isThread
    split at moved
    · cases moved
      refine everywhere.setThread isThread fun {other pass held} isPass member => ?_
      rcases List.mem_cons.mp isPass with same | isBelow
      · cases same
        exact ⟨_, List.mem_cons_self, member⟩
      · exact ⟨pass, List.mem_cons_of_mem _ isBelow, member⟩
    · refine everywhere.finish moves isThread List.mem_cons_self (fun other member => ?_) moved
      exact List.mem_filter.mpr ⟨List.mem_cons_of_mem _ (List.mem_filter.mp member).1,
        (List.mem_filter.mp member).2⟩
  · cases moved

theorem leave {thread : Nat} {how : CallbackEnd} {event : Option TimerEvent}
    (everywhere : Everywhere property manager)
    (moves : ∀ index task time, property index task →
      property index { task with expiryTime := time })
    (moved : manager.leave thread how = some (event, next)) : Everywhere property next := by
  rw [TimerManager.leave] at moved
  split at moved
  · rename_i index handler task remaining below isThread
    cases how with
    | returned => exact everywhere.finishRunning moves isThread moved
    | stdException => exact everywhere.finishRunning moves isThread moved
    | foreignException =>
        cases moved
        exact everywhere.setThread isThread fun {other pass held} isPass member =>
          ⟨pass, List.mem_cons_of_mem _ isPass, member⟩
  · cases moved

theorem endPass {thread : Nat} {event : Option TimerEvent}
    (everywhere : Everywhere property manager)
    (moved : manager.endPass sorter thread = some (event, next)) : Everywhere property next := by
  rw [TimerManager.endPass] at moved
  split at moved
  · rename_i index handler below isThread
    have ended : Everywhere property
        { manager with threads := manager.threads.set thread below } :=
      everywhere.setThread isThread fun {other pass held} isPass member =>
        ⟨pass, List.mem_cons_of_mem _ isPass, member⟩
    split at moved
    · obtain ⟨bucket, found, same⟩ := Option.map_eq_some_iff.mp moved
      cases same
      exact ended.continued fun task held =>
        everywhere.pending ⟨bucket, found, TimerBucket.mem_startTimer held⟩
    · cases moved
      exact ended
  · cases moved

/-- A move of the manager keeps what every task has, if what it schedules has it. -/
theorem step {move : ManagerMove} {event : Option TimerEvent}
    (everywhere : Everywhere property manager)
    (moves : ∀ index task time, property index task →
      property index { task with expiryTime := time })
    (scheduled : ∀ task : TimerTask, property (task.id % manager.bucketCount) task)
    (moved : manager.step sorter move = some (event, next)) : Everywhere property next := by
  cases move with
  | advance duration =>
      cases moved
      exact ⟨everywhere.pending, everywhere.returning⟩
  | complete index place =>
      obtain ⟨bucket, found, rest⟩ := Option.bind_eq_some_iff.mp moved
      obtain ⟨completed, isCompleted, same⟩ := Option.bind_eq_some_iff.mp rest
      cases same
      refine everywhere.setBucket fun task member => everywhere.pending ⟨bucket, found, ?_⟩
      rwa [← TimerBucket.completeWait_pendingTasks isCompleted]
  | fire index place =>
      obtain ⟨bucket, found, rest⟩ := Option.bind_eq_some_iff.mp moved
      obtain ⟨result, fired, same⟩ := Option.bind_eq_some_iff.mp rest
      cases same
      exact everywhere.continued fun task held =>
        everywhere.pending ⟨bucket, found, TimerBucket.mem_fireWait fired held⟩
  | scheduleAt caller time callback priority => exact everywhere.scheduleImpl scheduled moved
  | scheduleEvery caller interval callback priority =>
      exact everywhere.scheduleImpl scheduled moved
  | cancel id =>
      obtain ⟨bucket, found, same⟩ := Option.map_eq_some_iff.mp moved
      cases same
      exact everywhere.setBucket fun task member =>
        everywhere.pending ⟨bucket, found, List.mem_of_mem_filter member⟩
  | invoke thread => exact everywhere.invoke moves moved
  | leave thread how => exact everywhere.leave moves moved
  | endPass thread => exact everywhere.endPass moved

end Everywhere

namespace TimerManager

variable {sorter : Sorter TimerTask.before} {manager next : TimerManager}

@[simp] theorem setBucket_length (index : Nat) (bucket : TimerBucket) :
    (manager.setBucket index bucket).buckets.length = manager.buckets.length :=
  List.length_set

theorem continued_length (caller : Option Nat) (index : Nat) (handler : Bool)
    (result : Option (List TimerTask) × TimerBucket) :
    (manager.continued caller index handler result).buckets.length = manager.buckets.length := by
  rw [continued]
  split
  · exact setBucket_length _ _
  · exact setBucket_length _ _

theorem finish_length {thread index : Nat} {task : TimerTask} {passes : List BucketPass}
    {event : Option TimerEvent}
    (moved : manager.finish thread index task passes = some (event, next)) :
    next.buckets.length = manager.buckets.length := by
  obtain ⟨bucket, -, same⟩ := Option.map_eq_some_iff.mp moved
  cases same
  exact setBucket_length _ _

/-- The vector of buckets stays as long as it was made. -/
theorem step_length {move : ManagerMove} {event : Option TimerEvent}
    (moved : manager.step sorter move = some (event, next)) :
    next.buckets.length = manager.buckets.length := by
  have schedules {caller : Option Nat} {time interval : Int} {callback : Option CallbackId}
      {isRepeating : Bool} {priority : TimerPriority}
      (moved : manager.scheduleImpl sorter caller time interval callback isRepeating priority =
        some (event, next)) : next.buckets.length = manager.buckets.length := by
    rw [scheduleImpl] at moved
    split at moved
    · obtain ⟨bucket, -, same⟩ := Option.map_eq_some_iff.mp moved
      obtain ⟨-, rfl⟩ := Prod.mk.inj same
      exact continued_length _ _ _ _
    · cases moved
  cases move with
  | advance duration =>
      cases moved
      rfl
  | complete index place =>
      obtain ⟨bucket, -, rest⟩ := Option.bind_eq_some_iff.mp moved
      obtain ⟨completed, -, same⟩ := Option.bind_eq_some_iff.mp rest
      cases same
      exact setBucket_length _ _
  | fire index place =>
      obtain ⟨bucket, -, rest⟩ := Option.bind_eq_some_iff.mp moved
      obtain ⟨result, -, same⟩ := Option.bind_eq_some_iff.mp rest
      cases same
      exact continued_length _ _ _ _
  | scheduleAt caller time callback priority => exact schedules moved
  | scheduleEvery caller interval callback priority => exact schedules moved
  | cancel id =>
      obtain ⟨bucket, -, same⟩ := Option.map_eq_some_iff.mp moved
      cases same
      exact setBucket_length _ _
  | invoke thread =>
      change manager.invoke thread = some (event, next) at moved
      rw [invoke] at moved
      split at moved
      · split at moved
        · cases moved
          rfl
        · exact finish_length moved
      · cases moved
  | leave thread how =>
      change manager.leave thread how = some (event, next) at moved
      rw [leave] at moved
      split at moved
      · cases how with
        | returned => exact finish_length moved
        | stdException => exact finish_length moved
        | foreignException =>
            cases moved
            rfl
      · cases moved
  | endPass thread =>
      change manager.endPass sorter thread = some (event, next) at moved
      rw [endPass] at moved
      split at moved
      · split at moved
        · obtain ⟨bucket, -, same⟩ := Option.map_eq_some_iff.mp moved
          cases same
          exact continued_length _ _ _ _
        · cases moved
          rfl
      · cases moved

end TimerManager

/-! ## Every id leads back to its bucket -/

/-- No bucket is stuck, every id has a bucket, and every task is in that of its
id. -/
structure WellPlaced (world : ConfiguredManager) : Prop where
  free : world.stuck = []
  divides : 0 < world.manager.bucketCount
  inRange : world.manager.bucketCount ≤ world.manager.buckets.length
  everywhere :
    Everywhere (fun index task => task.id % world.manager.bucketCount = index) world.manager

namespace WellPlaced

variable {sorter : Sorter TimerTask.before} {world next : ConfiguredManager}

theorem running (sorter : Sorter TimerTask.before) {bucketCount : Nat} (now : Int)
    (divides : 0 < bucketCount) : WellPlaced ⟨.running sorter bucketCount now, []⟩ where
  free := rfl
  divides := divides
  inRange := by simp [TimerManager.running]
  everywhere :=
    { pending := by
        rintro index task ⟨bucket, isBucket, member⟩
        rw [List.eq_of_mem_replicate (List.mem_of_getElem? isBucket)] at member
        cases member
      returning := fun running => by cases running }

theorem move {move : ManagerMove} {event : Option TimerEvent} {manager : TimerManager}
    (placed : WellPlaced world) (moved : world.manager.step sorter move = some (event, manager)) :
    WellPlaced { world with manager } := by
  have sameCount : manager.bucketCount = world.manager.bucketCount :=
    (TimerManager.flows_step moved).bucketCount
  have everywhere := placed.everywhere.step (fun _ _ _ isPlaced => isPlaced) (fun _ => rfl) moved
  refine ⟨placed.free, sameCount ▸ placed.divides, ?_, ?_⟩
  · rw [sameCount, TimerManager.step_length moved]
    exact placed.inRange
  · rw [sameCount]
    exact everywhere

theorem updateConfig {newConfig : TimerManagerConfig} (placed : WellPlaced world)
    (keeps : keepsPlaces world.manager newConfig.bucketCount = true) :
    WellPlaced { world with manager := world.manager.updateConfig newConfig } := by
  simp only [keepsPlaces, Bool.and_eq_true, decide_eq_true_eq, List.all_eq_true,
    beq_iff_eq] at keeps
  obtain ⟨⟨⟨divides, inRange⟩, pending⟩, returning⟩ := keeps
  refine ⟨placed.free, divides, inRange, ⟨?_, fun running isPass member => ?_⟩⟩
  · rintro index task ⟨bucket, isBucket, member⟩
    exact pending (bucket, index) (List.mem_zipIdx_iff_getElem?.mpr isBucket) task member
  · exact returning _ running _ isPass _ member

theorem call {call : ManagerCall} {calls : List ManagerCall} (placed : WellPlaced world)
    (called : world.call sorter call = some next)
    (allowed : keepsPlacesUnlocked calls world (some call) = true) : WellPlaced next := by
  cases call with
  | move move =>
      have returns : world.manager.relocks move = false := by
        simpa [keepsPlacesUnlocked] using allowed
      rw [ConfiguredManager.call] at called
      split at called
      · cases called
      · split at called
        · cases called
        · rw [returns, if_neg Bool.false_ne_true] at called
          obtain ⟨taken, moved, same⟩ := Option.map_eq_some_iff.mp called
          cases same
          exact placed.move moved
  | updateConfig newConfig =>
      cases called
      exact placed.updateConfig allowed

theorem leadsBack (placed : WellPlaced world) : LeadsBack world where
  divides := placed.divides
  inRange id := Nat.lt_of_lt_of_le (Nat.mod_lt id placed.divides) placed.inRange
  removes := by
    rintro index task ⟨bucket, isBucket, member⟩
    have leads : task.id % world.manager.bucketCount = index :=
      placed.everywhere.pending ⟨bucket, isBucket, member⟩
    have found : world.manager.bucketOf task.id = some bucket := by
      rw [TimerManager.bucketOf, if_neg (Nat.ne_of_gt placed.divides), leads, isBucket]
    have erased : (bucket.cancelTask task.id).1 = true :=
      List.any_eq_true.mpr ⟨task, member, by simp⟩
    refine ⟨{ world with manager := world.manager.setBucket index (bucket.cancelTask task.id).2 },
      ?_, ?_⟩
    · simp [ConfiguredManager.cancelReturning, placed.free, found, erased, leads]
    · rintro place other ⟨held, isHeld, isPending⟩ same
      by_cases here : place = index
      · subst here
        have inside := (List.getElem?_eq_some_iff.mp isBucket).1
        simp only [TimerManager.setBucket, List.getElem?_set_self inside,
          Option.some.injEq] at isHeld
        subst isHeld
        have different := (List.mem_filter.mp isPending).2
        simp [same] at different
      · simp only [TimerManager.setBucket, List.getElem?_set_ne (Ne.symm here)] at isHeld
        have placedThere := placed.everywhere.pending ⟨held, isHeld, isPending⟩
        rw [same] at placedThere
        exact here (placedThere.symm.trans leads)

end WellPlaced

/-- A task of the id is in the bucket, the one added or an older one. -/
theorem TimerBucket.emplace_holds (bucket : TimerBucket) (task : TimerTask) :
    ∃ held ∈ (bucket.emplace task).cancelTimer.pendingTasks, held.id = task.id := by
  rw [emplace]
  split
  · rename_i present
    obtain ⟨other, member, same⟩ := List.any_eq_true.mp present
    exact ⟨other, member, beq_iff_eq.mp same⟩
  · exact ⟨task, List.mem_append_right _ List.mem_cons_self, rfl⟩

theorem TimerManager.setBucket_bucketOf {manager : TimerManager} {id : TimerId}
    {bucket : TimerBucket} (found : manager.bucketOf id = some bucket) (changed : TimerBucket) :
    (manager.setBucket (id % manager.bucketCount) changed).buckets[id % manager.bucketCount]? =
      some changed := by
  rw [bucketOf] at found
  split at found
  · cases found
  · exact List.getElem?_set_self (List.getElem?_eq_some_iff.mp found).1

/-- A schedule which comes to reschedule leaves a task whose id leads nowhere. -/
theorem relocking_leads_astray {sorter : Sorter TimerTask.before} {move : ManagerMove}
    {world next : ConfiguredManager} (relocks : world.manager.relocks move = true)
    (called : world.call sorter (.move move) = some next) : ¬ LeadsBack next := by
  intro leadsBack
  rw [ConfiguredManager.call] at called
  split at called
  · cases called
  · split at called
    · cases called
    · obtain ⟨⟨caller, task⟩, -, rest⟩ := Option.bind_eq_some_iff.mp called
      obtain ⟨bucket, found, same⟩ := Option.bind_eq_some_iff.mp rest
      cases same
      obtain ⟨held, member, sameId⟩ := bucket.emplace_holds task
      obtain ⟨after, removed, -⟩ := leadsBack.removes
        ⟨_, world.manager.setBucket_bucketOf found _, member⟩
      -- its mutex is held, so that no `cancel` returns
      simp [ConfiguredManager.cancelReturning, sameId, TimerManager.setBucket] at removed

end Foxhttp.Server
