import Foxhttp.Server.TimerCancellation

/-!
# Is a stopped bucket silent?

`stop` clears what is pending. The tasks of a pass in progress are not among
them, and `process_expired_tasks` does not look at the running flag after each
callback: it goes on calling them, and puts the repeating ones back.
-/

namespace Foxhttp.Server

open Foxhttp.Library

/-- A bucket which any thread may call, the clock, and the passes in progress on
every thread, the uppermost first. -/
structure SharedBucket where
  bucket : TimerBucket := {}
  now : Int := 0
  threads : List (List Pass) := []
  deriving DecidableEq, Repr

/-- What a history tells. -/
inductive BucketEvent where
  | started
  | stopped
  | called (id : TimerId)
  deriving DecidableEq, Repr

/-- One move. A caller is a thread which runs a callback, or any other. -/
inductive BucketMove where
  | advance (duration : Nat)
  | complete (place : Nat)
  | fire (place : Nat)
  | start (caller : Option Nat)
  | stop
  | addTask (caller : Option Nat) (task : TimerTask)
  | cancelTask (id : TimerId)
  | invoke (thread : Nat)
  | leave (thread : Nat) (how : CallbackEnd)
  | endPass (thread : Nat)
  deriving DecidableEq, Repr

namespace SharedBucket

variable (sorter : Sorter TimerTask.before)

/-- Does the caller run a callback, or is it a thread of its own? -/
def mayCall (world : SharedBucket) : Option Nat → Bool
  | none => true
  | some thread =>
      match world.threads[thread]? with
      | some (pass :: _) => pass.running.isSome
      | _ => false

/-- Go on with what the bucket became, and the pass it may have begun on the
thread of the caller. -/
def continued (world : SharedBucket) (caller : Option Nat) (handler : Bool) :
    Option (List TimerTask) × TimerBucket → SharedBucket
  | (none, bucket) => { world with bucket }
  | (some expired, bucket) =>
      { world with
        bucket
        threads :=
          match caller with
          | none => world.threads ++ [[{ handler, remaining := expired }]]
          | some thread =>
              world.threads.modify thread ({ handler, remaining := expired } :: ·) }

/-- A task is done with, and is put back when it repeats. -/
def finish (world : SharedBucket) (thread : Nat) (task : TimerTask) (passes : List Pass) :
    SharedBucket :=
  { world with
    bucket := world.bucket.finishTask task, threads := world.threads.set thread passes }

/-- The next turn of the loop of the uppermost pass of a thread. -/
def invoke (world : SharedBucket) (thread : Nat) : Option (Option BucketEvent × SharedBucket) :=
  match world.threads[thread]? with
  | some (⟨handler, none, task :: remaining⟩ :: below) =>
      match task.callback with
      | some _ =>
          some (some (.called task.id), { world with
            threads := world.threads.set thread (⟨handler, some task, remaining⟩ :: below) })
      | none => some (none, world.finish thread task (⟨handler, none, remaining⟩ :: below))
  | _ => none

/-- The callback of the uppermost pass of a thread ends. -/
def leave (world : SharedBucket) (thread : Nat) (how : CallbackEnd) :
    Option (Option BucketEvent × SharedBucket) :=
  match world.threads[thread]? with
  | some (⟨handler, some task, remaining⟩ :: below) =>
      match how with
      | .returned | .stdException =>
          some (none, world.finish thread task (⟨handler, none, remaining⟩ :: below))
      | .foreignException =>
          some (none, { world with threads := world.threads.set thread below })
  | _ => none

/-- The loop of the uppermost pass of a thread ends. -/
def endPass (world : SharedBucket) (thread : Nat) : Option (Option BucketEvent × SharedBucket) :=
  match world.threads[thread]? with
  | some (⟨handler, none, []⟩ :: below) =>
      let rest := { world with threads := world.threads.set thread below }
      if handler then
        some (none, rest.continued (some thread) false (world.bucket.startTimer sorter world.now))
      else some (none, rest)
  | _ => none

/-- One move. -/
def step (world : SharedBucket) : BucketMove → Option (Option BucketEvent × SharedBucket)
  | .advance duration => some (none, { world with now := world.now + duration })
  | .complete place =>
      (world.bucket.completeWait world.now place).map fun bucket => (none, { world with bucket })
  | .fire place =>
      (world.bucket.fireWait sorter world.now place).map fun result =>
        (none, world.continued none true result)
  | .start caller =>
      if world.mayCall caller then
        some (some .started, world.continued caller false (world.bucket.start sorter world.now))
      else none
  | .stop => some (some .stopped, { world with bucket := world.bucket.stop })
  | .addTask caller task =>
      if world.mayCall caller then
        some (none, world.continued caller false (world.bucket.addTask sorter world.now task).2)
      else none
  | .cancelTask id => some (none, { world with bucket := (world.bucket.cancelTask id).2 })
  | .invoke thread => world.invoke thread
  | .leave thread how => world.leave thread how
  | .endPass thread => world.endPass sorter thread

end SharedBucket

/-- The histories of a bucket from its construction. -/
def bucketSystem (sorter : Sorter TimerTask.before) :
    System SharedBucket BucketMove BucketEvent where
  Initial world := ∃ now, world = { now }
  step world move := world.step sorter move

/-- While the bucket is stopped and no pass is in progress nothing is pending,
and after a `stop` no callback is called until the next `start`. -/
structure StaysStopped (events : List BucketEvent) (world : SharedBucket) : Prop where
  empty : world.bucket.isRunning = false → (∀ thread ∈ world.threads, thread = []) →
    world.bucket.pendingTasks = []
  silent : ∀ before between after id,
    events = before ++ .stopped :: between ++ .called id :: after → .started ∈ between

/-- A pass has no callback left to call, and no task to put back. -/
def Pass.spent (pass : Pass) : Bool :=
  (pass.remaining.all fun task => !(task.callback.isSome || task.isRepeating)) &&
    pass.running.all fun task => !task.isRepeating

/-- A running bucket is stopped while the passes in progress are spent. -/
def stopsOutOfPasses (_ : List BucketEvent) (world : SharedBucket) : Option BucketEvent → Bool
  | some .stopped =>
      !world.bucket.isRunning || world.threads.all fun thread => thread.all Pass.spent
  | _ => true

/-! ## The running flag -/

namespace TimerBucket

variable {sorter : Sorter TimerTask.before} {bucket : TimerBucket} {now : Int}

@[simp] theorem startTimer_isRunning :
    (bucket.startTimer sorter now).2.isRunning = bucket.isRunning := by
  rw [startTimer]
  split
  · rfl
  · split
    · rfl
    · rfl

theorem start_isRunning : (bucket.start sorter now).2.isRunning = true := by
  rw [start]
  split
  · assumption
  · rw [startTimer_isRunning]

theorem stop_isRunning : bucket.stop.isRunning = false := by
  rw [stop]
  split
  · rfl
  · rename_i stopped
    simpa using stopped

theorem addTask_isRunning (task : TimerTask) :
    (bucket.addTask sorter now task).2.2.isRunning = bucket.isRunning := by
  rw [addTask]
  split
  · dsimp only
    split
    · rw [startTimer_isRunning]
      exact emplace_isRunning task
    · exact emplace_isRunning task
  · rfl

theorem completeWait_isRunning {place : Nat} {completed : TimerBucket}
    (isCompleted : bucket.completeWait now place = some completed) :
    completed.isRunning = bucket.isRunning := by
  rw [completeWait] at isCompleted
  split at isCompleted
  · split at isCompleted
    · cases isCompleted
      rfl
    · cases isCompleted
  · cases isCompleted

theorem fireWait_isRunning {place : Nat} {result : Option (List TimerTask) × TimerBucket}
    (fired : bucket.fireWait sorter now place = some result) :
    result.2.isRunning = bucket.isRunning := by
  rw [fireWait] at fired
  split at fired
  · split at fired
    · dsimp only at fired
      split at fired
      · cases fired
        rfl
      · cases fired
        rfl
    · cases fired
  · cases fired

/-- A stopped bucket begins no pass, and has what it had pending. -/
theorem fireWait_stopped {place : Nat} {result : Option (List TimerTask) × TimerBucket}
    (fired : bucket.fireWait sorter now place = some result) (stopped : bucket.isRunning = false) :
    result.1 = none ∧ result.2.pendingTasks = bucket.pendingTasks := by
  rw [fireWait] at fired
  split at fired
  · split at fired
    · dsimp only at fired
      rw [stopped, if_neg Bool.false_ne_true] at fired
      cases fired
      exact ⟨rfl, rfl⟩
    · cases fired
  · cases fired

theorem startTimer_nothing (nothing : bucket.pendingTasks = []) :
    bucket.startTimer sorter now = (none, bucket) := by
  rw [startTimer, getNextExpiry, if_pos nothing]

end TimerBucket

/-- The running flag after a move. -/
def runningAfter (running : Bool) : Option BucketEvent → Bool
  | some .started => true
  | some .stopped => false
  | _ => running

/-! ## The invariant -/

/-- A stopped bucket has nothing pending, and its passes are spent. -/
structure Quiet (world : SharedBucket) : Prop where
  pending : world.bucket.pendingTasks = []
  passes : ∀ thread ∈ world.threads, ∀ pass ∈ thread, pass.spent = true

namespace SharedBucket

variable {sorter : Sorter TimerTask.before} {world next : SharedBucket}

theorem continued_bucket (caller : Option Nat) (handler : Bool)
    (result : Option (List TimerTask) × TimerBucket) :
    (world.continued caller handler result).bucket = result.2 := by
  obtain ⟨_ | expired, bucket⟩ := result
  · rfl
  · rfl

/-- A turn of the loop calls the next task, or is done with it. -/
theorem invoke_cases {thread : Nat} {event : Option BucketEvent}
    (moved : world.invoke thread = some (event, next)) : ∃ handler task remaining below,
    world.threads[thread]? = some (⟨handler, none, task :: remaining⟩ :: below) ∧
      ((task.callback ≠ none ∧ event = some (.called task.id) ∧ next = { world with
          threads := world.threads.set thread (⟨handler, some task, remaining⟩ :: below) }) ∨
        event = none ∧ next = world.finish thread task (⟨handler, none, remaining⟩ :: below)) := by
  rw [invoke] at moved
  split at moved
  · rename_i handler task remaining below isThread
    refine ⟨handler, task, remaining, below, isThread, ?_⟩
    split at moved
    · rename_i isCallback
      cases moved
      exact .inl ⟨by rw [isCallback]; exact Option.some_ne_none _, rfl, rfl⟩
    · cases moved
      exact .inr ⟨rfl, rfl⟩
  · cases moved

/-- A callback ends with its task, or takes its pass along. -/
theorem leave_cases {thread : Nat} {how : CallbackEnd} {event : Option BucketEvent}
    (moved : world.leave thread how = some (event, next)) :
    event = none ∧ ∃ handler task remaining below,
      world.threads[thread]? = some (⟨handler, some task, remaining⟩ :: below) ∧
        (next = world.finish thread task (⟨handler, none, remaining⟩ :: below) ∨
          next = { world with threads := world.threads.set thread below }) := by
  rw [leave] at moved
  split at moved
  · rename_i handler task remaining below isThread
    cases how with
    | returned =>
        cases moved
        exact ⟨rfl, handler, task, remaining, below, isThread, .inl rfl⟩
    | stdException =>
        cases moved
        exact ⟨rfl, handler, task, remaining, below, isThread, .inl rfl⟩
    | foreignException =>
        cases moved
        exact ⟨rfl, handler, task, remaining, below, isThread, .inr rfl⟩
  · cases moved

/-- A pass which ends leaves its thread, and starts the timer behind a handler. -/
theorem endPass_cases {thread : Nat} {event : Option BucketEvent}
    (moved : world.endPass sorter thread = some (event, next)) :
    event = none ∧ ∃ handler below,
      world.threads[thread]? = some (⟨handler, none, []⟩ :: below) ∧
        (next = { world with threads := world.threads.set thread below } ∨
          next = continued { world with threads := world.threads.set thread below } (some thread)
            false (world.bucket.startTimer sorter world.now)) := by
  rw [endPass] at moved
  split at moved
  · rename_i handler below isThread
    split at moved
    · cases moved
      exact ⟨rfl, handler, below, isThread, .inr rfl⟩
    · cases moved
      exact ⟨rfl, handler, below, isThread, .inl rfl⟩
  · cases moved

theorem invoke_isRunning {thread : Nat} {event : Option BucketEvent}
    (moved : world.invoke thread = some (event, next)) :
    next.bucket.isRunning = runningAfter world.bucket.isRunning event := by
  obtain ⟨handler, task, remaining, below, -, ⟨-, rfl, rfl⟩ | ⟨rfl, rfl⟩⟩ := invoke_cases moved
  · rfl
  · exact TimerBucket.finishTask_isRunning _

theorem leave_isRunning {thread : Nat} {how : CallbackEnd} {event : Option BucketEvent}
    (moved : world.leave thread how = some (event, next)) :
    next.bucket.isRunning = runningAfter world.bucket.isRunning event := by
  obtain ⟨rfl, handler, task, remaining, below, -, rfl | rfl⟩ := leave_cases moved
  · exact TimerBucket.finishTask_isRunning _
  · rfl

theorem endPass_isRunning {thread : Nat} {event : Option BucketEvent}
    (moved : world.endPass sorter thread = some (event, next)) :
    next.bucket.isRunning = runningAfter world.bucket.isRunning event := by
  obtain ⟨rfl, handler, below, -, rfl | rfl⟩ := endPass_cases moved
  · rfl
  · rw [continued_bucket, TimerBucket.startTimer_isRunning]
    rfl

theorem step_isRunning {move : BucketMove} {event : Option BucketEvent}
    (moved : world.step sorter move = some (event, next)) :
    next.bucket.isRunning = runningAfter world.bucket.isRunning event := by
  cases move with
  | advance duration =>
      cases moved
      rfl
  | complete place =>
      obtain ⟨completed, isCompleted, same⟩ := Option.map_eq_some_iff.mp moved
      cases same
      exact TimerBucket.completeWait_isRunning isCompleted
  | fire place =>
      obtain ⟨result, fired, same⟩ := Option.map_eq_some_iff.mp moved
      cases same
      rw [continued_bucket]
      exact TimerBucket.fireWait_isRunning fired
  | start caller =>
      rw [step] at moved
      split at moved
      · cases moved
        rw [continued_bucket]
        exact TimerBucket.start_isRunning
      · cases moved
  | stop =>
      cases moved
      exact TimerBucket.stop_isRunning
  | addTask caller task =>
      rw [step] at moved
      split at moved
      · cases moved
        rw [continued_bucket]
        exact TimerBucket.addTask_isRunning task
      · cases moved
  | cancelTask id =>
      cases moved
      rfl
  | invoke thread => exact invoke_isRunning moved
  | leave thread how => exact leave_isRunning moved
  | endPass thread => exact endPass_isRunning moved

/-- Only `stop` tells that the bucket is stopped. -/
theorem step_stopped {move : BucketMove}
    (moved : world.step sorter move = some (some .stopped, next)) :
    next = { world with bucket := world.bucket.stop } := by
  cases move with
  | advance duration => cases moved
  | complete place =>
      obtain ⟨completed, -, same⟩ := Option.map_eq_some_iff.mp moved
      cases same
  | fire place =>
      obtain ⟨result, -, same⟩ := Option.map_eq_some_iff.mp moved
      cases same
  | start caller =>
      rw [step] at moved
      split at moved
      · cases moved
      · cases moved
  | stop =>
      cases moved
      rfl
  | addTask caller task =>
      rw [step] at moved
      split at moved
      · cases moved
      · cases moved
  | cancelTask id => cases moved
  | invoke thread =>
      obtain ⟨handler, task, remaining, below, -, ⟨-, absurdity, -⟩ | ⟨absurdity, -⟩⟩ :=
        invoke_cases moved
      · cases absurdity
      · cases absurdity
  | leave thread how => cases (leave_cases moved).1
  | endPass thread => cases (endPass_cases moved).1

end SharedBucket

namespace Quiet

variable {sorter : Sorter TimerTask.before} {world next : SharedBucket}

theorem withBucket {bucket : TimerBucket} (quiet : Quiet world)
    (nothing : bucket.pendingTasks = []) : Quiet { world with bucket } :=
  ⟨nothing, quiet.passes⟩

theorem setThread {thread : Nat} {fewer : List Pass} (quiet : Quiet world)
    (spent : ∀ pass ∈ fewer, pass.spent = true) :
    Quiet { world with threads := world.threads.set thread fewer } where
  pending := quiet.pending
  passes := by
    intro passes member pass isPass
    rcases List.mem_or_eq_of_mem_set member with old | rfl
    · exact quiet.passes _ old pass isPass
    · exact spent pass isPass

/-- A spent pass goes on with less. -/
theorem below {thread : Nat} {passes : List Pass} (quiet : Quiet world)
    (isThread : world.threads[thread]? = some passes) : ∀ pass ∈ passes, pass.spent = true :=
  quiet.passes passes (List.mem_of_getElem? isThread)

theorem finish {thread : Nat} {task : TimerTask} {passes : List Pass} (quiet : Quiet world)
    (oneShot : task.isRepeating = false) (spent : ∀ pass ∈ passes, pass.spent = true) :
    Quiet (world.finish thread task passes) := by
  have kept : Quiet { world with bucket := world.bucket.finishTask task } :=
    quiet.withBucket ((TimerBucket.finishTask_pendingTasks oneShot).trans quiet.pending)
  exact kept.setThread spent

theorem invoke {thread : Nat} {event : Option BucketEvent} (quiet : Quiet world)
    (moved : world.invoke thread = some (event, next)) : Quiet next ∧ event = none := by
  obtain ⟨handler, task, remaining, below, isThread, invoked⟩ := SharedBucket.invoke_cases moved
  have spent := quiet.below isThread
  have first := spent _ List.mem_cons_self
  simp only [Pass.spent, List.all_cons, Bool.and_eq_true, Bool.not_eq_true',
    Bool.or_eq_false_iff] at first
  obtain ⟨⟨⟨noCallback, oneShot⟩, rest⟩, -⟩ := first
  rcases invoked with ⟨isCallback, -, -⟩ | ⟨rfl, rfl⟩
  · exact absurd (Option.isSome_eq_false_iff.mp noCallback) (by simpa using isCallback)
  · refine ⟨quiet.finish oneShot fun pass isPass => ?_, rfl⟩
    rcases List.mem_cons.mp isPass with rfl | isBelow
    · simpa [Pass.spent] using rest
    · exact spent pass (List.mem_cons_of_mem _ isBelow)

theorem leave {thread : Nat} {how : CallbackEnd} {event : Option BucketEvent} (quiet : Quiet world)
    (moved : world.leave thread how = some (event, next)) : Quiet next ∧ event = none := by
  obtain ⟨rfl, handler, task, remaining, below, isThread, rfl | rfl⟩ :=
    SharedBucket.leave_cases moved
  · have spent := quiet.below isThread
    have first := spent _ List.mem_cons_self
    simp only [Pass.spent, Option.all_some, Bool.and_eq_true, Bool.not_eq_true'] at first
    obtain ⟨rest, oneShot⟩ := first
    refine ⟨quiet.finish oneShot fun pass isPass => ?_, rfl⟩
    rcases List.mem_cons.mp isPass with rfl | isBelow
    · simpa [Pass.spent] using rest
    · exact spent pass (List.mem_cons_of_mem _ isBelow)
  · exact ⟨quiet.setThread fun pass isPass =>
      quiet.below isThread pass (List.mem_cons_of_mem _ isPass), rfl⟩

theorem endPass {thread : Nat} {event : Option BucketEvent} (quiet : Quiet world)
    (moved : world.endPass sorter thread = some (event, next)) : Quiet next ∧ event = none := by
  obtain ⟨rfl, handler, below, isThread, ended⟩ := SharedBucket.endPass_cases moved
  have popped : Quiet { world with threads := world.threads.set thread below } :=
    quiet.setThread fun pass isPass => quiet.below isThread pass (List.mem_cons_of_mem _ isPass)
  rcases ended with rfl | rfl
  · exact ⟨popped, rfl⟩
  · rw [TimerBucket.startTimer_nothing quiet.pending]
    exact ⟨popped, rfl⟩

/-- A quiet bucket which is not started stays quiet, and calls nothing. -/
theorem step {move : BucketMove} {event : Option BucketEvent} (quiet : Quiet world)
    (stopped : world.bucket.isRunning = false) (notStarted : event ≠ some .started)
    (moved : world.step sorter move = some (event, next)) :
    Quiet next ∧ ∀ id, event ≠ some (.called id) := by
  have silent (result : Quiet next ∧ event = none) :
      Quiet next ∧ ∀ id, event ≠ some (.called id) := by
    refine ⟨result.1, fun id called => ?_⟩
    rw [result.2] at called
    cases called
  cases move with
  | advance duration =>
      cases moved
      exact silent ⟨⟨quiet.pending, quiet.passes⟩, rfl⟩
  | complete place =>
      obtain ⟨completed, isCompleted, same⟩ := Option.map_eq_some_iff.mp moved
      cases same
      exact silent ⟨quiet.withBucket
        ((TimerBucket.completeWait_pendingTasks isCompleted).trans quiet.pending), rfl⟩
  | fire place =>
      obtain ⟨⟨begun, bucket⟩, fired, same⟩ := Option.map_eq_some_iff.mp moved
      cases same
      obtain ⟨rfl, samePending⟩ := TimerBucket.fireWait_stopped fired stopped
      exact silent ⟨quiet.withBucket (samePending.trans quiet.pending), rfl⟩
  | start caller =>
      rw [SharedBucket.step] at moved
      split at moved
      · cases moved
        exact absurd rfl notStarted
      · cases moved
  | stop =>
      cases moved
      rw [TimerBucket.stop, stopped, if_neg Bool.false_ne_true]
      exact ⟨quiet, fun id called => by cases called⟩
  | addTask caller task =>
      rw [SharedBucket.step] at moved
      split at moved
      · rw [TimerBucket.addTask, stopped, if_neg Bool.false_ne_true] at moved
        cases moved
        exact silent ⟨quiet, rfl⟩
      · cases moved
  | cancelTask id =>
      cases moved
      refine silent ⟨quiet.withBucket ?_, rfl⟩
      rw [TimerBucket.cancelTask, quiet.pending, List.filter_nil]
  | invoke thread => exact silent (quiet.invoke moved)
  | leave thread how => exact silent (quiet.leave moved)
  | endPass thread => exact silent (quiet.endPass moved)

/-- A running bucket stopped while its passes are spent is quiet. -/
theorem stop (spent : (world.threads.all fun thread => thread.all Pass.spent) = true)
    (running : world.bucket.isRunning = true) :
    Quiet { world with bucket := world.bucket.stop } where
  pending := by rw [TimerBucket.stop, if_pos running]
  passes thread isThread := List.all_eq_true.mp (List.all_eq_true.mp spent thread isThread)

end Quiet

/-- The last of the calls of `start` and `stop` is a `stop`. -/
def Halted (events : List BucketEvent) : Prop :=
  ∃ before between, events = before ++ .stopped :: between ∧ .started ∉ between

theorem halted_append {events : List BucketEvent} {event : Option BucketEvent}
    (halted : Halted (events ++ event.toList)) :
    event = some .stopped ∨ (event ≠ some .started ∧ Halted events) := by
  cases event with
  | none =>
      rw [Option.toList_none, List.append_nil] at halted
      exact .inr ⟨by simp, halted⟩
  | some event =>
      obtain ⟨before, between, whole, notStarted⟩ := halted
      rcases List.eq_nil_or_concat between with rfl | ⟨earlier, last, rfl⟩
      · have last : [event] = [.stopped] := (List.append_inj' whole rfl).2
        exact .inl (congrArg some (List.singleton_inj.mp last))
      · rw [List.concat_eq_append, ← List.cons_append, ← List.append_assoc] at whole
        obtain ⟨same, tail⟩ := List.append_inj' whole rfl
        cases tail
        simp only [List.concat_eq_append, List.mem_append, not_or] at notStarted
        refine .inr ⟨fun started => notStarted.2 ?_, before, earlier, same, notStarted.1⟩
        rw [Option.some.inj started]
        exact List.mem_singleton_self _

/-- While the bucket is not running it is quiet, and after a `stop` it is not running. -/
structure Obedient (events : List BucketEvent) (world : SharedBucket) : Prop where
  quiet : world.bucket.isRunning = false → Quiet world
  halted : Halted events → world.bucket.isRunning = false

theorem Obedient.step {sorter : Sorter TimerTask.before} {events : List BucketEvent}
    {world next : SharedBucket} {move : BucketMove} {event : Option BucketEvent}
    (obedient : Obedient events world) (moved : world.step sorter move = some (event, next))
    (allowed : stopsOutOfPasses events world event = true) :
    Obedient (events ++ event.toList) next := by
  have flag := SharedBucket.step_isRunning moved
  refine ⟨fun stopped => ?_, fun halted => ?_⟩
  · rw [flag] at stopped
    cases running : world.bucket.isRunning with
    | false =>
        have notStarted : event ≠ some .started := by
          rintro rfl
          cases stopped
        exact ((obedient.quiet running).step running notStarted moved).1
    | true =>
        -- only a `stop` leaves a running bucket stopped
        rw [running] at stopped
        have isStop : event = some .stopped := by
          match event, stopped with
          | some .stopped, _ => rfl
        subst isStop
        rw [stopsOutOfPasses, running] at allowed
        exact SharedBucket.step_stopped moved ▸ Quiet.stop allowed running
  · rw [flag]
    rcases halted_append halted with rfl | ⟨notStarted, before⟩
    · rfl
    · rw [obedient.halted before]
      match event, notStarted with
      | none, _ | some .stopped, _ | some (.called _), _ => rfl
      | some .started, absurdity => exact absurd rfl absurdity

/-- **A stopped bucket stays stopped** in every history whose `stop`s of the
running bucket are called while no pass in progress has a callback left to call
or a task to put back. -/
theorem stays_stopped (sorter : Sorter TimerTask.before) {events : List BucketEvent}
    {world : SharedBucket}
    (run : (bucketSystem sorter).Runs (System.Guard.of stopsOutOfPasses) events world) :
    StaysStopped events world := by
  have obedient {events : List BucketEvent} {world : SharedBucket}
      (run : (bucketSystem sorter).Runs (System.Guard.of stopsOutOfPasses) events world) :
      Obedient events world := by
    refine run.invariant ?_ fun _ obedient moved allowed => obedient.step moved allowed
    rintro world ⟨now, rfl⟩
    refine ⟨fun _ => ⟨rfl, fun thread isThread => by cases isThread⟩, ?_⟩
    rintro ⟨before, between, whole, -⟩
    simp at whole
  refine ⟨fun stopped _ => ((obedient run).quiet stopped).pending, ?_⟩
  intro before between after id whole
  by_contra notStarted
  rw [whole] at run
  obtain ⟨middle, move, next, prior, moved, -⟩ := run.split
  have stopped := (obedient prior).halted ⟨before, between, rfl, notStarted⟩
  exact (((obedient prior).quiet stopped).step stopped (by simp) moved).2 id rfl

theorem runs_constructed (sorter : Sorter TimerTask.before)
    (guard : System.Guard SharedBucket BucketEvent) :
    (bucketSystem sorter).Runs guard [] {} :=
  .initial ⟨0, rfl⟩

/-- A one-shot task stops its bucket, which another thread starts anew. -/
theorem stays_stopped_by_callback :
    ∃ reached, (bucketSystem TimerTask.byPriority).follow (System.Guard.of stopsOutOfPasses) [] {}
        [.start none, .addTask none ⟨0, some 0, 0, false, .normal, 1, 0⟩, .invoke 0, .stop,
          .start none, .leave 0 .returned, .endPass 0, .stop] = some reached ∧
      reached.1 = [.started, .called 1, .stopped, .started, .stopped] ∧
      StaysStopped reached.1 reached.2 :=
  (runs_constructed _ _).reaches rfl fun run => ⟨rfl, stays_stopped _ run⟩

/-- A repeating task which stops its bucket is put back into it. -/
theorem stopped_by_repeating_task :
    ¬ ∀ (sorter : Sorter TimerTask.before) (events : List BucketEvent) (world : SharedBucket),
      (bucketSystem sorter).Runs System.anyMove events world → StaysStopped events world := by
  intro staysStopped
  have reached : ∃ events world, (bucketSystem TimerTask.byPriority).follow System.anyMove [] {}
      [.start none, .addTask none ⟨0, some 0, 5, true, .normal, 1, 0⟩, .invoke 0, .stop,
        .leave 0 .returned, .endPass 0] = some (events, world) ∧
      world.bucket.isRunning = false ∧ world.threads = [[]] ∧ world.bucket.pendingTasks ≠ [] :=
    ⟨_, _, rfl, rfl, rfl, by decide⟩
  obtain ⟨events, world, reached, stopped, idle, pending⟩ := reached
  have stays := staysStopped TimerTask.byPriority _ _ ((runs_constructed _ _).follow reached)
  refine pending (stays.empty stopped fun thread isThread => ?_)
  rw [idle] at isThread
  exact List.mem_singleton.mp isThread

end Foxhttp.Server
