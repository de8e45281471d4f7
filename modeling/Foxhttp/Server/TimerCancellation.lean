import Foxhttp.Server.TimerManager

/-!
# Is a cancelled timer gone?

`cancel_task` looks for a task among the pending ones. The tasks of a pass in
progress are not among them: one whose turn is still to come is called all the
same, and a repeating one whose callback is running is put back.
-/

namespace Foxhttp.Server

open Foxhttp.Library

/-- After `cancel(id)`, the timer is neither called nor put back, until the id
is given to another one. -/
def CancelIsFinal (events : List TimerEvent) : Prop :=
  ∀ before between after id event, (event = .started id ∨ event = .reinserted id) →
    events = before ++ .cancelled id :: between ++ event :: after → .scheduled id ∈ between

/-- A pass is still to call a task, or to put it back. -/
def Pass.awaits (pass : Pass) (task : TimerTask) : Prop :=
  (task ∈ pass.remaining ∧ (task.callback.isSome || task.isRepeating) = true) ∨
    (pass.running = some task ∧ task.isRepeating = true)

/-- No pass in progress is still to call a timer, or to put it back. -/
def outOfPasses (manager : TimerManager) (id : TimerId) : Bool :=
  manager.threads.all fun thread => thread.all fun pass =>
    (pass.2.remaining.all fun task =>
      task.id != id || !(task.callback.isSome || task.isRepeating)) &&
    pass.2.running.all fun task => task.id != id || !task.isRepeating

/-- A timer is cancelled while no pass in progress holds it. -/
def cancelsOutOfPasses (_ : List TimerEvent) (manager : TimerManager) :
    Option TimerEvent → Bool
  | some (.cancelled id) => outOfPasses manager id
  | _ => true

/-- A task which a bucket may still call: pending, or held by a pass. -/
inductive Live (manager : TimerManager) (index : Nat) (task : TimerTask) : Prop
  | pending {bucket} (found : manager.buckets[index]? = some bucket)
      (member : task ∈ bucket.pendingTasks)
  | inPass {thread pass} (running : thread ∈ manager.threads) (isPass : (index, pass) ∈ thread)
      (awaits : pass.awaits task)

namespace TimerBucket

variable {sorter : Sorter TimerTask.before} {bucket : TimerBucket}

/-- What `start_timer` takes out or leaves was pending. -/
theorem mem_startTimer {now : Int} {task : TimerTask}
    (held : task ∈ ((bucket.startTimer sorter now).1.getD []) ∨
      task ∈ (bucket.startTimer sorter now).2.pendingTasks) : task ∈ bucket.pendingTasks := by
  rw [startTimer] at held
  split at held
  · simpa using held
  · split at held
    · rcases held with taken | left
      · exact (mem_takeExpired.mp taken).1
      · exact List.mem_of_mem_filter left
    · simpa [armTimer, cancelTimer] using held

/-- What `add_task` takes out or leaves was pending, or is the task added. -/
theorem mem_addTask {now : Int} {added task : TimerTask}
    (held : task ∈ ((bucket.addTask sorter now added).2.1.getD []) ∨
      task ∈ (bucket.addTask sorter now added).2.2.pendingTasks) :
    task ∈ bucket.pendingTasks ∨ (task = added ∧ (bucket.addTask sorter now added).1 = true) := by
  rw [addTask] at held ⊢
  split at held
  · rename_i running
    have isAdded : task ∈ (bucket.emplace added).pendingTasks := by
      dsimp only at held
      split at held
      · have left : task ∈ (bucket.emplace added).cancelTimer.pendingTasks := mem_startTimer held
        exact left
      · simpa using held
    rw [if_pos running]
    refine (mem_emplace isAdded).imp_right fun same => ⟨same, ?_⟩
    dsimp only
    split <;> rfl
  · exact .inl (by simpa using held)

theorem mem_fireWait {now : Int} {place : Nat} {result : Option (List TimerTask) × TimerBucket}
    (fired : bucket.fireWait sorter now place = some result) {task : TimerTask}
    (held : task ∈ result.1.getD [] ∨ task ∈ result.2.pendingTasks) :
    task ∈ bucket.pendingTasks := by
  rw [fireWait] at fired
  split at fired
  · split at fired
    · dsimp only at fired
      split at fired
      · cases fired
        rcases held with taken | left
        · exact (mem_takeExpired.mp taken).1
        · exact List.mem_of_mem_filter left
      · cases fired
        simpa using held
    · cases fired
  · cases fired

theorem completeWait_pendingTasks {now : Int} {place : Nat} {completed : TimerBucket}
    (isCompleted : bucket.completeWait now place = some completed) :
    completed.pendingTasks = bucket.pendingTasks := by
  rw [completeWait] at isCompleted
  split at isCompleted
  · split at isCompleted
    · cases isCompleted
      rfl
    · cases isCompleted
  · cases isCompleted

/-- What is pending after a task is done with was pending, or is the task put back. -/
theorem mem_finishTask {done task : TimerTask}
    (held : task ∈ (bucket.finishTask done).pendingTasks) :
    task ∈ bucket.pendingTasks ∨ (task.id = done.id ∧ done.isRepeating = true) := by
  rw [finishTask] at held
  split at held
  · rename_i repeating
    rcases mem_emplace held with old | rfl
    · exact .inl old
    · exact .inr ⟨rfl, repeating⟩
  · exact .inl held

end TimerBucket

namespace TimerManager

variable {sorter : Sorter TimerTask.before} {manager next : TimerManager}

/-- What is live once a bucket changed was live in the bucket or elsewhere. -/
theorem live_setBucket {index other : Nat} {bucket changed : TimerBucket} {task : TimerTask}
    (found : manager.buckets[index]? = some bucket)
    (live : Live (manager.setBucket index changed) other task) :
    Live manager other task ∨ (other = index ∧ task ∈ changed.pendingTasks) := by
  cases live with
  | pending isBucket member =>
      by_cases same : other = index
      · subst same
        have inside := (List.getElem?_eq_some_iff.mp found).1
        simp only [setBucket, List.getElem?_set_self inside, Option.some.injEq] at isBucket
        exact .inr ⟨rfl, isBucket ▸ member⟩
      · simp only [setBucket, List.getElem?_set_ne (Ne.symm same)] at isBucket
        exact .inl (.pending isBucket member)
  | inPass running isPass awaits => exact .inl (.inPass running isPass awaits)

theorem mem_modify {thread : List BucketPass} {threads : List (List BucketPass)} {place : Nat}
    {change : List BucketPass → List BucketPass} (member : thread ∈ threads.modify place change) :
    thread ∈ threads ∨ ∃ old ∈ threads, thread = change old := by
  obtain ⟨index, found⟩ := List.mem_iff_getElem?.mp member
  rw [List.getElem?_modify] at found
  obtain ⟨old, isOld, same⟩ := Option.map_eq_some_iff.mp found
  split at same
  · exact .inr ⟨old, List.mem_of_getElem? isOld, same.symm⟩
  · exact .inl (same ▸ List.mem_of_getElem? isOld)

/-- A pass begins above those of a thread, or on a thread of its own. -/
theorem mem_begin {caller : Option Nat} {pass : BucketPass} {thread : List BucketPass}
    (member : thread ∈ (manager.begin caller pass).threads) :
    thread ∈ manager.threads ∨
      ∃ old, (old ∈ manager.threads ∨ old = []) ∧ thread = pass :: old := by
  cases caller with
  | none =>
      rcases List.mem_append.mp member with old | new
      · exact .inl old
      · exact .inr ⟨[], .inr rfl, List.mem_singleton.mp new⟩
  | some caller =>
      rcases mem_modify member with old | ⟨old, isOld, same⟩
      · exact .inl old
      · exact .inr ⟨old, .inl isOld, same⟩

/-- What is live once a pass has begun was live before, or is in the pass. -/
theorem live_begin {caller : Option Nat} {index other : Nat} {pass : Pass} {task : TimerTask}
    (live : Live (manager.begin caller (index, pass)) other task) :
    Live manager other task ∨ (other = index ∧ pass.awaits task) := by
  cases live with
  | pending isBucket member => exact .inl (.pending isBucket member)
  | @inPass thread isIn running isPass awaits =>
      rcases mem_begin running with old | ⟨old, isOld, rfl⟩
      · exact .inl (.inPass old isPass awaits)
      · rcases List.mem_cons.mp isPass with same | below
        · cases same
          exact .inr ⟨rfl, awaits⟩
        · rcases isOld with isOld | rfl
          · exact .inl (.inPass isOld below awaits)
          · cases below

/-- What is live once a bucket changed and a pass may have begun was live
before, or is held by the bucket or the pass. -/
theorem live_continued {caller : Option Nat} {index other : Nat} {handler : Bool}
    {bucket : TimerBucket} {result : Option (List TimerTask) × TimerBucket} {task : TimerTask}
    (found : manager.buckets[index]? = some bucket)
    (live : Live (manager.continued caller index handler result) other task) :
    Live manager other task ∨
      (other = index ∧ (task ∈ result.1.getD [] ∨ task ∈ result.2.pendingTasks)) := by
  rw [continued] at live
  split at live
  · rename_i none
    rcases live_setBucket found live with old | ⟨same, pending⟩
    · exact .inl old
    · exact .inr ⟨same, .inr pending⟩
  · rename_i expired some
    rcases live_begin live with before | ⟨same, awaits⟩
    · rcases live_setBucket found before with old | ⟨same, pending⟩
      · exact .inl old
      · exact .inr ⟨same, .inr pending⟩
    · refine .inr ⟨same, .inl ?_⟩
      rw [some]
      rcases awaits with ⟨member, -⟩ | ⟨running, -⟩
      · exact member
      · cases running

/-- What is live once the passes of a thread changed was live before, or is in them. -/
theorem live_setThread {thread other : Nat} {passes : List BucketPass} {task : TimerTask}
    (live : Live { manager with threads := manager.threads.set thread passes } other task) :
    Live manager other task ∨ ∃ pass, (other, pass) ∈ passes ∧ pass.awaits task := by
  cases live with
  | pending isBucket member => exact .inl (.pending isBucket member)
  | inPass running isPass awaits =>
      rcases List.mem_or_eq_of_mem_set running with old | rfl
      · exact .inl (.inPass old isPass awaits)
      · exact .inr ⟨_, isPass, awaits⟩

/-- A move keeps the live tasks of an id in their bucket, and adds those it schedules. -/
structure Flows (manager next : TimerManager) (event : Option TimerEvent) : Prop where
  bucketCount : next.bucketCount = manager.bucketCount
  live : ∀ {index task}, Live next index task →
    (∃ other, Live manager index other ∧ other.id = task.id) ∨
      (event = some (.scheduled task.id) ∧ task.id % manager.bucketCount = index)
  called : ∀ {id}, event = some (.started id) ∨ event = some (.reinserted id) →
    ∃ index task, Live manager index task ∧ task.id = id
  cancels : ∀ {id}, event = some (.cancelled id) → manager.cancel id = some (event, next)

theorem continued_bucketCount (caller : Option Nat) (index : Nat) (handler : Bool)
    (result : Option (List TimerTask) × TimerBucket) :
    (manager.continued caller index handler result).bucketCount = manager.bucketCount := by
  rw [continued]
  split <;> rfl

theorem flows_scheduleImpl {caller : Option Nat} {time interval : Int}
    {callback : Option CallbackId} {isRepeating : Bool} {priority : TimerPriority}
    {event : Option TimerEvent}
    (moved : manager.scheduleImpl sorter caller time interval callback isRepeating priority =
      some (event, next)) : Flows manager next event := by
  rw [scheduleImpl] at moved
  split at moved
  · obtain ⟨bucket, found, same⟩ := Option.map_eq_some_iff.mp moved
    dsimp only at same
    obtain ⟨isEvent, rfl⟩ := Prod.mk.inj same
    refine ⟨continued_bucketCount _ _ _ _, fun {index task} live => ?_, fun called => ?_,
      fun cancelled => ?_⟩
    · rcases live_continued found live with old | ⟨rfl, held⟩
      · exact .inl ⟨task, by cases old with
          | pending isBucket member => exact .pending isBucket member
          | inPass running isPass awaits => exact .inPass running isPass awaits, rfl⟩
      · rcases TimerBucket.mem_addTask held with pending | ⟨rfl, added⟩
        · exact .inl ⟨task, .pending found pending, rfl⟩
        · rw [added, if_pos rfl] at isEvent
          exact .inr ⟨isEvent.symm, rfl⟩
    · subst isEvent
      split at called
      · simp at called
      · simp at called
    · subst isEvent
      split at cancelled
      · simp at cancelled
      · simp at cancelled
  · cases moved

theorem flows_cancel {id : TimerId} {event : Option TimerEvent}
    (moved : manager.cancel id = some (event, next)) : Flows manager next event := by
  have cancelled := moved
  obtain ⟨bucket, found, same⟩ := Option.map_eq_some_iff.mp moved
  cases same
  refine ⟨rfl, fun {index task} live => ?_, fun called => by simp at called, fun {other} same => ?_⟩
  · rcases live_setBucket found live with old | ⟨rfl, left⟩
    · exact .inl ⟨task, old, rfl⟩
    · exact .inl ⟨task, .pending found (List.mem_of_mem_filter left), rfl⟩
  · cases same
    exact cancelled

/-- The uppermost pass of a thread is done with a task it awaits. -/
theorem flows_finish {thread index : Nat} {task : TimerTask} {pass changed : Pass}
    {below : List BucketPass} {event : Option TimerEvent}
    (isThread : manager.threads[thread]? = some ((index, pass) :: below))
    (repeats : task.isRepeating = true → pass.awaits task)
    (fewer : ∀ {other}, changed.awaits other → pass.awaits other)
    (moved : manager.finish thread index task ((index, changed) :: below) = some (event, next)) :
    Flows manager next event := by
  have running := List.mem_of_getElem? isThread
  obtain ⟨bucket, found, same⟩ := Option.map_eq_some_iff.mp moved
  cases same
  refine ⟨rfl, fun {other held} live => ?_, fun {id} called => ?_, fun cancelled => ?_⟩
  · rcases live_setThread live with before | ⟨held', isPass, awaits⟩
    · rcases live_setBucket found before with old | ⟨rfl, left⟩
      · exact .inl ⟨held, old, rfl⟩
      · rcases TimerBucket.mem_finishTask left with pending | ⟨sameId, repeating⟩
        · exact .inl ⟨held, .pending found pending, rfl⟩
        · exact .inl ⟨task, .inPass running List.mem_cons_self (repeats repeating), sameId.symm⟩
    · rcases List.mem_cons.mp isPass with same | isBelow
      · cases same
        exact .inl ⟨held, .inPass running List.mem_cons_self (fewer awaits), rfl⟩
      · exact .inl ⟨held, .inPass running (List.mem_cons_of_mem _ isBelow) awaits, rfl⟩
  · split at called
    · rename_i repeating
      simp only [Option.some.injEq, reduceCtorEq, TimerEvent.reinserted.injEq, false_or] at called
      exact ⟨index, task, .inPass running List.mem_cons_self (repeats repeating), called⟩
    · simp at called
  · split at cancelled
    · simp at cancelled
    · simp at cancelled

/-- The passes of a thread await no more than they did. -/
theorem flows_setThread {thread : Nat} {passes fewer : List BucketPass} {id : Option TimerId}
    (isThread : manager.threads[thread]? = some passes)
    (held : ∀ {index pass task}, (index, pass) ∈ fewer → pass.awaits task →
      ∃ old, (index, old) ∈ passes ∧ old.awaits task)
    (calls : ∀ {called}, id = some called →
      ∃ index task, Live manager index task ∧ task.id = called) :
    Flows manager { manager with threads := manager.threads.set thread fewer }
      (id.map .started) := by
  have running := List.mem_of_getElem? isThread
  refine ⟨rfl, fun {index task} live => ?_, fun {called} isCalled => ?_, fun cancelled => ?_⟩
  · rcases live_setThread live with old | ⟨pass, isPass, awaits⟩
    · exact .inl ⟨task, old, rfl⟩
    · obtain ⟨old, isOld, awaited⟩ := held isPass awaits
      exact .inl ⟨task, .inPass running isOld awaited, rfl⟩
  · cases id with
    | none => simp at isCalled
    | some id =>
        simp only [Option.map_some, Option.some.injEq, TimerEvent.started.injEq, reduceCtorEq,
          or_false] at isCalled
        exact calls (congrArg some isCalled)
  · cases id with
    | none => simp at cancelled
    | some id => simp at cancelled

theorem flows_invoke {thread : Nat} {event : Option TimerEvent}
    (moved : manager.invoke thread = some (event, next)) : Flows manager next event := by
  rw [invoke] at moved
  split at moved
  · rename_i index handler task remaining below isThread
    split at moved
    · rename_i callback isCallback
      cases moved
      have awaited : Pass.awaits ⟨handler, none, task :: remaining⟩ task :=
        .inl ⟨List.mem_cons_self, by simp [isCallback]⟩
      refine @flows_setThread _ _ _ _ (some task.id) isThread
        (fun {other pass held} isPass awaits => ?_) fun {called} same => ?_
      · rcases List.mem_cons.mp isPass with same | isBelow
        · cases same
          refine ⟨_, List.mem_cons_self, ?_⟩
          rcases awaits with ⟨member, waits⟩ | ⟨isTask, repeating⟩
          · exact .inl ⟨List.mem_cons_of_mem task member, waits⟩
          · cases isTask
            exact awaited
        · exact ⟨pass, List.mem_cons_of_mem _ isBelow, awaits⟩
      · cases same
        exact ⟨index, task, .inPass (List.mem_of_getElem? isThread) List.mem_cons_self awaited, rfl⟩
    · refine flows_finish isThread (fun repeating => ?_) (fun {other} awaits => ?_) moved
      · exact .inl ⟨List.mem_cons_self, by simp [repeating]⟩
      · rcases awaits with ⟨member, waits⟩ | ⟨running, -⟩
        · exact .inl ⟨List.mem_cons_of_mem task member, waits⟩
        · cases running
  · cases moved

theorem flows_leave {thread : Nat} {how : CallbackEnd} {event : Option TimerEvent}
    (moved : manager.leave thread how = some (event, next)) : Flows manager next event := by
  rw [leave] at moved
  split at moved
  · rename_i index handler task remaining below isThread
    have finished (moved : manager.finish thread index task
        ((index, ⟨handler, none, remaining⟩) :: below) = some (event, next)) :
        Flows manager next event := by
      refine flows_finish isThread (fun repeating => .inr ⟨rfl, repeating⟩)
        (fun {other} awaits => ?_) moved
      rcases awaits with remains | ⟨running, -⟩
      · exact .inl remains
      · cases running
    cases how with
    | returned => exact finished moved
    | stdException => exact finished moved
    | foreignException =>
        cases moved
        refine @flows_setThread _ _ _ _ none isThread (fun {other pass held} isPass awaits => ?_)
          fun {called} same => by cases same
        exact ⟨pass, List.mem_cons_of_mem _ isPass, awaits⟩
  · cases moved

theorem flows_endPass {thread : Nat} {event : Option TimerEvent}
    (moved : manager.endPass sorter thread = some (event, next)) : Flows manager next event := by
  rw [endPass] at moved
  split at moved
  · rename_i index handler below isThread
    have ended : Flows manager { manager with threads := manager.threads.set thread below } none :=
      @flows_setThread _ _ _ _ none isThread
        (fun {other pass held} isPass awaits => ⟨pass, List.mem_cons_of_mem _ isPass, awaits⟩)
        fun {called} same => by cases same
    split at moved
    · obtain ⟨bucket, found, same⟩ := Option.map_eq_some_iff.mp moved
      cases same
      let rest : TimerManager := { manager with threads := manager.threads.set thread below }
      refine ⟨(continued_bucketCount _ _ _ _).trans ended.bucketCount, fun {other task} live => ?_,
        fun called => by simp at called, fun cancelled => by cases cancelled⟩
      rcases @live_continued rest _ _ _ _ _ _ _ found live with old | ⟨rfl, held⟩
      · exact ended.live old
      · exact .inl ⟨task, .pending found (TimerBucket.mem_startTimer held), rfl⟩
    · cases moved
      exact ended
  · cases moved

theorem flows_step {move : ManagerMove} {event : Option TimerEvent}
    (moved : manager.step sorter move = some (event, next)) : Flows manager next event := by
  cases move with
  | advance duration =>
      cases moved
      refine ⟨rfl, fun {index task} live => .inl ⟨task, ?_, rfl⟩, fun called => by simp at called,
        fun cancelled => by cases cancelled⟩
      cases live with
      | pending isBucket member => exact .pending isBucket member
      | inPass running isPass awaits => exact .inPass running isPass awaits
  | complete index place =>
      obtain ⟨bucket, found, rest⟩ := Option.bind_eq_some_iff.mp moved
      obtain ⟨completed, isCompleted, same⟩ := Option.bind_eq_some_iff.mp rest
      cases same
      refine ⟨rfl, fun {other task} live => ?_, fun called => by simp at called,
        fun cancelled => by cases cancelled⟩
      rcases live_setBucket found live with old | ⟨rfl, pending⟩
      · exact .inl ⟨task, old, rfl⟩
      · rw [TimerBucket.completeWait_pendingTasks isCompleted] at pending
        exact .inl ⟨task, .pending found pending, rfl⟩
  | fire index place =>
      obtain ⟨bucket, found, rest⟩ := Option.bind_eq_some_iff.mp moved
      obtain ⟨result, fired, same⟩ := Option.bind_eq_some_iff.mp rest
      cases same
      refine ⟨continued_bucketCount _ _ _ _, fun {other task} live => ?_,
        fun called => by simp at called, fun cancelled => by cases cancelled⟩
      rcases live_continued found live with old | ⟨rfl, held⟩
      · exact .inl ⟨task, old, rfl⟩
      · exact .inl ⟨task, .pending found (TimerBucket.mem_fireWait fired held), rfl⟩
  | scheduleAt caller time callback priority => exact flows_scheduleImpl moved
  | scheduleEvery caller interval callback priority => exact flows_scheduleImpl moved
  | cancel id => exact flows_cancel moved
  | invoke thread => exact flows_invoke moved
  | leave thread how => exact flows_leave moved
  | endPass thread => exact flows_endPass moved

theorem not_awaited {id : TimerId} (outside : outOfPasses manager id = true)
    {thread : List BucketPass} {index : Nat} {pass : Pass} {task : TimerTask}
    (running : thread ∈ manager.threads) (isPass : (index, pass) ∈ thread)
    (awaits : pass.awaits task) : task.id ≠ id := by
  have passes := List.all_eq_true.mp (List.all_eq_true.mp outside thread running) _ isPass
  obtain ⟨remaining, isRunning⟩ := Bool.and_eq_true_iff.mp passes
  rintro rfl
  rcases awaits with ⟨member, waits⟩ | ⟨same, repeating⟩
  · have outside := List.all_eq_true.mp remaining task member
    rw [waits] at outside
    simp at outside
  · rw [same] at isRunning
    simp [repeating] at isRunning

/-- A timer cancelled while no pass holds it is nowhere any more. -/
theorem cancel_gone {id : TimerId} {event : Option TimerEvent}
    (cancelled : manager.cancel id = some (event, next)) (outside : outOfPasses manager id = true)
    (placed : ∀ {index task}, Live manager index task → task.id % manager.bucketCount = index)
    {index : Nat} {task : TimerTask} (live : Live next index task) : task.id ≠ id := by
  obtain ⟨bucket, found, same⟩ := Option.map_eq_some_iff.mp cancelled
  cases same
  cases live with
  | inPass running isPass awaits => exact not_awaited outside running isPass awaits
  | pending isBucket member =>
      rintro rfl
      by_cases here : task.id % manager.bucketCount = index
      · subst here
        simp only [setBucket, List.getElem?_set_self (List.getElem?_eq_some_iff.mp found).1,
          Option.some.injEq] at isBucket
        subst isBucket
        have other := (List.mem_filter.mp member).2
        simp at other
      · simp only [setBucket, List.getElem?_set_ne here] at isBucket
        exact here (placed (.pending isBucket member))

end TimerManager

/-! ## Histories -/

/-- The timer was cancelled after its id was given out. -/
def Dead (events : List TimerEvent) (id : TimerId) : Prop :=
  ∃ before after, events = before ++ .cancelled id :: after ∧ .scheduled id ∉ after

/-- One event more kills the timer it cancels and revives the one it schedules. -/
theorem dead_snoc {events : List TimerEvent} {event : TimerEvent} {id : TimerId}
    (dead : Dead (events ++ [event]) id) :
    event = .cancelled id ∨ (Dead events id ∧ event ≠ .scheduled id) := by
  obtain ⟨before, after, whole, none⟩ := dead
  rcases List.eq_nil_or_concat after with rfl | ⟨earlier, last, rfl⟩
  · obtain ⟨-, same⟩ := List.append_inj' whole rfl
    exact .inl (List.cons.inj same).1
  · rw [List.concat_eq_append, ← List.cons_append, ← List.append_assoc] at whole
    obtain ⟨rfl, same⟩ := List.append_inj' whole rfl
    cases same
    refine .inr ⟨⟨before, earlier, rfl, fun member => none (by simp [member])⟩, ?_⟩
    rintro rfl
    exact none (by simp)

/-- One event more is final if it calls and puts back no dead timer. -/
theorem CancelIsFinal.snoc {events : List TimerEvent} {event : TimerEvent}
    (final : CancelIsFinal events)
    (alive : ∀ id, event = .started id ∨ event = .reinserted id → ¬ Dead events id) :
    CancelIsFinal (events ++ [event]) := by
  intro before between after id call isCall whole
  rcases List.eq_nil_or_concat after with rfl | ⟨earlier, last, rfl⟩
  · have split : before ++ .cancelled id :: between ++ [call] = events ++ [event] := by
      rw [whole]
    obtain ⟨rfl, same⟩ := List.append_inj' split rfl
    cases same
    by_contra none
    exact alive id isCall ⟨before, between, rfl, none⟩
  · refine final before between earlier id call isCall ?_
    rw [List.concat_eq_append, ← List.cons_append, ← List.append_assoc] at whole
    exact (List.append_inj' whole rfl).1

/-- Live tasks are in the bucket of their id, and no dead timer is live. -/
structure Tidy (events : List TimerEvent) (manager : TimerManager) : Prop where
  placed : ∀ {index task}, Live manager index task → task.id % manager.bucketCount = index
  gone : ∀ {index task}, Live manager index task → ¬ Dead events task.id
  final : CancelIsFinal events

theorem Tidy.step {sorter : Sorter TimerTask.before} {events : List TimerEvent}
    {manager next : TimerManager} {move : ManagerMove} {event : Option TimerEvent}
    (tidy : Tidy events manager) (moved : manager.step sorter move = some (event, next))
    (allowed : cancelsOutOfPasses events manager event = true) :
    Tidy (events ++ event.toList) next := by
  have flows := TimerManager.flows_step moved
  refine ⟨fun {index task} live => ?_, fun {index task} live dead => ?_, ?_⟩
  · rw [flows.bucketCount]
    rcases flows.live live with ⟨other, old, same⟩ | ⟨-, placed⟩
    · exact same ▸ tidy.placed old
    · exact placed
  · cases event with
    | none =>
        rw [Option.toList_none, List.append_nil] at dead
        rcases flows.live live with ⟨other, old, same⟩ | ⟨absurdity, -⟩
        · exact tidy.gone old (same ▸ dead)
        · cases absurdity
    | some event =>
        rcases dead_snoc dead with rfl | ⟨before, notScheduled⟩
        · exact TimerManager.cancel_gone (flows.cancels rfl) allowed tidy.placed live rfl
        · rcases flows.live live with ⟨other, old, same⟩ | ⟨scheduled, -⟩
          · exact tidy.gone old (same ▸ before)
          · exact notScheduled (Option.some.inj scheduled)
  · cases event with
    | none =>
        rw [Option.toList_none, List.append_nil]
        exact tidy.final
    | some event =>
        refine tidy.final.snoc fun id isCall dead => ?_
        obtain ⟨index, task, live, same⟩ :=
          flows.called (isCall.imp (congrArg some) (congrArg some))
        exact tidy.gone live (same ▸ dead)

theorem tidy_running (sorter : Sorter TimerTask.before) (bucketCount : Nat) (now : Int) :
    Tidy [] (.running sorter bucketCount now) := by
  have none {index : Nat} {task : TimerTask} :
      ¬ Live (.running sorter bucketCount now) index task := by
    intro live
    cases live with
    | pending isBucket member =>
        rw [List.eq_of_mem_replicate (List.mem_of_getElem? isBucket)] at member
        cases member
    | inPass running isPass awaits => cases running
  refine ⟨fun live => absurd live none, fun live => absurd live none, ?_⟩
  intro before between after id event _ whole
  simp at whole

/-- **Cancelling a timer is final** in every history which cancels timers only
while no pass in progress is still to call them or to put them back. -/
theorem cancel_is_final (sorter : Sorter TimerTask.before) {events : List TimerEvent}
    {manager : TimerManager}
    (run : (managerSystem sorter).Runs (System.Guard.of cancelsOutOfPasses) events manager) :
    CancelIsFinal events := by
  have tidy : Tidy events manager := by
    refine run.invariant ?_ fun _ tidy moved allowed => tidy.step moved allowed
    rintro manager ⟨bucketCount, now, rfl⟩
    exact tidy_running sorter bucketCount now
  exact tidy.final

theorem runs_running (sorter : Sorter TimerTask.before)
    (guard : System.Guard TimerManager TimerEvent) :
    (managerSystem sorter).Runs guard [] (.running sorter 1 0) :=
  .initial ⟨1, 0, rfl⟩

/-- A repeating timer is called once, and cancelled before its next turn. -/
theorem cancel_is_final_between_turns :
    ∃ reached, (managerSystem TimerTask.byPriority).follow (System.Guard.of cancelsOutOfPasses) []
        (.running TimerTask.byPriority 1 0)
        [.scheduleEvery none 1 (some 0) .normal, .advance 1000000, .complete 0 0, .fire 0 0,
          .invoke 0, .leave 0 .returned, .endPass 0, .cancel 1] = some reached ∧
      reached.1 = [.scheduled 1, .started 1, .reinserted 1, .cancelled 1] ∧
      CancelIsFinal reached.1 :=
  (runs_running _ _).reaches rfl fun run => ⟨rfl, cancel_is_final _ run⟩

/-- A repeating timer cancelled from its own callback is put back. -/
theorem cancelled_timer_put_back :
    ¬ ∀ (sorter : Sorter TimerTask.before) (events : List TimerEvent) (manager : TimerManager),
      (managerSystem sorter).Runs System.anyMove events manager → CancelIsFinal events := by
  intro cancelFinal
  have reached : ∃ manager, (managerSystem TimerTask.byPriority).follow System.anyMove []
      (.running TimerTask.byPriority 1 0)
      [.scheduleEvery none 1 (some 0) .normal, .advance 1000000, .complete 0 0, .fire 0 0,
        .invoke 0, .cancel 1, .leave 0 .returned, .endPass 0, .advance 1000000, .complete 0 0,
        .fire 0 0, .invoke 1] =
      some ([.scheduled 1, .started 1, .cancelled 1, .reinserted 1, .started 1], manager) :=
    ⟨_, rfl⟩
  obtain ⟨manager, reached⟩ := reached
  have final := cancelFinal TimerTask.byPriority _ _ ((runs_running _ _).follow reached)
  have again := final [.scheduled 1, .started 1] [.reinserted 1] [] 1 (.started 1) (.inl rfl) rfl
  simp at again

end Foxhttp.Server
