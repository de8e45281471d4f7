import Foxhttp.Server.TimerBucket

/-!
# Buckets which never go deaf

`start_timer` arms a wait for the earliest task, or processes the expired tasks
and arms nothing. After the pass of a handler it is called once more; after a
pass which `start`, `add_task` or that last call began, it is not. What is
pending then waits for the next `add_task`.
-/

namespace Foxhttp.Server

open Foxhttp.Library

/-- A running bucket with pending tasks and no pass in progress has a wait
which is not later than any of them. -/
def TimerWorld.NeverDeaf (world : TimerWorld) : Prop :=
  world.bucket.isRunning = true → world.passes = [] → world.bucket.pendingTasks ≠ [] →
    ∃ wait ∈ world.bucket.waits, ∀ task ∈ world.bucket.pendingTasks,
      wait.expiry ≤ task.expiryTime

/-- Is the pass of a handler in progress, so that `start_timer` is still to come? -/
def handled (passes : List Pass) : Bool :=
  passes.any Pass.handler

/-- Where `start_timer` finds a task expired, either the handler of a wait is
still to call it again, or every pending task is expired and one-shot. -/
def cleanStart (now : Int) (passes : List Pass) (bucket : TimerBucket) : Bool :=
  match bucket.getNextExpiry with
  | some next => decide (now < next) || handled passes ||
      bucket.pendingTasks.all fun task => task.isExpired now && !task.isRepeating
  | none => true

/-- Every `start_timer` is clean, a task at the end of time is added only to
others or in the pass of a handler, and an exception which is not a
`std::exception` does not leave such a pass. -/
def rearms (_ : List TimerMove) (world : TimerWorld) : Option TimerMove → Bool
  | some .start => world.bucket.isRunning || cleanStart world.now world.passes world.bucket
  | some (.addTask task) =>
      !world.bucket.isRunning ||
        if task.expiryTime < world.bucket.nextExpiryTime then
          cleanStart world.now world.passes (world.bucket.emplace task)
        else decide (world.bucket.pendingTasks ≠ []) || handled world.passes
  | some (.leave .foreignException) =>
      match world.passes with
      | pass :: below => !pass.handler || handled below
      | [] => true
  | some .endPass =>
      match world.passes with
      | pass :: below => !pass.handler || cleanStart world.now below world.bucket
      | [] => true
  | _ => true

/-! ## The invariant -/

/-- Nothing is pending, or the handler of a wait is still to call `start_timer`,
or a wait is not later than what is pending. -/
def Covered (passes : List Pass) (bucket : TimerBucket) : Prop :=
  bucket.pendingTasks = [] ∨ handled passes = true ∨
    ∃ wait ∈ bucket.waits, ∀ task ∈ bucket.pendingTasks, wait.expiry ≤ task.expiryTime

/-- A pass which no handler follows puts nothing back. -/
def Orderly : List Pass → Prop
  | [] => True
  | pass :: below =>
      (handled (pass :: below) = true ∨
        ∀ task ∈ pass.running.toList ++ pass.remaining, task.isRepeating = false) ∧
      Orderly below

/-- What every state of a run has whose moves re-arm. -/
structure Attentive (world : TimerWorld) : Prop where
  nextExpiry : world.bucket.nextExpiryTime = timePointMax
  bounded : ∀ wait ∈ world.bucket.waits, wait.expiry ≤ timePointMax
  covered : world.bucket.isRunning = true → Covered world.passes world.bucket
  orderly : Orderly world.passes

namespace TimerBucket

variable {sorter : Sorter TimerTask.before} {bucket : TimerBucket}

/-- The loop of `get_next_expiry` ends at or before its start and every task. -/
theorem earliest_le (tasks : List TimerTask) (start : Int) :
    let next := tasks.foldl
      (fun next task => if task.expiryTime < next then task.expiryTime else next) start
    next ≤ start ∧ ∀ task ∈ tasks, next ≤ task.expiryTime := by
  induction tasks generalizing start with
  | nil => exact ⟨Int.le_refl _, fun _ member => nomatch member⟩
  | cons task rest inductionHypothesis =>
    obtain ⟨below, least⟩ :=
      inductionHypothesis (if task.expiryTime < start then task.expiryTime else start)
    rw [List.foldl_cons]
    have turn : (if task.expiryTime < start then task.expiryTime else start) ≤ start ∧
        (if task.expiryTime < start then task.expiryTime else start) ≤ task.expiryTime := by
      split <;> omega
    refine ⟨Int.le_trans below turn.1, fun other member => ?_⟩
    rcases List.mem_cons.mp member with rfl | later
    · exact Int.le_trans below turn.2
    · exact least other later

theorem getNextExpiry_le {next : Int} (isNext : bucket.getNextExpiry = some next) :
    next ≤ timePointMax ∧ ∀ task ∈ bucket.pendingTasks, next ≤ task.expiryTime := by
  rw [getNextExpiry] at isNext
  split at isNext
  · cases isNext
  · cases isNext
    exact earliest_le _ _

theorem getNextExpiry_eq_none (isNone : bucket.getNextExpiry = none) :
    bucket.pendingTasks = [] := by
  rw [getNextExpiry] at isNone
  split at isNone
  · assumption
  · cases isNone

@[simp] theorem emplace_waits (task : TimerTask) : (bucket.emplace task).waits = bucket.waits := by
  unfold emplace
  split <;> rfl

@[simp] theorem emplace_nextExpiryTime (task : TimerTask) :
    (bucket.emplace task).nextExpiryTime = bucket.nextExpiryTime := by
  unfold emplace
  split <;> rfl

@[simp] theorem emplace_isRunning (task : TimerTask) :
    (bucket.emplace task).isRunning = bucket.isRunning := by
  unfold emplace
  split <;> rfl

theorem mem_emplace {task other : TimerTask} (member : other ∈ (bucket.emplace task).pendingTasks) :
    other ∈ bucket.pendingTasks ∨ other = task := by
  unfold emplace at member
  split at member
  · exact .inl member
  · simpa using member

@[simp] theorem finishTask_nextExpiryTime (task : TimerTask) :
    (bucket.finishTask task).nextExpiryTime = bucket.nextExpiryTime := by
  unfold finishTask
  split
  · rw [emplace_nextExpiryTime]
  · rfl

@[simp] theorem finishTask_waits (task : TimerTask) :
    (bucket.finishTask task).waits = bucket.waits := by
  unfold finishTask
  split
  · rw [emplace_waits]
  · rfl

@[simp] theorem finishTask_isRunning (task : TimerTask) :
    (bucket.finishTask task).isRunning = bucket.isRunning := by
  unfold finishTask
  split
  · rw [emplace_isRunning]
  · rfl

theorem finishTask_pendingTasks {task : TimerTask} (oneShot : task.isRepeating = false) :
    (bucket.finishTask task).pendingTasks = bucket.pendingTasks := by
  simp only [finishTask, oneShot, Bool.false_eq_true, if_false]

theorem mem_takeExpired {now : Int} {task : TimerTask} :
    task ∈ (bucket.takeExpired sorter now).1 ↔
      task ∈ bucket.pendingTasks ∧ task.isExpired now = true := by
  rw [takeExpired, sorter.mem_sort, List.mem_filter]

end TimerBucket

theorem handled_cons_handler (below : List Pass) (pass : Pass) (handler : pass.handler = true) :
    handled (pass :: below) = true := by
  simp [handled, handler]

theorem handled_below {below : List Pass} {pass : Pass} (inside : handled below = true) :
    handled (pass :: below) = true := by
  simp only [handled, List.any_cons, Bool.or_eq_true] at inside ⊢
  exact .inr inside

namespace Attentive

variable {sorter : Sorter TimerTask.before} {world : TimerWorld}

/-- A clean `start_timer` covers what is pending. -/
theorem started {bucket : TimerBucket} {passes : List Pass}
    (nextExpiry : bucket.nextExpiryTime = timePointMax)
    (bounded : ∀ wait ∈ bucket.waits, wait.expiry ≤ timePointMax) (orderly : Orderly passes)
    (clean : cleanStart world.now passes bucket = true) :
    Attentive (world.started passes (bucket.startTimer sorter world.now)) := by
  rw [cleanStart] at clean
  rw [TimerBucket.startTimer]
  cases isNext : bucket.getNextExpiry with
  | none =>
    exact { nextExpiry, bounded, orderly,
            covered := fun _ => .inl (TimerBucket.getNextExpiry_eq_none isNext) }
  | some next =>
    obtain ⟨notAfter, earliest⟩ := TimerBucket.getNextExpiry_le isNext
    simp only [isNext, Bool.or_eq_true, decide_eq_true_eq] at clean
    dsimp only
    by_cases due : next ≤ world.now
    · rw [if_pos due]
      refine { nextExpiry, bounded, covered := fun _ => ?_, orderly := ⟨?_, orderly⟩ } <;>
        rcases clean with (early | inside) | all
      · omega
      · exact .inr (.inl (handled_below inside))
      · refine .inl (List.filter_eq_nil_iff.mpr fun task member => ?_)
        have expired := List.all_eq_true.mp all task member
        simp only [Bool.and_eq_true] at expired
        simp [expired.1]
      · omega
      · exact .inl (handled_below inside)
      · refine .inr fun task member => ?_
        have pending := (TimerBucket.mem_takeExpired.mp (by simpa using member)).1
        have expired := List.all_eq_true.mp all task pending
        simp only [Bool.and_eq_true, Bool.not_eq_true'] at expired
        exact expired.2
    · rw [if_neg due]
      refine { nextExpiry, bounded := fun wait member => ?_, orderly,
               covered := fun _ => .inr (.inr ⟨{ expiry := next }, ?_, earliest⟩) }
      · rcases List.mem_append.mp member with kept | isNew
        · exact bounded wait (List.mem_filter.mp kept).1
        · cases List.mem_singleton.mp isNew
          exact notAfter
      · exact List.mem_append_right _ List.mem_cons_self

theorem set_wait_expiry {waits : List Wait} {place : Nat} {wait changed : Wait}
    (found : waits[place]? = some wait) (same : changed.expiry = wait.expiry) {other : Wait}
    (member : other ∈ waits) : ∃ kept ∈ waits.set place changed, kept.expiry = other.expiry := by
  obtain ⟨index, inside, rfl⟩ := List.getElem_of_mem member
  refine ⟨(waits.set place changed).get ⟨index, by simpa using inside⟩, List.get_mem _ _, ?_⟩
  rw [List.get_eq_getElem, List.getElem_set]
  split
  · rename_i here
    subst here
    rw [List.getElem?_eq_getElem inside] at found
    cases found
    exact same
  · rfl

theorem complete (attentive : Attentive world) {place : Nat} {next : TimerWorld}
    (moved : world.complete place = some next) : Attentive next := by
  rw [TimerWorld.complete] at moved
  split at moved
  · rename_i wait found
    split at moved
    · cases moved
      refine { attentive with bounded := fun other member => ?_, covered := fun running => ?_ }
      · rcases List.mem_or_eq_of_mem_set member with kept | rfl
        · exact attentive.bounded other kept
        · exact attentive.bounded wait (List.mem_of_getElem? found)
      · rcases attentive.covered running with empty | inside | ⟨early, member, earliest⟩
        · exact .inl empty
        · exact .inr (.inl inside)
        · obtain ⟨kept, isKept, same⟩ :=
            @set_wait_expiry _ _ wait { wait with completed := true } found rfl early member
          exact .inr (.inr ⟨kept, isKept, fun task pending => same ▸ earliest task pending⟩)
    · cases moved
  · cases moved

theorem fire (attentive : Attentive world) {place : Nat} {next : TimerWorld}
    (moved : world.fire sorter place = some next) : Attentive next := by
  have fewer : ∀ wait ∈ world.bucket.waits.eraseIdx place, wait.expiry ≤ timePointMax :=
    fun wait member => attentive.bounded wait (List.mem_of_mem_eraseIdx member)
  rw [TimerWorld.fire] at moved
  split at moved
  · split at moved
    · dsimp only at moved
      split at moved
      · cases moved
        exact { nextExpiry := attentive.nextExpiry, bounded := fewer,
                covered := fun _ => .inr (.inl (handled_cons_handler _ _ rfl)),
                orderly := ⟨.inl (handled_cons_handler _ _ rfl), attentive.orderly⟩ }
      · rename_i stopped
        cases moved
        exact { attentive with bounded := fewer, covered := fun running => absurd running stopped }
    · cases moved
  · cases moved

theorem start (attentive : Attentive world)
    (clean : (world.bucket.isRunning || cleanStart world.now world.passes world.bucket) = true) :
    Attentive (world.started world.passes (world.bucket.start sorter world.now)) := by
  rw [TimerBucket.start]
  split
  · exact attentive
  · rename_i stopped
    rw [eq_false_of_ne_true stopped, Bool.false_or] at clean
    exact .started attentive.nextExpiry
      (fun wait member => attentive.bounded wait (List.mem_filter.mp member).1)
      attentive.orderly clean

theorem stop (attentive : Attentive world) :
    Attentive { world with bucket := world.bucket.stop } := by
  rw [TimerBucket.stop]
  split
  · exact { attentive with
      bounded := fun wait member => attentive.bounded wait (List.mem_filter.mp member).1
      covered := fun _ => .inl rfl }
  · exact attentive

theorem cancelTask (attentive : Attentive world) (id : TimerId) :
    Attentive { world with bucket := (world.bucket.cancelTask id).2 } := by
  refine { attentive with covered := fun running => ?_ }
  rcases attentive.covered running with empty | inside | ⟨early, member, earliest⟩
  · exact .inl (by rw [TimerBucket.cancelTask, empty]; rfl)
  · exact .inr (.inl inside)
  · exact .inr (.inr ⟨early, member, fun task pending =>
      earliest task (List.mem_filter.mp pending).1⟩)

theorem addTask (attentive : Attentive world) {task : TimerTask}
    (allowed : rearms [] world (some (.addTask task)) = true) :
    Attentive (world.started world.passes (world.bucket.addTask sorter world.now task).2) := by
  rw [TimerBucket.addTask]
  by_cases running : world.bucket.isRunning = true
  · simp only [rearms, running, Bool.not_true, Bool.false_or] at allowed
    rw [if_pos running]
    dsimp only
    by_cases sooner : task.expiryTime < world.bucket.nextExpiryTime
    · rw [if_pos sooner] at allowed ⊢
      refine .started (by simp [TimerBucket.cancelTimer, attentive.nextExpiry])
        (fun wait member => ?_) attentive.orderly allowed
      rw [TimerBucket.cancelTimer, TimerBucket.emplace_waits] at member
      exact attentive.bounded wait (List.mem_filter.mp member).1
    · rw [if_neg sooner] at allowed ⊢
      rw [attentive.nextExpiry] at sooner
      refine { nextExpiry := by simp [TimerWorld.started, attentive.nextExpiry],
               bounded := by simpa [TimerWorld.started] using attentive.bounded,
               covered := fun _ => ?_, orderly := attentive.orderly }
      rcases attentive.covered running with empty | inside | ⟨early, member, earliest⟩
      · simp only [empty, ne_eq, not_true, decide_false, Bool.false_or] at allowed
        exact .inr (.inl allowed)
      · exact .inr (.inl inside)
      · refine .inr (.inr ⟨early, by simpa [TimerWorld.started] using member,
          fun other pending => ?_⟩)
        rcases TimerBucket.mem_emplace pending with old | rfl
        · exact earliest other old
        · exact Int.le_trans (attentive.bounded early member) (Int.not_lt.mp sooner)
  · rw [if_neg running]
    exact attentive

/-- After a callback of the uppermost pass. -/
theorem finishTask (attentive : Attentive world) {pass : Pass} {below : List Pass}
    (passes : world.passes = pass :: below) {task : TimerTask}
    (member : task ∈ pass.running.toList ++ pass.remaining) {remaining : List TimerTask}
    (fewer : ∀ other ∈ remaining, other ∈ pass.running.toList ++ pass.remaining) :
    Attentive { world with
      bucket := world.bucket.finishTask task,
      passes := ⟨pass.handler, none, remaining⟩ :: below } := by
  have orderly := attentive.orderly
  rw [passes] at orderly
  have sameHandled : handled (⟨pass.handler, none, remaining⟩ :: below) = handled (pass :: below) :=
    rfl
  refine { nextExpiry := by simp [attentive.nextExpiry],
           bounded := by simpa using attentive.bounded,
           covered := fun running => ?_, orderly := ⟨?_, orderly.2⟩ }
  · rcases orderly.1 with inside | oneShot
    · exact .inr (.inl (sameHandled.trans inside))
    · rw [TimerBucket.finishTask_isRunning] at running
      rcases attentive.covered running with empty | inside | ⟨early, isWait, earliest⟩
      · exact .inl ((TimerBucket.finishTask_pendingTasks (oneShot task member)).trans empty)
      · exact .inr (.inl (sameHandled.trans (passes ▸ inside)))
      · refine .inr (.inr ⟨early, by simpa using isWait, fun other pending => ?_⟩)
        rw [TimerBucket.finishTask_pendingTasks (oneShot task member)] at pending
        exact earliest other pending
  · rcases orderly.1 with inside | oneShot
    · exact .inl (sameHandled.trans inside)
    · exact .inr fun other isOther => oneShot other (fewer other (by simpa using isOther))

theorem invoke (attentive : Attentive world) {next : TimerWorld}
    (moved : world.invoke = some next) : Attentive next := by
  rw [TimerWorld.invoke] at moved
  split at moved
  · rename_i handler task remaining below passes
    split at moved
    · cases moved
      have orderly := attentive.orderly
      have covered := attentive.covered
      rw [passes] at orderly covered
      exact { attentive with covered, orderly }
    · cases moved
      exact attentive.finishTask passes (by simp) fun other member => by simp [member]
  · cases moved

theorem leave (attentive : Attentive world) {how : CallbackEnd} {next : TimerWorld}
    (moved : world.leave how = some next)
    (allowed : rearms [] world (some (.leave how)) = true) : Attentive next := by
  rw [TimerWorld.leave] at moved
  split at moved
  · rename_i handler task remaining below passes
    have finished := attentive.finishTask passes (show task ∈ _ from List.mem_cons_self)
      fun other (member : other ∈ remaining) => List.mem_cons_of_mem _ member
    cases how with
    | returned =>
      cases moved
      exact finished
    | stdException =>
      cases moved
      exact finished
    | foreignException =>
      cases moved
      simp only [rearms, passes, Bool.or_eq_true, Bool.not_eq_true'] at allowed
      have orderly := attentive.orderly
      rw [passes] at orderly
      refine { attentive with covered := fun running => ?_, orderly := orderly.2 }
      rcases attentive.covered running with empty | inside | waits
      · exact .inl empty
      · refine .inr (.inl ?_)
        rcases allowed with plain | inBelow
        · simpa [passes, handled, plain] using inside
        · exact inBelow
      · exact .inr (.inr waits)
  · cases moved

theorem endPass (attentive : Attentive world) {next : TimerWorld}
    (moved : world.endPass sorter = some next)
    (allowed : rearms [] world (some .endPass) = true) : Attentive next := by
  have orderly := attentive.orderly
  rw [TimerWorld.endPass] at moved
  split at moved
  · rename_i below passes
    cases moved
    rw [passes] at orderly
    simp only [rearms, passes, Bool.not_true, Bool.false_or] at allowed
    exact .started attentive.nextExpiry attentive.bounded orderly.2 allowed
  · rename_i below passes
    cases moved
    rw [passes] at orderly
    refine { attentive with covered := fun running => ?_, orderly := orderly.2 }
    have covered := attentive.covered running
    rw [passes] at covered
    exact covered
  · cases moved

/-- Every allowed move keeps a bucket attentive. -/
theorem step (attentive : Attentive world) {move : TimerMove} {next : TimerWorld}
    (moved : world.step sorter move = some next) (allowed : rearms [] world (some move) = true) :
    Attentive next := by
  have called {later : TimerWorld} (isCall : world.call later = some next)
      (holds : Attentive later) : Attentive next := by
    rw [TimerWorld.call] at isCall
    split at isCall
    · cases isCall
      exact holds
    · cases isCall
  cases move with
  | advance duration =>
    cases moved
    exact { attentive with }
  | complete place => exact attentive.complete moved
  | fire place =>
    rw [TimerWorld.step] at moved
    split at moved
    · exact attentive.fire moved
    · cases moved
  | start => exact called moved (attentive.start allowed)
  | stop => exact called moved attentive.stop
  | addTask task => exact called moved (attentive.addTask allowed)
  | cancelTask id => exact called moved (attentive.cancelTask id)
  | invoke => exact attentive.invoke moved
  | leave how => exact attentive.leave moved allowed
  | endPass => exact attentive.endPass moved allowed

theorem neverDeaf (attentive : Attentive world) : world.NeverDeaf := by
  intro running idle pending
  rcases attentive.covered running with empty | inside | waits
  · exact absurd empty pending
  · rw [idle] at inside
    cases inside
  · exact waits

end Attentive

/-! ## Runs -/

/-- A run whose moves re-arm never leaves a running bucket deaf. -/
theorem never_deaf (sorter : Sorter TimerTask.before) {moves : List TimerMove} {world : TimerWorld}
    (run : (timerSystem sorter).Runs (System.Guard.of rearms) moves world) : world.NeverDeaf := by
  refine Attentive.neverDeaf ?_
  induction run with
  | initial fresh =>
    obtain ⟨now, rfl⟩ := fresh
    exact { nextExpiry := rfl, bounded := fun _ member => (nomatch member),
            covered := fun _ => .inl rfl, orderly := trivial }
  | move _ moved allowed attentive =>
    obtain ⟨later, isNext, same⟩ := Option.map_eq_some_iff.mp moved
    cases same
    exact attentive.step isNext allowed

/-- A constructed bucket, at time zero. -/
theorem runs_fresh (sorter : Sorter TimerTask.before) (guard : System.Guard TimerWorld TimerMove) :
    (timerSystem sorter).Runs guard [] {} :=
  .initial ⟨0, rfl⟩

/-- A repeating task is processed by the handler of its wait and waited for again. -/
theorem never_deaf_repeating_task :
    ∃ reached, (timerSystem TimerTask.byPriority).follow (System.Guard.of rearms) [] {}
        [.start, .addTask ⟨10, some 0, 1, true, .normal, 1, 0⟩, .advance 20, .complete 0, .fire 0,
          .invoke, .leave .returned, .endPass] = some reached ∧
      reached.2.bucket.pendingTasks ≠ [] ∧ reached.2.passes = [] ∧ reached.2.NeverDeaf :=
  (runs_fresh _ _).reaches rfl fun run => ⟨by decide, rfl, never_deaf _ run⟩

/-- An expired task is added to one which is not: the wait for that one is
cancelled, and nothing waits for it after the pass. -/
theorem expired_task_deafens :
    ¬ ∀ (sorter : Sorter TimerTask.before) (moves : List TimerMove) (world : TimerWorld),
      (timerSystem sorter).Runs System.anyMove moves world → world.NeverDeaf := by
  intro neverDeaf
  have reached : (timerSystem TimerTask.byPriority).follow System.anyMove [] {}
      [.start, .addTask ⟨100, some 0, 0, false, .normal, 1, 0⟩,
        .addTask ⟨0, some 1, 0, false, .normal, 2, 0⟩, .invoke, .leave .returned, .endPass] =
      some (_, { bucket := { pendingTasks := [⟨100, some 0, 0, false, .normal, 1, 0⟩],
                             isRunning := true, totalExecuted := 1 } }) := rfl
  obtain ⟨wait, member, -⟩ := neverDeaf TimerTask.byPriority _ _
    ((runs_fresh _ _).follow reached) rfl rfl (by decide)
  cases member

end Foxhttp.Server
