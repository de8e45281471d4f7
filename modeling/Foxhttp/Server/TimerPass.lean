import Mathlib.Data.List.Pairwise
import Foxhttp.Server.TimerArming

/-!
# One pass over the expired tasks

A pass takes the expired tasks out of the map, sorts them by priority, and calls
them one after the other. A repeating task is put back for its next time. Nothing
is lost or called twice, but tasks of one priority are called in whatever order
the map and the sort leave them in.
-/

namespace Foxhttp.Server

open Foxhttp.Library

namespace TimerTask

/-- `operator>`. -/
def greater (task other : TimerTask) : Bool :=
  if task.priority ≠ other.priority then decide (task.priority.toNat < other.priority.toNat)
  else decide (other.expiryTime < task.expiryTime)

/-- The task which is put back after a repeating one has run. -/
def renewed (task : TimerTask) : TimerTask :=
  { task with expiryTime := task.nextExecutionTime }

end TimerTask

/-- How the callback of a task ends, and what it has made of the bucket then. -/
abbrev Callbacks := TimerTask → TimerBucket → CallbackEnd × TimerBucket

/-- The callbacks return or throw a `std::exception`, and do not call the bucket. -/
def Callbacks.Quiet (callbacks : Callbacks) : Prop :=
  ∀ task bucket, (callbacks task bucket).1 ≠ .foreignException ∧ (callbacks task bucket).2 = bucket

namespace TimerBucket

/-- The loop of `process_expired_tasks`: the tasks whose callbacks it calls, in
order, and the bucket it leaves. -/
def runExpired (callbacks : Callbacks) : List TimerTask → TimerBucket →
    List TimerTask × TimerBucket
  | [], bucket => ([], bucket)
  | task :: rest, bucket =>
      match task.callback with
      | none => runExpired callbacks rest (bucket.finishTask task)
      | some _ =>
          let (how, bucket) := callbacks task bucket
          match how with
          | .foreignException => ([task], bucket)
          | .returned | .stdException =>
              let (called, bucket) := runExpired callbacks rest (bucket.finishTask task)
              (task :: called, bucket)

/-- `process_expired_tasks`. -/
def processExpiredTasks (sorter : Sorter TimerTask.before) (callbacks : Callbacks) (now : Int)
    (bucket : TimerBucket) : List TimerTask × TimerBucket :=
  let (expired, rest) := bucket.takeExpired sorter now
  runExpired callbacks expired rest

/-- The map has one task for an id, and the counter is a `size_t`. -/
structure Valid (bucket : TimerBucket) : Prop where
  distinct : (bucket.pendingTasks.map TimerTask.id).Nodup
  counted : bucket.totalExecuted < UInt64.size

/-- What a pass makes of a bucket, and the tasks whose callbacks it calls: those
which have expired, once each and none before one of a higher priority. The
repeating ones are put back and the others are gone. -/
structure Conserves (now : Int) (before after : TimerBucket) (called : List TimerTask) : Prop where
  exactlyOnce : called.Perm
    (before.pendingTasks.filter fun task => task.isExpired now && task.callback.isSome)
  order : called.Pairwise fun first second => second.priority.toNat ≤ first.priority.toNat
  pending : after.pendingTasks.Perm
    (before.pendingTasks.filter (fun task => !task.isExpired now) ++
      (before.pendingTasks.filter fun task => task.isExpired now && task.isRepeating).map
        TimerTask.renewed)
  executed : after.totalExecuted =
    (before.totalExecuted + before.pendingTasks.countP (TimerTask.isExpired now)) % UInt64.size
  rest : after = { before with
    pendingTasks := after.pendingTasks, totalExecuted := after.totalExecuted }
  valid : after.Valid

/-- Callbacks run in the order of `operator>`, whatever order the map yields the
tasks in, however equals are sorted, and whatever the callbacks do. -/
def FiresInTimerOrder (now : Int) (bucket : TimerBucket) : Prop :=
  ∀ (sorter : Sorter TimerTask.before) (callbacks : Callbacks) (yielded : List TimerTask),
    yielded.Perm bucket.pendingTasks →
      (processExpiredTasks sorter callbacks now { bucket with pendingTasks := yielded }).1.Pairwise
        fun first second => first.greater second = false

/-- Expired tasks of one priority with callbacks expire at one time. -/
def EqualsTogether (now : Int) (bucket : TimerBucket) : Prop :=
  ∀ first ∈ bucket.pendingTasks, ∀ second ∈ bucket.pendingTasks,
    first.isExpired now = true → second.isExpired now = true →
      first.callback.isSome = true → second.callback.isSome = true →
        first.priority = second.priority → first.expiryTime = second.expiryTime

/-! ## The loop -/

/-- A task with a fresh id is put back, whatever else. -/
theorem finishTask_eq {bucket : TimerBucket} {task : TimerTask}
    (fresh : task.id ∉ bucket.pendingTasks.map TimerTask.id) :
    bucket.finishTask task = { bucket with
      pendingTasks := bucket.pendingTasks ++ if task.isRepeating then [task.renewed] else []
      totalExecuted := (bucket.totalExecuted + 1) % UInt64.size } := by
  have absent : (bucket.pendingTasks.any fun other => other.id == task.id) = false := by
    simpa using fresh
  rw [finishTask]
  split
  · simp only [emplace, absent, Bool.false_eq_true, if_false]
    rfl
  · simp

theorem runExpired_cons {callbacks : Callbacks} (quiet : callbacks.Quiet) (task : TimerTask)
    (rest : List TimerTask) (bucket : TimerBucket) :
    runExpired callbacks (task :: rest) bucket =
      ([task].filter (fun task => task.callback.isSome) ++
          (runExpired callbacks rest (bucket.finishTask task)).1,
        (runExpired callbacks rest (bucket.finishTask task)).2) := by
  obtain ⟨ends, unchanged⟩ := quiet task bucket
  rw [runExpired]
  cases callback : task.callback with
  | none => simp [callback]
  | some id =>
      simp only [unchanged]
      cases how : (callbacks task bucket).1 with
      | foreignException => exact absurd how ends
      | returned => simp [callback]
      | stdException => simp [callback]

/-- With callbacks which do not call the bucket, every callback is called. -/
theorem runExpired_called {callbacks : Callbacks} (quiet : callbacks.Quiet)
    (tasks : List TimerTask) (bucket : TimerBucket) :
    (runExpired callbacks tasks bucket).1 = tasks.filter fun task => task.callback.isSome := by
  induction tasks generalizing bucket with
  | nil => rfl
  | cons task rest inductionHypothesis =>
      rw [runExpired_cons quiet, inductionHypothesis, ← List.filter_append]
      rfl

/-- With callbacks which do not call the bucket, every task is counted, and the
repeating ones are put back. -/
theorem runExpired_bucket {callbacks : Callbacks} (quiet : callbacks.Quiet)
    (tasks : List TimerTask) {bucket : TimerBucket}
    (distinct : ((bucket.pendingTasks ++ tasks).map TimerTask.id).Nodup)
    (counted : bucket.totalExecuted < UInt64.size) :
    (runExpired callbacks tasks bucket).2 = { bucket with
      pendingTasks := bucket.pendingTasks ++
        (tasks.filter TimerTask.isRepeating).map TimerTask.renewed
      totalExecuted := (bucket.totalExecuted + tasks.length) % UInt64.size } := by
  induction tasks generalizing bucket with
  | nil => simp [runExpired, Nat.mod_eq_of_lt counted]
  | cons task rest inductionHypothesis =>
      have fresh : task.id ∉ bucket.pendingTasks.map TimerTask.id := by
        rw [List.map_append, List.map_cons] at distinct
        exact fun member => (List.nodup_append.mp distinct).2.2 _ member _ List.mem_cons_self rfl
      have later : (((bucket.finishTask task).pendingTasks ++ rest).map TimerTask.id).Nodup := by
        rw [finishTask_eq fresh]
        refine distinct.sublist ?_
        split
        · simp [TimerTask.renewed]
        · simp
      have smaller : (bucket.finishTask task).totalExecuted < UInt64.size := by
        rw [finishTask_eq fresh]
        exact Nat.mod_lt _ (by decide)
      rw [runExpired_cons quiet, inductionHypothesis later smaller, finishTask_eq fresh,
        List.filter_cons, List.length_cons, Nat.mod_add_mod, Nat.add_assoc,
        Nat.add_comm 1 rest.length]
      split <;> simp

/-- Whatever the callbacks do, they are called in the order of the tasks. -/
theorem called_inOrder (callbacks : Callbacks) (tasks : List TimerTask) (bucket : TimerBucket) :
    (runExpired callbacks tasks bucket).1 <+: tasks.filter fun task => task.callback.isSome := by
  induction tasks generalizing bucket with
  | nil => exact List.prefix_refl []
  | cons task rest inductionHypothesis =>
      rw [runExpired]
      cases callback : task.callback with
      | none =>
          rw [List.filter_cons_of_neg (by simp [callback])]
          exact inductionHypothesis _
      | some id =>
          rw [List.filter_cons_of_pos (by simp [callback])]
          obtain ⟨how, changed⟩ := callbacks task bucket
          cases how with
          | foreignException => exact List.prefix_append [task] _
          | returned => exact List.cons_prefix_cons.mpr ⟨rfl, inductionHypothesis _⟩
          | stdException => exact List.cons_prefix_cons.mpr ⟨rfl, inductionHypothesis _⟩

/-! ## A pass -/

/-- **A pass conserves tasks** when the callbacks return or throw a
`std::exception`, and do not call the bucket. -/
theorem pass_conserves (sorter : Sorter TimerTask.before) {callbacks : Callbacks}
    (quiet : callbacks.Quiet) (now : Int) {bucket : TimerBucket} (valid : bucket.Valid) :
    Conserves now bucket (bucket.processExpiredTasks sorter callbacks now).2
      (bucket.processExpiredTasks sorter callbacks now).1 := by
  let kept := bucket.pendingTasks.filter fun task => !task.isExpired now
  let expired := sorter.sort (bucket.pendingTasks.filter (TimerTask.isExpired now))
  have sorted : expired.Perm (bucket.pendingTasks.filter (TimerTask.isExpired now)) :=
    sorter.perm _
  have parts : (kept ++ expired).Perm bucket.pendingTasks :=
    (sorted.append_left _).trans
      (List.perm_append_comm.trans (List.filter_append_perm _ bucket.pendingTasks))
  have distinct : ((kept ++ expired).map TimerTask.id).Nodup :=
    (parts.map TimerTask.id).nodup_iff.mpr valid.distinct
  have filtered (test : TimerTask → Bool) : (expired.filter test).Perm
      (bucket.pendingTasks.filter fun task => task.isExpired now && test task) := by
    simpa [Bool.and_comm] using sorted.filter test
  have called : (bucket.processExpiredTasks sorter callbacks now).1 =
      expired.filter fun task => task.callback.isSome := runExpired_called quiet expired _
  have left : (bucket.processExpiredTasks sorter callbacks now).2 = { bucket with
      pendingTasks := kept ++ (expired.filter TimerTask.isRepeating).map TimerTask.renewed
      totalExecuted := (bucket.totalExecuted + expired.length) % UInt64.size } :=
    @runExpired_bucket callbacks quiet expired { bucket with pendingTasks := kept } distinct
      valid.counted
  rw [called, left]
  constructor
  · exact filtered fun task => task.callback.isSome
  · refine ((sorter.sorted _).filter _).imp fun {first second} notBefore => ?_
    simpa [TimerTask.before] using notBefore
  · exact ((filtered TimerTask.isRepeating).map _).append_left _
  · rw [List.countP_eq_length_filter, ← sorted.length_eq]
  · rfl
  · refine ⟨distinct.sublist ?_, Nat.mod_lt _ (by decide)⟩
    rw [List.map_append, List.map_append, List.map_map]
    exact (List.Sublist.refl _).append (List.filter_sublist.map TimerTask.id)

/-- Three expired tasks and one which is not: the callback of the second throws. -/
def fourTasks : TimerBucket where
  pendingTasks :=
    [⟨5, some 0, 0, false, .low, 1, 0⟩, ⟨4, some 1, 2, true, .critical, 2, 0⟩,
      ⟨9, some 2, 0, false, .high, 3, 0⟩, ⟨1, none, 3, true, .normal, 4, 0⟩]
  isRunning := true

def secondThrows : Callbacks :=
  fun task bucket => (if task.id = 2 then .stdException else .returned, bucket)

theorem secondThrows_quiet : secondThrows.Quiet := by
  intro task bucket
  refine ⟨?_, rfl⟩
  simp only [secondThrows]
  split <;> decide

theorem pass_conserves_four :
    Conserves 5 fourTasks
      (fourTasks.processExpiredTasks TimerTask.byPriority secondThrows 5).2
      (fourTasks.processExpiredTasks TimerTask.byPriority secondThrows 5).1 :=
  pass_conserves TimerTask.byPriority secondThrows_quiet 5 ⟨by decide, by decide⟩

/-- The moves of the loop of a pass. -/
def passMoves (ends : TimerTask → CallbackEnd) : List TimerTask → List TimerMove
  | [] => []
  | task :: rest =>
      .invoke :: (if task.callback.isSome then [.leave (ends task)] else []) ++ passMoves ends rest

/-- The moves of the bucket in the loop of a pass lead to what the loop leaves. -/
theorem foldlM_passMoves (sorter : Sorter TimerTask.before) {ends : TimerTask → CallbackEnd}
    (contained : ∀ task, ends task ≠ .foreignException) (tasks : List TimerTask)
    (world : TimerWorld) (handler : Bool) (below : List Pass)
    (begun : world.passes = ⟨handler, none, tasks⟩ :: below) :
    (passMoves ends tasks).foldlM (TimerWorld.step sorter) world = some { world with
      bucket := (runExpired (fun task bucket => (ends task, bucket)) tasks world.bucket).2
      passes := ⟨handler, none, []⟩ :: below } := by
  have quiet : Callbacks.Quiet fun task bucket => (ends task, bucket) :=
    fun task _ => ⟨contained task, rfl⟩
  induction tasks generalizing world with
  | nil =>
      rw [← begun]
      rfl
  | cons task rest inductionHypothesis =>
      let finished : TimerWorld := { world with
        bucket := world.bucket.finishTask task, passes := ⟨handler, none, rest⟩ :: below }
      have onward := inductionHypothesis finished rfl
      have turn : (.invoke :: if task.callback.isSome then [.leave (ends task)] else []).foldlM
          (TimerWorld.step sorter) world = some finished := by
        cases callback : task.callback with
        | none => simp [TimerWorld.step, TimerWorld.invoke, begun, callback, finished]
        | some id =>
            have ended := contained task
            cases how : ends task with
            | foreignException => exact absurd how ended
            | returned =>
                simp [TimerWorld.step, TimerWorld.invoke, TimerWorld.leave, begun, callback,
                  finished]
            | stdException =>
                simp [TimerWorld.step, TimerWorld.invoke, TimerWorld.leave, begun, callback,
                  finished]
      rw [passMoves, List.foldlM_append, turn, runExpired_cons quiet]
      exact onward

/-! ## The order of a pass -/

theorem toNat_inj {first second : TimerPriority} (same : first.toNat = second.toNat) :
    first = second := by
  cases first <;> cases second <;> first | rfl | cases same

/-- A finer order than that of the pass, with the latest of equals first. -/
def latestFirst (first second : TimerTask) : Bool :=
  decide (second.priority.toNat < first.priority.toNat ∨
    first.priority.toNat = second.priority.toNat ∧ second.expiryTime < first.expiryTime)

theorem latestFirst_asymmetric (first second : TimerTask)
    (before : latestFirst first second = true) : latestFirst second first = false := by
  simp only [latestFirst, decide_eq_true_eq, decide_eq_false_iff_not] at *
  omega

theorem latestFirst_incomparable (first second third : TimerTask)
    (firstTwo : latestFirst second first = false) (lastTwo : latestFirst third second = false) :
    latestFirst third first = false := by
  simp only [latestFirst, decide_eq_false_iff_not] at *
  omega

/-- A sort by the finer order. -/
def latestSorter : Sorter latestFirst :=
  .insertion latestFirst_asymmetric latestFirst_incomparable

/-- A sort which a pass may use. -/
def byLatest : Sorter TimerTask.before :=
  latestSorter.refine fun first second less => by
    simp only [TimerTask.before, latestFirst, decide_eq_true_eq] at *
    exact .inl less

/-- In timer order with the latest of equals first, equals expire at one time. -/
theorem expiryTime_eq {first second : TimerTask} (inOrder : first.greater second = false)
    (latest : latestFirst second first = false) (same : first.priority = second.priority) :
    first.expiryTime = second.expiryTime := by
  rw [TimerTask.greater, if_neg (not_not.mpr same), decide_eq_false_iff_not] at inOrder
  rw [latestFirst, decide_eq_false_iff_not, same] at latest
  omega

/-- **Timers due together fire in timer order** exactly when those of one
priority expire at one time. -/
theorem firesInTimerOrder_iff (now : Int) (bucket : TimerBucket) :
    bucket.FiresInTimerOrder now ↔ bucket.EqualsTogether now := by
  constructor
  · intro fires first isFirst second isSecond firstDue secondDue firstCalls secondCalls same
    let expired := byLatest.sort (bucket.pendingTasks.filter (TimerTask.isExpired now))
    have called : (expired.filter fun task => task.callback.isSome).Pairwise
        fun first second => first.greater second = false := by
      have quiet : Callbacks.Quiet fun _ bucket => (.returned, bucket) :=
        fun _ _ => ⟨CallbackEnd.noConfusion, rfl⟩
      rw [← runExpired_called quiet expired]
      exact fires byLatest (fun _ bucket => (.returned, bucket)) _ (.refl _)
    have latest : (expired.filter fun task => task.callback.isSome).Pairwise
        fun first second => latestFirst second first = false :=
      (latestSorter.sorted _).filter _
    have member {task : TimerTask} (isTask : task ∈ bucket.pendingTasks)
        (due : task.isExpired now = true) (calls : task.callback.isSome = true) :
        task ∈ expired.filter fun task => task.callback.isSome :=
      List.mem_filter.mpr ⟨byLatest.mem_sort.mpr (List.mem_filter.mpr ⟨isTask, due⟩), calls⟩
    have pairs := (called.and latest).imp fun both => expiryTime_eq both.1 both.2
    have symmetric : Std.Symm fun first second : TimerTask =>
        first.priority = second.priority → first.expiryTime = second.expiryTime :=
      ⟨fun _ _ agree same => (agree same.symm).symm⟩
    exact List.Pairwise.forall_of_forall (fun _ _ _ => rfl) pairs
      (member isFirst firstDue firstCalls) (member isSecond secondDue secondCalls) same
  · intro together sorter callbacks yielded perm
    have sorted : ((sorter.sort (yielded.filter (TimerTask.isExpired now))).filter
        fun task => task.callback.isSome).Pairwise
          fun first second => second.before first = false := (sorter.sorted _).filter _
    refine (sorted.imp_of_mem ?_).sublist (called_inOrder callbacks _ _).sublist
    intro first second isFirst isSecond notBefore
    simp only [List.mem_filter, sorter.mem_sort, perm.mem_iff] at isFirst isSecond
    rw [TimerTask.before, decide_eq_false_iff_not] at notBefore
    rw [TimerTask.greater]
    split
    · rename_i different
      exact decide_eq_false fun lower => different (toNat_inj (by omega))
    · rename_i same
      have equal := together first isFirst.1.1 second isSecond.1.1 isFirst.1.2 isSecond.1.2
        isFirst.2 isSecond.2 (not_not.mp same)
      simp [equal]

/-- Two tasks of one priority, the later of them yielded first. -/
theorem equals_out_of_order :
    ¬ ∀ (now : Int) (bucket : TimerBucket), bucket.FiresInTimerOrder now := by
  intro firesInOrder
  have fires := firesInOrder 5
    { pendingTasks := [⟨4, some 0, 0, false, .normal, 1, 0⟩, ⟨1, some 1, 0, false, .normal, 2, 0⟩] }
    TimerTask.byPriority (fun _ bucket => (.returned, bucket)) _ (.refl _)
  revert fires
  decide

end TimerBucket

end Foxhttp.Server
