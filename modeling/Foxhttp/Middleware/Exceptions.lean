import Foxhttp.Middleware.Moves

/-!
# Where exceptions go

The error handling of the chain answers every exception out of a body exactly
once, and in time, in the runs in which no body which throws runs through the
default adapter or belongs to a finished run, error handlers return, and nothing
else completes the run before the answer. Along any run the exceptions answered
and the ones pending are the ones thrown.
-/

namespace Foxhttp.Middleware

open Foxhttp.Library

variable {γ : Type}

/-- A move of the chain with the worlds around it. -/
abbrev ChainMove (γ : Type) := System.Moved (World γ) (Choice γ) Event

/-! ## Exceptions of a history -/

/-- The thread which made a move. -/
def mover (moved : ChainMove γ) : Option (Thread γ) :=
  match moved.choice with
  | .thread index => moved.before.threads[index]?
  | _ => none

/-- No thread makes the moves of the environment. -/
theorem mover_environment {moved : ChainMove γ}
    (environment : ∀ index, moved.choice ≠ .thread index) : mover moved = none := by
  unfold mover
  split
  · rename_i index isThread
    exact absurd isThread (environment index)
  · rfl

/-- The exception which a move lets reach an activation of this kind. -/
def reached (kind : Frame γ → Option CallId) (moved : ChainMove γ) : Option (CallId × Exn) :=
  (mover moved).bind (Thread.reaching kind)

/-- The exception which a move answers. -/
def answered (moved : ChainMove γ) : Option (CallId × Exn) :=
  (mover moved).bind (answeredBy moved.event)

theorem answered_thread {world after : World γ} {index : Nat} {thread : Thread γ}
    {event : Option Event} (found : world.threads[index]? = some thread) :
    answered ⟨world, .thread index, event, after⟩ = answeredBy event thread := by
  have isMover : mover (⟨world, .thread index, event, after⟩ : ChainMove γ) = some thread := found
  rw [answered, isMover, Option.bind_some]

/-- How often the bodies of a call have thrown an exception. -/
def thrown (history : List (ChainMove γ)) (raised : CallId × Exn) : Nat :=
  history.countP fun moved => reached Frame.body? moved == some raised

/-- How often an exception has reached the `catch` of `execute_async` itself. -/
def escaped (history : List (ChainMove γ)) (raised : CallId × Exn) : Nat :=
  history.countP fun moved => reached Frame.tried? moved == some raised

/-- How often an exception of a call has been answered. -/
def answers (history : List (ChainMove γ)) (raised : CallId × Exn) : Nat :=
  history.countP fun moved => answered moved == some raised

/-- How many threads are about to answer an exception. -/
def World.pending (world : World γ) (raised : CallId × Exn) : Nat :=
  world.threads.countP fun thread => thread.pending == some raised

/-- A body called by `execute_next_async_step` has thrown in this call. -/
def AsyncThrown (history : List (ChainMove γ)) (call : CallId) : Prop :=
  ∃ moved ∈ history, ∃ e, reached Frame.asyncBody? moved = some (call, e)

/-- What it is to answer an exception: the error handler of the run is entered
with it, or without one the response becomes a default error. -/
def Answers (program : Program γ) (moved : ChainMove γ) (call : CallId) (e : Exn) : Prop :=
  ∃ run, moved.before.chain.run? call = some run ∧
    match run.errorHandler with
    | some handler =>
        moved.event = some (.errorHandled call e) ∧
          ∃ thread ∈ moved.after.threads,
            thread.control = .code (program.errorHandler handler call e)
    | none =>
        ∃ entry res, moved.before.chain.calls[call]? = some entry ∧
          (res = entry.res.internalError e.message e.code ∨
            res = entry.res.middlewareError e.message) ∧
          moved.after.chain.calls[call]? = some { entry with res := res }

/-- Every exception out of a body is answered exactly once, while its run is
unfinished, and an asynchronous run which such an exception leaves is completed
with `Error`. -/
structure ExceptionsAnswered (program : Program γ) (history : List (ChainMove γ))
    (world : World γ) : Prop where
  once : ∀ raised, 0 < thrown history raised →
    answers history raised + world.pending raised = thrown history raised
  settled : ∀ raised, 0 < thrown history raised → world.chain.unfinished raised.1 = false →
    world.pending raised = 0
  answered : ∀ moved ∈ history, ∀ call e, answered moved = some (call, e) →
    Answers program moved call e
  inTime : ∀ moved ∈ history, ∀ raised, Middleware.answered moved = some raised →
    0 < thrown history raised → moved.before.chain.unfinished raised.1 = true
  attended : ∀ call, AsyncThrown history call → world.chain.unfinished call = true →
    ∃ thread ∈ world.threads, thread.attends call = true
  withError : ∀ call, AsyncThrown history call → ∀ moved ∈ history, ∀ result message,
    moved.event = some (.finished call (some (result, message))) → result = .Error

/-- A run is finished while no exception waits for its answer, and with another
result than `Error` only when none is being answered. -/
def finishesInTime (world : World γ) : Option Event → Bool
  | some (.finished call completion) =>
      (world.threads.all fun thread => thread.pending.all fun raised => raised.1 != call) &&
        (completion.all (fun arguments => decide (arguments.1 = .Error)) ||
          world.threads.all fun thread => !thread.attends call)
  | _ => true

/-- No body that throws runs through the default adapter or for a finished run;
the exception does not also reach `execute_async` itself; error handlers return;
and nothing completes the run before the answer. -/
def exceptionsKept (history : List (ChainMove γ)) (world : World γ) :
    Option (ChainMove γ) → Bool
  | none => true
  | some moved =>
      (reached Frame.adapted? moved).isNone &&
        (reached Frame.body? moved).all (fun raised =>
          world.chain.unfinished raised.1 && escaped history raised == 0) &&
        (reached Frame.tried? moved).all (fun raised => thrown history raised == 0) &&
        (mover moved).all (fun thread => !thread.dropsAnswer) &&
        finishesInTime world moved.event

/-! ## Counting -/

/-- One, if this is the exception. -/
def tally (found : Option (CallId × Exn)) (raised : CallId × Exn) : Nat :=
  if found == some raised then 1 else 0

/-- An exception is due for one reason only. -/
theorem tally_due {thread : Thread γ} (direct : thread.reaching Frame.adapted? = none)
    (raised : CallId × Exn) :
    tally thread.pending raised + tally (thread.reaching Frame.body?) raised +
      tally (thread.reaching Frame.tried?) raised = tally thread.due raised := by
  obtain ⟨control, stack⟩ := thread
  cases control with
  | thrown e =>
      cases stack with
      | nil => rfl
      | cons frame below =>
          cases isStd : e.what? with
          | none =>
              simp [Thread.due, Thread.answering, Thread.pending, Thread.reaching, isStd, tally]
          | some what =>
              cases frame <;>
                simp [Thread.due, Thread.answering, Thread.pending, Thread.reaching, isStd, tally,
                  Frame.asyncBody?, Frame.syncBody?, Frame.tried?, Frame.body?,
                  Frame.adapted?] at direct ⊢
  | _ => rfl

theorem tally_none (raised : CallId × Exn) : tally none raised = 0 := rfl

theorem countP_snoc (history : List (ChainMove γ)) (moved : ChainMove γ)
    (found : ChainMove γ → Option (CallId × Exn)) (raised : CallId × Exn) :
    (history ++ [moved]).countP (fun moved => found moved == some raised) =
      history.countP (fun moved => found moved == some raised) + tally (found moved) raised := by
  rw [List.countP_append, List.countP_singleton, tally]

/-- A thread's move changes what is pending on it. -/
theorem pending_set {world : World γ} {index : Nat} {thread : Thread γ}
    (found : world.threads[index]? = some thread) (chain : Chain γ) (after : Thread γ)
    (raised : CallId × Exn) :
    World.pending ⟨chain, world.threads.set index after⟩ raised + tally thread.pending raised =
      world.pending raised + tally after.pending raised :=
  countP_set found after fun thread => thread.pending == some raised

section Step

variable {program : Program γ} {world after : World γ} {choice : Choice γ}
  {event : Option Event}

/-- A move which is not a thread's adds at most a thread with nothing pending. -/
theorem pending_environment (moved : step program world choice = some (event, after))
    (environment : ∀ index, choice ≠ .thread index) (raised : CallId × Exn) :
    after.pending raised = world.pending raised := by
  obtain ⟨-, -, same | ⟨thread, grown, begun⟩⟩ := environment_moves moved environment
  · rw [World.pending, same, World.pending]
  · have calm : thread.pending = none := by
      rcases begun with ⟨code, rfl⟩ | ⟨timer, rfl⟩ <;> rfl
    simp [World.pending, grown, calm]

/-- An exception which is due is answered or pending after the move. -/
theorem step_accounts (moved : step program world choice = some (event, after))
    (direct : reached Frame.adapted? ⟨world, choice, event, after⟩ = none)
    (raised : CallId × Exn) :
    tally (answered ⟨world, choice, event, after⟩) raised + after.pending raised =
      world.pending raised + tally (reached Frame.body? ⟨world, choice, event, after⟩) raised +
        tally (reached Frame.tried? ⟨world, choice, event, after⟩) raised := by
  by_cases own : ∃ index, choice = .thread index
  · obtain ⟨index, rfl⟩ := own
    obtain ⟨thread, move, found, advanced, rfl, rfl⟩ := step_thread program moved
    have isMover (after : World γ) :
        mover (⟨world, .thread index, move.event, after⟩ : ChainMove γ) = some thread := found
    simp only [reached, isMover, Option.bind_some] at direct ⊢
    have due := tally_due direct raised
    have changed := pending_set found move.chain move.thread raised
    rw [answered_thread found]
    rcases advance_deals advanced with ⟨answers, isDue, calm⟩ | ⟨nothing, takes⟩
    · rw [answers, isDue]
      rw [calm, tally_none] at changed
      omega
    · rw [nothing, tally_none]
      rw [takes] at changed
      omega
  · have environment := not_exists.mp own
    obtain ⟨rfl, -⟩ := step_environment program moved environment
    have noMover : mover (⟨world, choice, none, after⟩ : ChainMove γ) = none :=
      mover_environment environment
    have unchanged := pending_environment moved environment raised
    simp only [answered, reached, noMover, Option.bind_none, tally_none, unchanged]
    exact Nat.zero_add _

end Step

/-! ## Along a run -/

theorem unfinished_true_iff {chain : Chain γ} {call : CallId} :
    chain.unfinished call = true ↔
      ∃ run, chain.run? call = some run ∧ run.state.finished = false := by
  unfold Chain.unfinished
  cases chain.run? call <;> simp

/-- What the guard says of a move. -/
structure KeepsExceptions (history : List (ChainMove γ)) (world : World γ)
    (moved : ChainMove γ) : Prop where
  direct : reached Frame.adapted? moved = none
  throws : ∀ raised, reached Frame.body? moved = some raised →
    world.chain.unfinished raised.1 = true ∧ escaped history raised = 0
  escapes : ∀ raised, reached Frame.tried? moved = some raised → thrown history raised = 0
  returns : ∀ thread, mover moved = some thread → thread.dropsAnswer = false
  finishes : ∀ call completion, moved.event = some (.finished call completion) →
    (∀ thread ∈ world.threads, ∀ raised, thread.pending = some raised → raised.1 ≠ call) ∧
      (completion.all (fun arguments => decide (arguments.1 = .Error)) = true ∨
        ∀ thread ∈ world.threads, thread.attends call = false)

theorem keepsExceptions_of_guard {history : List (ChainMove γ)} {world : World γ}
    {moved : ChainMove γ} (allowed : exceptionsKept history world (some moved) = true) :
    KeepsExceptions history world moved := by
  simp only [exceptionsKept, Bool.and_eq_true, Option.isNone_iff_eq_none] at allowed
  obtain ⟨⟨⟨⟨direct, throws⟩, escapes⟩, returns⟩, finishes⟩ := allowed
  refine ⟨direct, fun raised isRaised => ?_, fun raised isRaised => ?_, fun thread isMover => ?_,
    fun call completion reported => ?_⟩
  · simpa [isRaised] using throws
  · simpa [isRaised] using escapes
  · simpa [isMover] using returns
  · simp only [finishesInTime, reported, Bool.and_eq_true, Bool.or_eq_true,
      List.all_eq_true] at finishes
    refine ⟨fun thread member raised isPending => ?_,
      finishes.2.imp_right fun none thread member => ?_⟩
    · simpa [isPending] using finishes.1 thread member
    · simpa using none thread member

/-- What every allowed move preserves: each exception is pending or answered,
and a run which an exception leaves is attended until it is finished. -/
structure Accounted (program : Program γ) (history : List (ChainMove γ)) (world : World γ) :
    Prop where
  counts : ∀ raised, answers history raised + world.pending raised =
    thrown history raised + escaped history raised
  apart : ∀ raised, 0 < thrown history raised → escaped history raised = 0
  waiting : ∀ raised, 0 < thrown history raised → 0 < world.pending raised →
    world.chain.unfinished raised.1 = true
  answered : ∀ moved ∈ history, ∀ call e, Middleware.answered moved = some (call, e) →
    Answers program moved call e
  inTime : ∀ moved ∈ history, ∀ raised, Middleware.answered moved = some raised →
    0 < thrown history raised → moved.before.chain.unfinished raised.1 = true
  attended : ∀ call, AsyncThrown history call → world.ledger.Finished call ∨
    world.chain.unfinished call = true ∧ ∃ thread ∈ world.threads, thread.attends call = true
  ended : ∀ moved ∈ history, ∀ call completion,
    moved.event = some (.finished call completion) → world.ledger.Finished call
  withError : ∀ call, AsyncThrown history call → ∀ moved ∈ history, ∀ result message,
    moved.event = some (.finished call (some (result, message))) → result = .Error

section Preserved

variable {program : Program γ} {guard : System.Guard (World γ) Event} {events : List Event}
  {history : List (ChainMove γ)} {world after : World γ} {choice : Choice γ}
  {event : Option Event} {call : CallId}

/-- An unfinished run is unfinished still, or finished by the move. -/
theorem step_unfinished (run : (system program).Runs guard events world)
    (moved : step program world choice = some (event, after))
    (going : world.chain.unfinished call = true) :
    after.chain.unfinished call = true ∨
      after.ledger.Finished call ∧ ∃ completion, event = some (.finished call completion) := by
  obtain ⟨entered, found, down⟩ := unfinished_true_iff.mp going
  have known := World.ledger_runs found
  obtain ⟨view, present, -⟩ := step_grows run moved known
  cases still : after.chain.unfinished call with
  | true => exact .inl rfl
  | false =>
      have finished := finished_of_not_unfinished present still
      exact .inr ⟨finished,
        (step_finishes moved finished).resolve_left (Ledger.not_finished known down)⟩

theorem not_finished_of_unfinished (going : world.chain.unfinished call = true) :
    ¬ world.ledger.Finished call := by
  obtain ⟨entered, found, down⟩ := unfinished_true_iff.mp going
  exact Ledger.not_finished (World.ledger_runs found) down

/-- A thread's move, with what it did. -/
theorem step_mover {thread : Thread γ}
    (moved : step program world choice = some (event, after))
    (isMover : mover ⟨world, choice, event, after⟩ = some thread) :
    ∃ index move, choice = .thread index ∧ world.threads[index]? = some thread ∧
      advance program world.chain thread = some move ∧ event = move.event ∧
      after = ⟨move.chain, world.threads.set index move.thread⟩ := by
  cases choice with
  | thread index =>
      obtain ⟨other, move, found, advanced, reported, shape⟩ := step_thread program moved
      have same : other = thread := Option.some.inj (found.symm.trans isMover)
      exact ⟨index, move, rfl, isMover, same ▸ advanced, reported, shape⟩
  | _ => cases isMover

/-- A move in which a body throws finishes no run. -/
theorem reached_not_finishes (moved : step program world choice = some (event, after))
    {raised : CallId × Exn}
    (throws : reached Frame.body? ⟨world, choice, event, after⟩ = some raised)
    (completion : Option (MiddlewareResult × String)) :
    event ≠ some (.finished call completion) := by
  obtain ⟨thread, isMover, fromThread⟩ := Option.bind_eq_some_iff.mp throws
  obtain ⟨index, move, -, -, advanced, rfl, -⟩ := step_mover moved isMover
  exact throws_not_finishes advanced fromThread call completion

theorem tried_of_reached {moved : ChainMove γ} {raised : CallId × Exn}
    (throws : reached Frame.body? moved = some raised) : reached Frame.tried? moved = none := by
  obtain ⟨thread, isMover, fromThread⟩ := Option.bind_eq_some_iff.mp throws
  rw [reached, isMover]
  exact tried_of_body fromThread

theorem tally_pos_iff {found : Option (CallId × Exn)} {raised : CallId × Exn} :
    0 < tally found raised ↔ found = some raised := by
  unfold tally
  split <;> simp_all

/-- An exception which a body has thrown was thrown before or now. -/
theorem thrown_snoc {taken : ChainMove γ} {raised : CallId × Exn}
    (throws : 0 < thrown (history ++ [taken]) raised) :
    reached Frame.body? taken = some raised ∨
      0 < thrown history raised ∧ tally (reached Frame.body? taken) raised = 0 := by
  rw [thrown, countP_snoc] at throws
  by_cases now : reached Frame.body? taken = some raised
  · exact .inl now
  · have none : tally (reached Frame.body? taken) raised = 0 :=
      Nat.eq_zero_of_not_pos (mt tally_pos_iff.mp now)
    exact .inr ⟨by rwa [none] at throws, none⟩

/-- An exception which a body has thrown before does not reach `execute_async`. -/
theorem KeepsExceptions.untried {taken : ChainMove γ} (kept : KeepsExceptions history world taken)
    {raised : CallId × Exn} (before : 0 < thrown history raised) :
    tally (reached Frame.tried? taken) raised = 0 := by
  refine Nat.eq_zero_of_not_pos fun escapes => ?_
  exact Nat.ne_of_gt before (kept.escapes raised (tally_pos_iff.mp escapes))

theorem Accounted.apart_step (accounted : Accounted program history world)
    {taken : ChainMove γ} (kept : KeepsExceptions history world taken) {raised : CallId × Exn}
    (throws : 0 < thrown (history ++ [taken]) raised) :
    escaped (history ++ [taken]) raised = 0 := by
  rw [escaped, countP_snoc]
  rcases thrown_snoc throws with now | ⟨before, -⟩
  · rw [tried_of_reached now, tally_none]
    exact (kept.throws raised now).2
  · rw [kept.untried before]
    exact accounted.apart raised before

theorem Accounted.counts_step (accounted : Accounted program history world)
    (moved : step program world choice = some (event, after))
    (kept : KeepsExceptions history world ⟨world, choice, event, after⟩)
    (raised : CallId × Exn) :
    answers (history ++ [⟨world, choice, event, after⟩]) raised + after.pending raised =
      thrown (history ++ [⟨world, choice, event, after⟩]) raised +
        escaped (history ++ [⟨world, choice, event, after⟩]) raised := by
  have now := step_accounts moved kept.direct raised
  have before := accounted.counts raised
  unfold answers thrown escaped at before ⊢
  rw [countP_snoc, countP_snoc, countP_snoc]
  omega

/-- What is pending after a move was so before, or its body throws now. -/
theorem KeepsExceptions.pending_step
    (moved : step program world choice = some (event, after))
    (kept : KeepsExceptions history world ⟨world, choice, event, after⟩)
    {raised : CallId × Exn} (before : 0 < thrown history raised)
    (calm : tally (reached Frame.body? ⟨world, choice, event, after⟩) raised = 0) :
    tally (Middleware.answered ⟨world, choice, event, after⟩) raised + after.pending raised =
      world.pending raised := by
  have now := step_accounts moved kept.direct raised
  rw [calm, kept.untried before] at now
  exact now

theorem Accounted.waiting_step (accounted : Accounted program history world)
    (run : (system program).Runs guard events world)
    (moved : step program world choice = some (event, after))
    (kept : KeepsExceptions history world ⟨world, choice, event, after⟩)
    {raised : CallId × Exn}
    (throws : 0 < thrown (history ++ [⟨world, choice, event, after⟩]) raised)
    (waits : 0 < after.pending raised) : after.chain.unfinished raised.1 = true := by
  rcases thrown_snoc throws with now | ⟨before, calm⟩
  · refine (step_unfinished run moved (kept.throws raised now).1).resolve_right ?_
    rintro ⟨-, completion, finishes⟩
    exact reached_not_finishes moved now completion finishes
  · have same := kept.pending_step moved before calm
    have waited : 0 < world.pending raised := by omega
    refine (step_unfinished run moved (accounted.waiting raised before waited)).resolve_right ?_
    rintro ⟨-, completion, finishes⟩
    obtain ⟨thread, member, isPending⟩ := List.countP_pos_iff.mp waited
    exact (kept.finishes raised.1 completion finishes).1 thread member raised
      (by simpa using isPending) rfl

theorem Accounted.inTime_step (accounted : Accounted program history world)
    (moved : step program world choice = some (event, after))
    (kept : KeepsExceptions history world ⟨world, choice, event, after⟩)
    {taken : ChainMove γ} (member : taken ∈ history ++ [⟨world, choice, event, after⟩])
    {raised : CallId × Exn} (isAnswer : Middleware.answered taken = some raised)
    (throws : 0 < thrown (history ++ [⟨world, choice, event, after⟩]) raised) :
    taken.before.chain.unfinished raised.1 = true := by
  rcases List.mem_append.mp member with old | new
  · rcases thrown_snoc throws with now | ⟨before, -⟩
    · -- nothing has been answered before the first throw
      by_cases before : 0 < thrown history raised
      · exact accounted.inTime taken old raised isAnswer before
      · have counts := accounted.counts raised
        rw [(kept.throws raised now).2, Nat.eq_zero_of_not_pos before] at counts
        have answers : 0 < answers history raised :=
          List.countP_pos_iff.mpr ⟨taken, old, by simp [isAnswer]⟩
        omega
    · exact accounted.inTime taken old raised isAnswer before
  · obtain rfl := List.mem_singleton.mp new
    rcases thrown_snoc throws with now | ⟨before, calm⟩
    · exact (kept.throws raised now).1
    · have same := kept.pending_step moved before calm
      have one := tally_pos_iff.mpr isAnswer
      exact accounted.waiting raised before (by omega)

theorem answers_step (moved : step program world choice = some (event, after)) {e : Exn}
    (isAnswer : Middleware.answered ⟨world, choice, event, after⟩ = some (call, e)) :
    Answers program ⟨world, choice, event, after⟩ call e := by
  by_cases own : ∃ index, choice = .thread index
  · obtain ⟨index, rfl⟩ := own
    obtain ⟨thread, move, found, advanced, rfl, rfl⟩ := step_thread program moved
    rw [answered_thread found] at isAnswer
    obtain ⟨within, -⟩ := List.getElem?_eq_some_iff.mp found
    obtain ⟨run, isRun, does⟩ := advance_answers advanced isAnswer
    refine ⟨run, isRun, ?_⟩
    cases handled : run.errorHandler with
    | some handler =>
        rw [handled] at does
        exact ⟨does.1, move.thread, List.mem_set within move.thread, does.2⟩
    | none =>
        rw [handled] at does
        exact does
  · rw [Middleware.answered, mover_environment (not_exists.mp own)] at isAnswer
    cases isAnswer

/-- A run which was attended is attended, or finished. -/
theorem attended_step (run : (system program).Runs guard events world)
    (moved : step program world choice = some (event, after))
    (kept : KeepsExceptions history world ⟨world, choice, event, after⟩)
    (going : world.chain.unfinished call = true)
    (attends : ∃ thread ∈ world.threads, thread.attends call = true) :
    after.ledger.Finished call ∨
      after.chain.unfinished call = true ∧
        ∃ thread ∈ after.threads, thread.attends call = true := by
  rcases step_unfinished run moved going with still | ⟨finished, -⟩
  · obtain ⟨thread, member, attends⟩ := attends
    obtain ⟨place, found⟩ := List.mem_iff_getElem?.mp member
    by_cases own : choice = .thread place
    · subst own
      obtain ⟨other, move, isOther, advanced, rfl, rfl⟩ := step_thread program moved
      obtain rfl : other = thread := Option.some.inj (isOther.symm.trans found)
      have within := (List.getElem?_eq_some_iff.mp found).1
      obtain ⟨entered, isRun, -⟩ := unfinished_true_iff.mp going
      rcases advance_attends advanced (kept.returns other found) isRun attends with
        attends | ⟨view, isView, up⟩
      · exact .inr ⟨still, move.thread, List.mem_set within move.thread, attends⟩
      · exact .inl ((finished_iff _ call).mpr ⟨view, isView, up⟩)
    · have stays := List.mem_of_getElem? (step_other moved found own)
      exact .inr ⟨still, thread, stays, attends⟩
  · exact .inl finished

/-- The thread whose body throws attends to the exception. -/
theorem attends_of_throw (moved : step program world choice = some (event, after)) {e : Exn}
    (throws : reached Frame.asyncBody? ⟨world, choice, event, after⟩ = some (call, e)) :
    ∃ thread ∈ after.threads, thread.attends call = true := by
  obtain ⟨thread, isMover, fromThread⟩ := Option.bind_eq_some_iff.mp throws
  obtain ⟨index, move, -, found, advanced, rfl, rfl⟩ := step_mover moved isMover
  obtain ⟨within, -⟩ := List.getElem?_eq_some_iff.mp found
  obtain ⟨-, isDue, unanswered⟩ := body_of_asyncBody fromThread
  refine ⟨move.thread, List.mem_set within move.thread, ?_⟩
  rcases advance_deals advanced with ⟨-, same, -⟩ | ⟨-, takes⟩
  · rw [unanswered, isDue] at same
    cases same
  · exact attends_of_pending (takes.trans isDue)

theorem body_of_reached {taken : ChainMove γ} {raised : CallId × Exn}
    (throws : reached Frame.asyncBody? taken = some raised) :
    reached Frame.body? taken = some raised := by
  obtain ⟨thread, isMover, fromThread⟩ := Option.bind_eq_some_iff.mp throws
  rw [reached, isMover]
  exact (body_of_asyncBody fromThread).1

theorem asyncThrown_snoc {taken : ChainMove γ} (throws : AsyncThrown (history ++ [taken]) call) :
    AsyncThrown history call ∨ ∃ e, reached Frame.asyncBody? taken = some (call, e) := by
  obtain ⟨other, member, e, isThrow⟩ := throws
  rcases List.mem_append.mp member with old | new
  · exact .inl ⟨other, old, e, isThrow⟩
  · exact .inr ⟨e, List.mem_singleton.mp new ▸ isThrow⟩

theorem Accounted.attended_step (accounted : Accounted program history world)
    (run : (system program).Runs guard events world)
    (moved : step program world choice = some (event, after))
    (kept : KeepsExceptions history world ⟨world, choice, event, after⟩)
    (throws : AsyncThrown (history ++ [⟨world, choice, event, after⟩]) call) :
    after.ledger.Finished call ∨
      after.chain.unfinished call = true ∧
        ∃ thread ∈ after.threads, thread.attends call = true := by
  rcases asyncThrown_snoc throws with before | ⟨e, now⟩
  · rcases accounted.attended call before with finished | ⟨going, attends⟩
    · exact .inl (step_finished run moved finished)
    · exact Middleware.attended_step run moved kept going attends
  · have going := (kept.throws _ (body_of_reached now)).1
    rcases step_unfinished run moved going with still | ⟨finished, -⟩
    · exact .inr ⟨still, attends_of_throw moved now⟩
    · exact .inl finished

theorem Accounted.ended_step (accounted : Accounted program history world)
    (run : (system program).Runs guard events world)
    (moved : step program world choice = some (event, after))
    {taken : ChainMove γ} (member : taken ∈ history ++ [⟨world, choice, event, after⟩])
    {completion : Option (MiddlewareResult × String)}
    (finishes : taken.event = some (.finished call completion)) : after.ledger.Finished call := by
  rcases List.mem_append.mp member with old | new
  · exact step_finished run moved (accounted.ended taken old call completion finishes)
  · obtain rfl := List.mem_singleton.mp new
    obtain rfl : event = some (.finished call completion) := finishes
    exact step_finish moved

/-- A run which a move finishes was not finished before. -/
theorem not_finished_before (moved : step program world choice = some (event, after))
    {completion : Option (MiddlewareResult × String)}
    (finishes : event = some (.finished call completion)) : ¬ world.ledger.Finished call := by
  subst finishes
  obtain ⟨⟨view, found, down⟩, -⟩ := (refines program).event moved
  exact Ledger.not_finished found down

theorem Accounted.withError_step (accounted : Accounted program history world)
    (moved : step program world choice = some (event, after))
    (kept : KeepsExceptions history world ⟨world, choice, event, after⟩)
    (throws : AsyncThrown (history ++ [⟨world, choice, event, after⟩]) call)
    {taken : ChainMove γ} (member : taken ∈ history ++ [⟨world, choice, event, after⟩])
    {result : MiddlewareResult} {message : String}
    (finishes : taken.event = some (.finished call (some (result, message)))) :
    result = .Error := by
  rcases List.mem_append.mp member with old | new
  · rcases asyncThrown_snoc throws with before | ⟨e, now⟩
    · exact accounted.withError call before taken old result message finishes
    · have going := (kept.throws _ (body_of_reached now)).1
      exact absurd (accounted.ended taken old call _ finishes) (not_finished_of_unfinished going)
  · obtain rfl := List.mem_singleton.mp new
    rcases asyncThrown_snoc throws with before | ⟨e, now⟩
    · obtain ⟨-, attends⟩ := (accounted.attended call before).resolve_left
        (not_finished_before moved finishes)
      obtain ⟨thread, isThread, attends⟩ := attends
      rcases (kept.finishes call _ finishes).2 with isError | unattended
      · simpa using isError
      · rw [unattended thread isThread] at attends
        cases attends
    · exact absurd finishes (reached_not_finishes moved (body_of_reached now) _)

end Preserved

variable {program : Program γ}

/-- The accounts are kept along every run whose moves all meet the condition. -/
theorem run_accounted {history : List (ChainMove γ)} {world : World γ}
    (run : (system program).recorded.Runs (System.Guard.of exceptionsKept) history world) :
    Accounted program history world := by
  refine run.invariant ?_ ?_
  · rintro world ⟨settings, stats, now, rfl⟩
    exact
      { counts := fun _ => rfl
        apart := fun _ throws => absurd throws (Nat.lt_irrefl 0)
        waiting := fun _ throws => absurd throws (Nat.lt_irrefl 0)
        answered := fun _ member => absurd member List.not_mem_nil
        inTime := fun _ member => absurd member List.not_mem_nil
        attended := fun _ ⟨_, member, _⟩ => absurd member List.not_mem_nil
        ended := fun _ member => absurd member List.not_mem_nil
        withError := fun _ _ _ member => absurd member List.not_mem_nil }
  · intro history world choice taken after prior accounted transition allowed
    obtain ⟨event, moved, rfl⟩ := System.recorded_step transition
    obtain ⟨events, run⟩ := prior.unrecorded
    have kept := keepsExceptions_of_guard allowed
    exact
      { counts := accounted.counts_step moved kept
        apart := fun _ => accounted.apart_step kept
        waiting := fun _ => accounted.waiting_step run moved kept
        answered := by
          intro taken member call e isAnswer
          rcases List.mem_append.mp member with old | new
          · exact accounted.answered taken old call e isAnswer
          · obtain rfl := List.mem_singleton.mp new
            exact answers_step moved isAnswer
        inTime := fun _ member _ => accounted.inTime_step moved kept member
        attended := fun _ => accounted.attended_step run moved kept
        ended := fun _ member _ _ => accounted.ended_step run moved member
        withError := fun _ throws _ member _ _ =>
          accounted.withError_step moved kept throws member }

/-- **Exceptions are answered** in every run of the machine, under every program
and interleaving, in which no body that throws runs through the default adapter
or for a finished run, no exception of a body also reaches `execute_async`
itself, error handlers return, and no run is finished ahead of an answer. -/
theorem exceptions_answered {history : List (ChainMove γ)} {world : World γ}
    (run : (system program).recorded.Runs (System.Guard.of exceptionsKept) history world) :
    ExceptionsAnswered program history world := by
  have accounted := run_accounted run
  exact
    { once := fun raised throws => by
        have counts := accounted.counts raised
        rwa [accounted.apart raised throws, Nat.add_zero] at counts
      settled := fun raised throws done => by
        refine Nat.eq_zero_of_not_pos fun waits => ?_
        rw [accounted.waiting raised throws waits] at done
        cases done
      answered := accounted.answered
      inTime := accounted.inTime
      attended := fun call throws going =>
        ((accounted.attended call throws).resolve_left (not_finished_of_unfinished going)).2
      withError := accounted.withError }

/-- Middlewares without an asynchronous override which throw. -/
def Program.throwing : Program γ :=
  { Program.inert with body := fun _ _ => .throw (.std "boom") }

/-- An asynchronous override which throws, with an error handler. -/
theorem exceptions_answered_override :
    ∃ reached : List (ChainMove Unit) × World Unit,
      (system (Program.overriding fun _ _ => .throw (.std "boom"))).recorded.follow
          (System.Guard.of exceptionsKept) []
          ⟨.fresh { Settings.plain [0] with errorHandler := some 0 } (fun _ => ⟨0, 0, 0, 0⟩) 0, []⟩
          (alone (.request ()) 14) = some reached ∧
        thrown reached.1 (0, .std "boom") = 1 ∧ answers reached.1 (0, .std "boom") = 1 ∧
        ExceptionsAnswered (Program.overriding fun _ _ => .throw (.std "boom")) reached.1
          reached.2 := by
  have start : (system (Program.overriding fun _ _ => .throw (.std "boom"))).recorded.Runs
      (System.Guard.of exceptionsKept) ([] : List (ChainMove Unit))
      ⟨.fresh { Settings.plain [0] with errorHandler := some 0 } (fun _ => ⟨0, 0, 0, 0⟩) 0, []⟩ :=
    .initial ⟨_, _, _, rfl⟩
  exact start.reaches rfl fun run => ⟨rfl, rfl, exceptions_answered run⟩

/-- The default adapter completes the run with `Error` and leaves the error
handler out. -/
theorem adapter_hides_exception :
    ∃ reached : List (ChainMove Unit) × World Unit,
      (system Program.throwing).recorded.follow System.anyMove []
          ⟨.fresh { Settings.plain [0] with errorHandler := some 0 } (fun _ => ⟨0, 0, 0, 0⟩) 0, []⟩
          (alone (.request ()) 13) = some reached ∧
        ¬ ExceptionsAnswered Program.throwing reached.1 reached.2 := by
  refine ⟨_, rfl, fun answered => ?_⟩
  have once := answered.once (0, .std "boom") (by decide)
  cases once

end Foxhttp.Middleware
