import Foxhttp.Middleware.Timeouts

/-!
# What the chain does with an exception

A `std::exception` out of a middleware body is caught where the driver called
the body. The synchronous driver answers it on the spot, the asynchronous one
hands it to `handle_error_run`. The default adapter catches it first and signals
`Error` instead.
-/

namespace Foxhttp.Middleware

variable {γ : Type}

/-! ## Exceptions on their way -/

/-- The call whose body a driver or the default adapter called. -/
def Frame.body? : Frame γ → Option CallId
  | .asyncBody call _ => some call
  | .syncBody call _ => some call
  | .adapterBody handle => some handle.call
  | _ => none

/-- The call whose body the default adapter called. -/
def Frame.adapted? : Frame γ → Option CallId
  | .adapterBody handle => some handle.call
  | _ => none

/-- The call whose body `execute_next_async_step` called. -/
def Frame.asyncBody? : Frame γ → Option CallId
  | .asyncBody call _ => some call
  | _ => none

/-- The call whose body `execute_next_sync` called. -/
def Frame.syncBody? : Frame γ → Option CallId
  | .syncBody call _ => some call
  | _ => none

/-- The call whose first step `execute_async` called. -/
def Frame.tried? : Frame γ → Option CallId
  | .executeAsyncTry call => some call
  | _ => none

namespace Thread

/-- The `std::exception` which reaches an activation of this kind, with the call
of the activation. -/
def reaching (kind : Frame γ → Option CallId) (thread : Thread γ) : Option (CallId × Exn) :=
  match thread.control, thread.stack with
  | .thrown e, frame :: _ => if e.what?.isSome then (kind frame).map (·, e) else none
  | _, _ => none

/-- The exception which `handle_error_run` is about to answer. -/
def pending (thread : Thread γ) : Option (CallId × Exn) :=
  match thread.control with
  | .handleError call e => some (call, e)
  | _ => none

/-- The exception which the thread's next move answers. -/
def answering (thread : Thread γ) : Option (CallId × Exn) :=
  thread.pending.or (thread.reaching Frame.syncBody?)

/-- An exception of the call is being answered: it is pending, its error handler
runs, or the run is about to be completed with `Error`. -/
def attends (call : CallId) (thread : Thread γ) : Bool :=
  (match thread.control with
    | .handleError other _ => other == call
    | .completeRun other .Error _ => other == call
    | _ => false) ||
  thread.stack.any fun
    | .errorHandled other _ => other == call
    | _ => false

/-- An error handler which `handle_error_run` called throws. -/
def dropsAnswer (thread : Thread γ) : Bool :=
  match thread.control, thread.stack with
  | .thrown _, .errorHandled _ _ :: _ => true
  | _, _ => false

end Thread

/-! ## What a move does with an exception -/

namespace Thread

/-- The exception which the error handling of the chain has to answer or to take
over in the thread's next move. -/
def due (thread : Thread γ) : Option (CallId × Exn) :=
  thread.answering.or ((thread.reaching Frame.asyncBody?).or (thread.reaching Frame.tried?))

end Thread

/-- The exception which a move of a thread answers: it enters the error handler,
or the chain sets the response itself. -/
def answeredBy (event : Option Event) (thread : Thread γ) : Option (CallId × Exn) :=
  match event with
  | some (.errorHandled call e) => some (call, e)
  | some (.responded _) => thread.answering
  | _ => none

/-- A move which neither answers an exception nor takes one over. -/
structure Quiet (move : Move γ) : Prop where
  unanswered : ∀ call e, move.event ≠ some (.errorHandled call e)
  pending : move.thread.pending = none

theorem Quiet.silent {chain : Chain γ} {thread : Thread γ} (pending : thread.pending = none) :
    Quiet ⟨none, chain, thread⟩ :=
  ⟨fun _ _ => by simp, pending⟩

/-- A quiet move of a thread which answers nothing. -/
theorem Quiet.answeredBy {move : Move γ} (quiet : Quiet move) {thread : Thread γ}
    (answering : thread.answering = none) : answeredBy move.event thread = none := by
  unfold Middleware.answeredBy
  split
  · rename_i call e reported
    exact absurd reported (quiet.unanswered call e)
  · exact answering
  · rfl

section Functions

variable {program : Program γ} {chain : Chain γ} {call : CallId} {stack : List (Frame γ)}

theorem completeAsyncRun_quiet (result : MiddlewareResult) (message : String) :
    Quiet (completeAsyncRun program chain call result message stack) := by
  unfold completeAsyncRun
  split
  · exact ⟨by simp, rfl⟩
  · split <;> exact ⟨by simp, rfl⟩

theorem handleTimeoutRun_quiet (run : Run) :
    Quiet (handleTimeoutRun program chain call run stack) := by
  unfold handleTimeoutRun
  split <;> exact ⟨by simp, rfl⟩

theorem answerTimeout_quiet (run : Run) :
    Quiet (answerTimeout program chain call run stack) := by
  unfold answerTimeout
  split <;> exact ⟨by simp, rfl⟩

theorem executeNextAsyncStep_quiet {run : Run} {move : Move γ}
    (moved : executeNextAsyncStep program chain call run stack = some move) : Quiet move := by
  unfold executeNextAsyncStep at moved
  split at moved
  · cases moved
    exact ⟨by simp, rfl⟩
  · split at moved
    · cases moved
      exact ⟨by simp, rfl⟩
    · split at moved
      · cases moved
      · cases moved
        exact ⟨by simp, rfl⟩

theorem executeNextSync_quiet {run : Run} {move : Move γ}
    (moved : executeNextSync program chain call run stack = some move) : Quiet move := by
  unfold executeNextSync at moved
  split at moved
  · cases moved
    exact ⟨by simp, rfl⟩
  · split at moved
    · cases moved
      exact ⟨by simp, rfl⟩
    · split at moved
      · cases moved
      · cases moved
        exact ⟨by simp, rfl⟩

theorem startAsyncBody_quiet (position : Nat) (mw : MiddlewareId) :
    Quiet (startAsyncBody program chain call position mw stack) := by
  unfold startAsyncBody
  dsimp only
  split <;> exact ⟨by simp, rfl⟩

theorem asyncCallback_quiet (handle : Handle) (run : Run) (result : MiddlewareResult)
    (message : String) : Quiet (asyncCallback chain handle run result message stack) := by
  cases result <;> exact ⟨by simp [asyncCallback], rfl⟩

theorem next_quiet (handle : Handle) (run : Run) : Quiet (next chain handle run stack) := by
  refine ⟨by simp [next], ?_⟩
  unfold next
  cases run.mode <;> rfl

theorem invoke_quiet {operation : Operation γ} {move : Move γ}
    (moved : invoke program chain stack operation = some move) : Quiet move := by
  cases operation with
  | next handle =>
      simp only [invoke] at moved
      split at moved
      · cases moved
      · split at moved
        · cases moved
          exact next_quiet _ _
        · cases moved
  | callback handle result message =>
      simp only [invoke] at moved
      split at moved
      · cases moved
      · split at moved
        · cases moved
          exact ⟨by simp, rfl⟩
        · cases moved
  | execute ctx res =>
      cases moved
      unfold execute
      split <;> exact ⟨by simp, rfl⟩
  | executeAsync ctx res callback =>
      cases moved
      unfold executeAsync
      split
      · split <;> exact ⟨by simp, rfl⟩
      · exact ⟨by simp, rfl⟩
  | cancel | pause | resume | configure _ =>
      cases moved
      exact ⟨by simp, rfl⟩

theorem runCode_quiet {code : Code γ} {move : Move γ}
    (moved : runCode program chain stack code = some move) : Quiet move := by
  cases code with
  | ret verdict | throw e =>
      cases moved
      exact ⟨by simp, rfl⟩
  | access other write rest =>
      simp only [runCode] at moved
      split at moved
      · cases moved
      · cases moved
        exact ⟨by simp, rfl⟩
  | invoke operation rest => exact invoke_quiet moved

theorem timerHandler_quiet {timer : TimerId} {move : Move γ}
    (moved : timerHandler chain timer stack = some move) : Quiet move := by
  unfold timerHandler at moved
  split at moved
  · cases moved
  · split at moved
    · cases moved
    · split at moved
      · cases moved
        exact ⟨by simp, rfl⟩
      · dsimp only at moved
        split at moved <;> cases moved <;> exact ⟨by simp, rfl⟩

theorem finishRun_quiet (run : Run) (stage : FinishStage)
    (completion : Option (MiddlewareResult × String)) (after : Code γ) :
    Quiet (finishRun chain run stage call completion after stack) := by
  cases stage with
  | cancelGlobal | cancelMiddleware => exact .silent rfl
  | unregister => exact ⟨by simp [finishRun], rfl⟩

theorem leaveRun_quiet (rest : Code γ) : Quiet (leaveRun chain call rest stack) := by
  unfold leaveRun
  split <;> exact ⟨by simp, rfl⟩

theorem catchUnknown_quiet (e : Exn) :
    Quiet (catchUnknown program chain call e stack) := by
  unfold catchUnknown
  split
  · exact leaveRun_quiet _
  · split <;> exact ⟨by simp, rfl⟩

theorem resume_quiet {verdict : Bool} {frame : Frame γ} {move : Move γ}
    (moved : resume program chain verdict stack frame = some move) : Quiet move := by
  cases frame with
  | asyncSelect other position | syncSelect other position =>
      simp only [resume] at moved
      split at moved
      · split at moved
        · cases moved
        · split at moved
          · cases moved
          · cases moved
            first
              | exact startAsyncBody_quiet _ _
              | exact ⟨by simp [startSyncBody], rfl⟩
      · cases moved
        exact ⟨by simp, rfl⟩
  | syncBody other position =>
      simp only [resume] at moved
      split at moved
      · cases moved
      · cases moved
        exact ⟨by simp, rfl⟩
  | executeTry other =>
      cases moved
      exact leaveRun_quiet _
  | timerDone timer =>
      simp only [resume] at moved
      split at moved
      · cases moved
        exact ⟨by simp, rfl⟩
      · cases moved
  | await _ | asyncBody _ _ | adapterBody _ | adapterCallback _ | errorHandled _ _
  | timeoutHandled _ | executeAsyncTry _ | rethrow _ =>
      cases moved
      exact ⟨by simp, rfl⟩

/-- What a move does with the exception that is due: it answers it, or it takes
it over to `handle_error_run`. -/
def Deals (thread : Thread γ) (move : Move γ) : Prop :=
  (answeredBy move.event thread = thread.answering ∧ thread.answering = thread.due ∧
      move.thread.pending = none) ∨
    (answeredBy move.event thread = none ∧ move.thread.pending = thread.due)

theorem Quiet.deals {move : Move γ} (quiet : Quiet move) {thread : Thread γ}
    (calm : thread.due = none) : Deals thread move := by
  have answering : thread.answering = none := (Option.or_eq_none_iff.mp calm).1
  exact .inl ⟨(quiet.answeredBy answering).trans answering.symm, answering.trans calm.symm,
    quiet.pending⟩

theorem handleErrorRun_deals (run : Run) (e : Exn) :
    Deals ⟨.handleError call e, stack⟩ (handleErrorRun program chain call run e stack) := by
  unfold handleErrorRun
  split <;> exact .inl ⟨rfl, rfl, rfl⟩

/-- The call whose driver, or whose `execute_async`, catches what leaves this
activation. -/
def Frame.caught? (frame : Frame γ) : Option CallId :=
  frame.syncBody?.or (frame.asyncBody?.or frame.tried?)

/-- Of an exception on its way only a `std::exception` is due, and only where it
is caught. -/
theorem due_thrown (e : Exn) (frame : Frame γ) :
    (⟨.thrown e, frame :: stack⟩ : Thread γ).due =
      if e.what?.isSome then frame.caught?.map (·, e) else none := by
  simp only [Thread.due, Thread.answering, Thread.pending, Thread.reaching, Option.none_or]
  cases e.what? with
  | none => rfl
  | some what => cases frame <;> rfl

theorem due_std {e : Exn} {what : String} (isStd : e.what? = some what) {frame : Frame γ}
    (caught : frame.caught? = some call) :
    (⟨.thrown e, frame :: stack⟩ : Thread γ).due = some (call, e) := by
  rw [due_thrown, caught, isStd, Option.isSome_some, if_pos rfl, Option.map_some]

theorem due_foreign {e : Exn} (foreign : e.what? = none) (frame : Frame γ) :
    (⟨.thrown e, frame :: stack⟩ : Thread γ).due = none := by
  rw [due_thrown, foreign, Option.isSome_none, if_neg Bool.false_ne_true]

theorem due_uncaught {frame : Frame γ} (uncaught : frame.caught? = none) (e : Exn) :
    (⟨.thrown e, frame :: stack⟩ : Thread γ).due = none := by
  rw [due_thrown, uncaught, Option.map_none, ite_self]

theorem unwind_deals {e : Exn} {frame : Frame γ} {move : Move γ}
    (moved : unwind program chain e stack frame = some move) :
    Deals ⟨.thrown e, frame :: stack⟩ move := by
  cases frame with
  | asyncBody other position =>
      simp only [unwind] at moved
      split at moved
      · rename_i what isStd
        cases moved
        refine .inr ⟨rfl, ?_⟩
        rw [due_std isStd rfl]
        rfl
      · rename_i foreign
        cases moved
        exact Quiet.deals (.silent rfl) (due_foreign foreign _)
      · cases moved
  | executeAsyncTry other =>
      simp only [unwind] at moved
      split at moved
      · rename_i what isStd
        cases moved
        refine .inr ⟨rfl, ?_⟩
        rw [due_std isStd rfl]
        rfl
      · rename_i foreign
        cases moved
        exact (catchUnknown_quiet e).deals (due_foreign foreign _)
  | syncBody other position =>
      simp only [unwind] at moved
      split at moved
      · rename_i what isStd
        have answering : (⟨.thrown e, .syncBody other position :: stack⟩ : Thread γ).answering =
            some (other, e) := by
          simp [Thread.answering, Thread.pending, Thread.reaching, isStd, Frame.syncBody?]
        have due : (⟨.thrown e, .syncBody other position :: stack⟩ : Thread γ).due =
            some (other, e) := due_std isStd rfl
        split at moved <;> cases moved
        · exact .inl ⟨answering.symm, answering.trans due.symm, rfl⟩
        · exact .inl ⟨rfl, answering.trans due.symm, rfl⟩
      · rename_i foreign
        cases moved
        exact Quiet.deals (.silent rfl) (due_foreign foreign _)
      · cases moved
  | adapterBody handle | adapterCallback handle =>
      simp only [unwind] at moved
      split at moved <;> cases moved <;> exact Quiet.deals (.silent rfl) (due_uncaught rfl e)
  | executeTry other =>
      cases moved
      exact (leaveRun_quiet _).deals (due_uncaught rfl e)
  | timerDone timer =>
      simp only [unwind] at moved
      split at moved
      · cases moved
        exact Quiet.deals (.silent rfl) (due_uncaught rfl e)
      · cases moved
  | await _ | asyncSelect _ _ | syncSelect _ _ | errorHandled _ _ | timeoutHandled _
  | rethrow _ =>
      cases moved
      exact Quiet.deals ⟨by simp, rfl⟩ (due_uncaught rfl e)

theorem advance_deals {thread : Thread γ} {move : Move γ}
    (advanced : advance program chain thread = some move) : Deals thread move := by
  obtain ⟨control, stack⟩ := thread
  cases control with
  | code code => exact (runCode_quiet advanced).deals rfl
  | asyncCallback handle result message =>
      obtain ⟨run, -, rfl⟩ := Option.map_eq_some_iff.mp advanced
      exact (asyncCallback_quiet handle run result message).deals rfl
  | asyncStep other =>
      obtain ⟨run, -, advanced⟩ := Option.bind_eq_some_iff.mp advanced
      exact (executeNextAsyncStep_quiet advanced).deals rfl
  | syncStep other =>
      obtain ⟨run, -, advanced⟩ := Option.bind_eq_some_iff.mp advanced
      exact (executeNextSync_quiet advanced).deals rfl
  | handleError other e =>
      obtain ⟨run, -, rfl⟩ := Option.map_eq_some_iff.mp advanced
      exact handleErrorRun_deals run e
  | handleTimeout other =>
      obtain ⟨run, -, rfl⟩ := Option.map_eq_some_iff.mp advanced
      exact (handleTimeoutRun_quiet run).deals rfl
  | answerTimeout other =>
      obtain ⟨run, -, rfl⟩ := Option.map_eq_some_iff.mp advanced
      exact (answerTimeout_quiet run).deals rfl
  | completeRun other result message =>
      cases advanced
      exact (completeAsyncRun_quiet result message).deals rfl
  | finishing stage other completion after =>
      obtain ⟨run, -, rfl⟩ := Option.map_eq_some_iff.mp advanced
      exact (finishRun_quiet run stage completion after).deals rfl
  | timerHandler timer => exact (timerHandler_quiet advanced).deals rfl
  | cancelling calls =>
      cases calls <;> cases advanced <;> exact Quiet.deals ⟨by simp, rfl⟩ rfl
  | returned verdict =>
      cases stack with
      | nil => cases advanced
      | cons frame below => exact (resume_quiet advanced).deals rfl
  | thrown e =>
      cases stack with
      | nil => cases advanced
      | cons frame below => exact unwind_deals advanced

/-- What it is for a move to answer an exception: the error handler of the run is
entered with it, or without one the response becomes a default error. -/
def Move.Answers (program : Program γ) (chain : Chain γ) (call : CallId) (e : Exn)
    (move : Move γ) : Prop :=
  ∃ run, chain.run? call = some run ∧
    match run.errorHandler with
    | some handler =>
        move.event = some (.errorHandled call e) ∧
          move.thread.control = .code (program.errorHandler handler call e)
    | none =>
        ∃ entry res, chain.calls[call]? = some entry ∧
          (res = entry.res.internalError e.message e.code ∨
            res = entry.res.middlewareError e.message) ∧
          move.chain.calls[call]? = some { entry with res := res }

theorem Chain.respond_calls {run : Run} (found : chain.run? call = some run)
    (answer : Response → Response) :
    ∃ entry, chain.calls[call]? = some entry ∧
      (chain.respond call answer).calls[call]? = some { entry with res := answer entry.res } := by
  obtain ⟨entry, isEntry, -⟩ := Option.bind_eq_some_iff.mp found
  exact ⟨entry, isEntry, by simp [Chain.respond, isEntry]⟩

theorem Chain.countError_calls (run : Run) (position : Nat) :
    (chain.countError run position).calls = chain.calls := by
  unfold Chain.countError
  split <;> rfl

theorem handleErrorRun_answers {run : Run} (found : chain.run? call = some run) (e : Exn) :
    (handleErrorRun program chain call run e stack).Answers program chain call e := by
  refine ⟨run, found, ?_⟩
  unfold handleErrorRun
  cases run.errorHandler with
  | some handler => exact ⟨rfl, rfl⟩
  | none =>
      obtain ⟨entry, isEntry, after⟩ := chain.respond_calls found (·.internalError e.message e.code)
      exact ⟨entry, _, isEntry, .inl rfl, after⟩

/-- The synchronous driver answers what its body throws. -/
theorem syncBody_answers {e : Exn} {what : String} (isStd : e.what? = some what) {position : Nat}
    {move : Move γ} (moved : unwind program chain e stack (.syncBody call position) = some move) :
    move.Answers program chain call e := by
  have message : e.message = what := by rw [Exn.message, isStd]; rfl
  simp only [unwind, isStd] at moved
  cases found : chain.run? call with
  | none => simp [found] at moved
  | some run =>
      simp only [found] at moved
      refine ⟨run, found, ?_⟩
      cases handled : run.errorHandler with
      | some handler =>
          rw [handled] at moved
          cases moved
          exact ⟨rfl, rfl⟩
      | none =>
          rw [handled] at moved
          cases moved
          have counted : (chain.countError run position).run? call = some run := by
            rw [Chain.run?, chain.countError_calls]
            exact found
          obtain ⟨entry, isEntry, after⟩ := Chain.respond_calls counted (·.middlewareError what)
          rw [chain.countError_calls] at isEntry
          exact ⟨entry, _, isEntry, .inr (by rw [message]), after⟩

/-- A move which answers an exception answers it as it must. -/
theorem advance_answers {thread : Thread γ} {move : Move γ}
    (advanced : advance program chain thread = some move) {e : Exn}
    (isAnswer : answeredBy move.event thread = some (call, e)) :
    move.Answers program chain call e := by
  have answering : thread.answering = some (call, e) := by
    rcases advance_deals advanced with ⟨same, -, -⟩ | ⟨nothing, -⟩
    · exact same.symm.trans isAnswer
    · rw [isAnswer] at nothing
      cases nothing
  obtain ⟨control, stack⟩ := thread
  cases control with
  | handleError other raised =>
      cases answering
      obtain ⟨run, found, rfl⟩ := Option.map_eq_some_iff.mp advanced
      exact handleErrorRun_answers found e
  | thrown raised =>
      cases stack with
      | nil => cases answering
      | cons frame below =>
          cases isStd : raised.what? with
          | none => simp [Thread.answering, Thread.pending, Thread.reaching, isStd] at answering
          | some what =>
              cases frame with
              | syncBody other position =>
                  simp only [Thread.answering, Thread.pending, Thread.reaching, isStd,
                    Frame.syncBody?, Option.isSome_some, if_true, Option.map_some,
                    Option.none_or, Option.some.injEq, Prod.mk.injEq] at answering
                  obtain ⟨rfl, rfl⟩ := answering
                  exact syncBody_answers isStd advanced
              | _ =>
                  simp [Thread.answering, Thread.pending, Thread.reaching, isStd,
                    Frame.syncBody?] at answering
  | _ => cases answering

theorem attends_iff {thread : Thread γ} :
    thread.attends call = true ↔
      (∃ e, thread.control = .handleError call e) ∨
        (∃ message, thread.control = .completeRun call .Error message) ∨
          ∃ e, .errorHandled call e ∈ thread.stack := by
  have inStack : (thread.stack.any fun
      | .errorHandled other _ => other == call
      | _ => false) = true ↔ ∃ e, .errorHandled call e ∈ thread.stack := by
    rw [List.any_eq_true]
    constructor
    · rintro ⟨frame, member, isCall⟩
      cases frame with
      | errorHandled other e =>
          obtain rfl := beq_iff_eq.mp isCall
          exact ⟨e, member⟩
      | _ => cases isCall
    · rintro ⟨e, member⟩
      exact ⟨_, member, beq_self_eq_true call⟩
  rw [Thread.attends, Bool.or_eq_true, inStack, ← or_assoc]
  refine or_congr_left ?_
  cases thread.control with
  | completeRun other result message => cases result <;> simp
  | _ => simp

theorem attends_of_pending {thread : Thread γ} {e : Exn}
    (pending : thread.pending = some (call, e)) : thread.attends call = true := by
  obtain ⟨control, stack⟩ := thread
  cases control with
  | handleError other raised =>
      cases pending
      exact attends_iff.mpr (.inl ⟨e, rfl⟩)
  | _ => cases pending

/-- An exception which is being answered is being answered still, or its run is
finished. -/
theorem advance_attends {thread : Thread γ} {move : Move γ} {run : Run}
    (advanced : advance program chain thread = some move)
    (kept : thread.dropsAnswer = false) (found : chain.run? call = some run)
    (attends : thread.attends call = true) :
    move.thread.attends call = true ∨
      ∃ after, move.chain.run? call = some after ∧ after.state.finished = true := by
  obtain ⟨control, stack⟩ := thread
  rcases attends_iff.mp attends with ⟨e, rfl⟩ | ⟨message, rfl⟩ | ⟨e, member⟩
  · obtain ⟨other, -, rfl⟩ := Option.map_eq_some_iff.mp advanced
    refine .inl (attends_iff.mpr ?_)
    unfold handleErrorRun
    split
    · exact .inr (.inr ⟨e, List.mem_cons_self⟩)
    · exact .inr (.inl ⟨_, rfl⟩)
  · cases advanced
    exact .inr (finished_of_completeRun found _ _ _)
  · by_cases leaves : Thread.leavesTimer ⟨control, stack⟩
    · obtain ⟨timer, below, rfl, leaving⟩ := leaves
      obtain ⟨-, -, -, -, -, same, -⟩ := advance_leavesTimer leaving advanced
      rcases List.mem_cons.mp member with isTimer | member
      · cases isTimer
      · exact .inl (attends_iff.mpr (.inr (.inr ⟨e, same ▸ member⟩)))
    · obtain ⟨-, pushed, grown, -⟩ := advance_framed advanced leaves
      have stays (inBase : .errorHandled call e ∈ Thread.base ⟨control, stack⟩) :
          move.thread.attends call = true := by
        refine attends_iff.mpr (.inr (.inr ⟨e, ?_⟩))
        rw [grown]
        exact List.mem_append_right _ inBase
      by_cases leaving : (∃ verdict, control = .returned verdict) ∨
          ∃ raised, control = .thrown raised
      · cases stack with
        | nil => cases member
        | cons frame below =>
            rcases List.mem_cons.mp member with rfl | inBelow
            · rcases leaving with ⟨verdict, rfl⟩ | ⟨raised, rfl⟩
              · cases advanced
                exact .inl (attends_iff.mpr (.inr (.inl ⟨_, rfl⟩)))
              · cases kept
            · rcases leaving with ⟨verdict, rfl⟩ | ⟨raised, rfl⟩ <;> exact .inl (stays inBelow)
      · refine .inl (stays ?_)
        cases control with
        | returned verdict => exact absurd (.inl ⟨verdict, rfl⟩) leaving
        | thrown raised => exact absurd (.inr ⟨raised, rfl⟩) leaving
        | _ => exact member

end Functions

/-- An exception out of a body does not reach `execute_async` in the same move. -/
theorem tried_of_body {thread : Thread γ} {raised : CallId × Exn}
    (throws : thread.reaching Frame.body? = some raised) : thread.reaching Frame.tried? = none := by
  obtain ⟨control, stack⟩ := thread
  cases control with
  | thrown e =>
      cases stack with
      | nil => rfl
      | cons frame below =>
          cases isStd : e.what? with
          | none => simp [Thread.reaching, isStd]
          | some what =>
              cases frame with
              | executeAsyncTry call =>
                  simp [Thread.reaching, isStd, Frame.body?] at throws
              | _ => simp [Thread.reaching, isStd, Frame.tried?]
  | _ => rfl

/-- A body called by `execute_next_async_step` is a body. -/
theorem body_of_asyncBody {thread : Thread γ} {raised : CallId × Exn}
    (throws : thread.reaching Frame.asyncBody? = some raised) :
    thread.reaching Frame.body? = some raised ∧ thread.due = some raised ∧
      thread.answering = none := by
  obtain ⟨control, stack⟩ := thread
  cases control with
  | thrown e =>
      cases stack with
      | nil => cases throws
      | cons frame below =>
          cases isStd : e.what? with
          | none => simp [Thread.reaching, isStd] at throws
          | some what =>
              cases frame with
              | asyncBody call position =>
                  simp only [Thread.reaching, isStd, Frame.asyncBody?] at throws
                  simp [Thread.due, Thread.answering, Thread.pending, Thread.reaching, isStd,
                    Frame.body?, Frame.asyncBody?, Frame.syncBody?, ← throws]
              | _ => simp [Thread.reaching, isStd, Frame.asyncBody?] at throws
  | _ => cases throws

/-- A move in which a body throws finishes nothing. -/
theorem throws_not_finishes {program : Program γ} {chain : Chain γ} {thread : Thread γ}
    {move : Move γ} {raised : CallId × Exn}
    (advanced : advance program chain thread = some move)
    (throws : thread.reaching Frame.body? = some raised) (call : CallId)
    (completion : Option (MiddlewareResult × String)) :
    move.event ≠ some (.finished call completion) := by
  obtain ⟨control, stack⟩ := thread
  cases control with
  | thrown e =>
      cases stack with
      | nil => cases throws
      | cons frame below =>
          cases frame with
          | asyncBody other position | adapterBody handle =>
              simp only [advance, unwind] at advanced
              split at advanced <;> cases advanced <;> simp
          | syncBody other position =>
              simp only [advance, unwind] at advanced
              split at advanced
              · split at advanced <;> cases advanced <;> simp
              · cases advanced
                simp
              · cases advanced
          | _ =>
              cases isStd : e.what? <;>
                simp [Thread.reaching, isStd, Frame.body?] at throws
  | _ => cases throws

end Foxhttp.Middleware
