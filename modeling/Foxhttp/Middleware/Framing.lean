import Foxhttp.Middleware.Refinement

/-!
# What a move leaves alone

A move of a thread works on the top of its own stack, hands out no timer but
fresh and cancelled ones, and gives no call another completion callback. The
one exception is the return from a timer's handler, which ends that timer.
-/

namespace Foxhttp.Middleware

variable {γ : Type}

namespace Chain

/-- The timers of `after` whose wait has succeeded are those of `chain`, a timer
which is no longer armed is left as it is, and the calls of `chain` have kept
their callbacks. -/
structure Kept (chain after : Chain γ) : Prop where
  timers : ∀ (timer : TimerId) (entry : Timer), after.timers[timer]? = some entry →
    entry.status ≠ .armed → entry.status ≠ .cancelled → chain.timers[timer]? = some entry
  settled : ∀ (timer : TimerId) (entry : Timer), chain.timers[timer]? = some entry →
    entry.status ≠ .armed → after.timers[timer]? = some entry
  callbacks : ∀ call < chain.calls.length, after.callback? call = chain.callback? call
  calls : chain.calls.length ≤ after.calls.length

namespace Kept

variable {chain middle after : Chain γ}

/-- Nothing but the timers and the calls matters. -/
theorem same (timers : after.timers = chain.timers) (calls : after.calls = chain.calls) :
    chain.Kept after where
  timers _ _ found _ _ := timers ▸ found
  settled _ _ found _ := timers ▸ found
  callbacks _ _ := by simp only [callback?, calls]
  calls := Nat.le_of_eq (congrArg List.length calls.symm)

theorem refl (chain : Chain γ) : chain.Kept chain :=
  same rfl rfl

theorem trans (first : chain.Kept middle) (second : middle.Kept after) : chain.Kept after where
  timers timer entry found armed cancelled :=
    first.timers timer entry (second.timers timer entry found armed cancelled) armed cancelled
  settled timer entry found armed :=
    second.settled timer entry (first.settled timer entry found armed) armed
  callbacks call known :=
    (second.callbacks call (Nat.lt_of_lt_of_le known first.calls)).trans
      (first.callbacks call known)
  calls := Nat.le_trans first.calls second.calls

/-- Only the calls changed, and none of them its callback. -/
theorem modifyCall (chain : Chain γ) (call : CallId) {change : Call γ → Call γ}
    (same : ∀ entry, (change entry).callback = entry.callback) :
    chain.Kept { chain with calls := chain.calls.modify call change } where
  timers _ _ found _ _ := found
  settled _ _ found _ := found
  callbacks other _ := by
    simp only [callback?, List.getElem?_modify]
    cases chain.calls[other]? with
    | none => rfl
    | some entry => by_cases equal : call = other <;> simp [equal, same]
  calls := by simp

theorem modifyRun (chain : Chain γ) (call : CallId) (change : Run → Run) :
    chain.Kept (chain.modifyRun call change) :=
  modifyCall chain call fun _ => rfl

theorem modifyState (chain : Chain γ) (call : CallId)
    (change : PipelineExecutionState → PipelineExecutionState) :
    chain.Kept (chain.modifyState call change) :=
  modifyRun chain call _

theorem setMessage (chain : Chain γ) (call : CallId) (ctx : γ) (res : Response) :
    chain.Kept (chain.setMessage call ctx res) :=
  modifyCall chain call fun _ => rfl

theorem respond (chain : Chain γ) (call : CallId) (answer : Response → Response) :
    chain.Kept (chain.respond call answer) :=
  modifyCall chain call fun _ => rfl

/-- A cancelled timer is either cancelled or was out of reach already. -/
theorem cancelTimer (chain : Chain γ) (timer : Option TimerId) :
    chain.Kept (chain.cancelTimer timer) := by
  cases timer with
  | none => exact .refl chain
  | some timer =>
      refine ⟨fun other entry found armed cancelled => ?_, fun other entry found armed => ?_,
        fun _ _ => rfl, Nat.le_refl _⟩
      · simp only [Chain.cancelTimer, List.getElem?_modify] at found
        cases before : chain.timers[other]? with
        | none => simp [before] at found
        | some old =>
            simp only [before, Option.map_eq_map, Option.map_some, Option.some.injEq] at found
            subst found
            split at cancelled
            · rename_i same
              simp only [same, if_true, Timer.cancel] at cancelled ⊢
              split at cancelled
              · exact absurd rfl cancelled
              · rename_i late
                rw [if_neg late]
            · rename_i same
              rw [if_neg same]
      · simp only [Chain.cancelTimer, List.getElem?_modify, found, Option.map_eq_map,
          Option.map_some, Timer.cancel, if_neg armed, ite_self]

theorem addTimer (chain : Chain γ) (call : CallId) (position : Option Nat) (timeout : Nat) :
    chain.Kept (chain.addTimer call position timeout) := by
  refine ⟨fun timer entry found armed _ => ?_, fun timer entry found _ => ?_, fun _ _ => rfl,
    Nat.le_refl _⟩
  · simp only [Chain.addTimer] at found
    rcases Nat.lt_or_ge timer chain.timers.length with old | new
    · rwa [List.getElem?_append_left old] at found
    · rw [List.getElem?_append_right new] at found
      obtain ⟨bound, same⟩ := List.getElem?_eq_some_iff.mp found
      rw [← same] at armed
      exact absurd (by simp) armed
  · obtain ⟨old, -⟩ := List.getElem?_eq_some_iff.mp found
    simpa only [Chain.addTimer, List.getElem?_append_left old] using found

theorem disarm (chain : Chain γ) (call : CallId) : chain.Kept (chain.disarm call) := by
  unfold Chain.disarm
  split
  · exact .refl chain
  · exact (cancelTimer chain _).trans (modifyState _ call _)

theorem setupMiddlewareTimeout (chain : Chain γ) (call : CallId) (position timeout : Nat) :
    chain.Kept (chain.setupMiddlewareTimeout call position timeout) := by
  unfold Chain.setupMiddlewareTimeout
  split
  · exact ((disarm chain call).trans (addTimer _ _ _ _)).trans (modifyState _ call _)
  · exact .refl chain

theorem setupGlobalTimeout (chain : Chain γ) (call : CallId) :
    chain.Kept (chain.setupGlobalTimeout call) := by
  unfold Chain.setupGlobalTimeout
  split
  · exact (addTimer chain _ _ _).trans (modifyState _ call _)
  · exact .refl chain

theorem registerRun (chain : Chain γ) (call : CallId) : chain.Kept (chain.registerRun call) :=
  same rfl rfl

theorem unregisterRun (chain : Chain γ) (call : CallId) :
    chain.Kept (chain.unregisterRun call) :=
  same rfl rfl

theorem tryFinishRun (chain : Chain γ) (call : CallId) :
    chain.Kept (chain.tryFinishRun call).2 := by
  unfold Chain.tryFinishRun
  split
  · exact .refl chain
  · split
    · exact .refl chain
    · exact modifyState chain call fun state => { state with finished := true }

theorem cancelRun (chain : Chain γ) (call : CallId) : chain.Kept (chain.cancelRun call) := by
  unfold Chain.cancelRun
  split
  · exact .refl chain
  · exact (modifyState chain call _).trans ((cancelTimer _ _).trans (cancelTimer _ _))

theorem countExecution (chain : Chain γ) (run : Run) (position : Nat) :
    chain.Kept (chain.countExecution run position) := by
  unfold Chain.countExecution
  split <;> exact same rfl rfl

theorem countError (chain : Chain γ) (run : Run) (position : Nat) :
    chain.Kept (chain.countError run position) := by
  unfold Chain.countError
  split <;> exact same rfl rfl

theorem countTimeout (chain : Chain γ) (run : Run) (position : Nat) :
    chain.Kept (chain.countTimeout run position) := by
  unfold Chain.countTimeout
  split <;> exact same rfl rfl

theorem countResult (chain : Chain γ) (run : Run) (position : Nat) (result : MiddlewareResult) :
    chain.Kept (chain.countResult run position result) := by
  cases result with
  | Error => exact countError chain run position
  | Timeout => exact countTimeout chain run position
  | Continue | Stop => exact .refl chain

theorem enter (chain : Chain γ) (mode : Mode) (ctx : γ) (res : Response)
    (callback : Option CallbackId) : chain.Kept (chain.enter mode ctx res callback) where
  timers _ _ found _ _ := found
  settled _ _ found _ := found
  callbacks call known := by
    simp only [callback?, Chain.enter]
    rw [List.getElem?_append_left known]
  calls := by simp [Chain.enter]

end Kept

end Chain

/-- Is this the event loop inside a timer's handler? -/
def Frame.isTimerDone : Frame γ → Bool
  | .timerDone _ => true
  | _ => false

/-- A move keeps the chain and pushes activations of its own on `base`. -/
structure Framed (chain : Chain γ) (base : List (Frame γ)) (move : Move γ) : Prop where
  kept : chain.Kept move.chain
  pushed : ∃ pushed, move.thread.stack = pushed ++ base ∧
    ∀ frame ∈ pushed, frame.isTimerDone = false

section Functions

variable {program : Program γ} {chain : Chain γ} {call : CallId} {stack : List (Frame γ)}

theorem Framed.flat {event : Option Event} {after : Chain γ} {control : Control γ}
    (kept : chain.Kept after) : Framed chain stack ⟨event, after, ⟨control, stack⟩⟩ :=
  ⟨kept, [], rfl, by simp⟩

theorem Framed.push {event : Option Event} {after : Chain γ} {control : Control γ}
    {frame : Frame γ} (kept : chain.Kept after) (own : frame.isTimerDone = false) :
    Framed chain stack ⟨event, after, ⟨control, frame :: stack⟩⟩ :=
  ⟨kept, [frame], rfl, by simpa using own⟩

/-- A move on a stack with an activation pushed is a move on the stack. -/
theorem Framed.under {frame : Frame γ} {move : Move γ} (own : frame.isTimerDone = false)
    (framed : Framed chain (frame :: stack) move) : Framed chain stack move := by
  obtain ⟨kept, pushed, shape, others⟩ := framed
  refine ⟨kept, pushed ++ [frame], by simp [shape], fun other member => ?_⟩
  rcases List.mem_append.mp member with earlier | last
  · exact others other earlier
  · obtain rfl := List.mem_singleton.mp last
    exact own

theorem completeAsyncRun_framed (result : MiddlewareResult) (message : String) :
    Framed chain stack (completeAsyncRun program chain call result message stack) := by
  have kept := Chain.Kept.tryFinishRun chain call
  unfold completeAsyncRun
  split
  · rename_i lost
    rw [lost] at kept
    exact .flat kept
  · rename_i won
    rw [won] at kept
    split <;> exact .flat kept

theorem finishRun_framed (run : Run) (stage : FinishStage)
    (completion : Option (MiddlewareResult × String)) (after : Code γ) :
    Framed chain stack (finishRun chain run stage call completion after stack) := by
  cases stage with
  | cancelGlobal | cancelMiddleware => exact .flat (.cancelTimer chain _)
  | unregister => exact .flat (.unregisterRun chain call)

theorem leaveRun_framed (rest : Code γ) :
    Framed chain stack (leaveRun chain call rest stack) := by
  have kept := Chain.Kept.tryFinishRun chain call
  unfold leaveRun
  split <;> rename_i outcome <;> rw [outcome] at kept <;> exact .flat kept

theorem catchUnknown_framed (e : Exn) :
    Framed chain stack (catchUnknown program chain call e stack) := by
  have kept := Chain.Kept.tryFinishRun chain call
  unfold catchUnknown
  split
  · exact leaveRun_framed _
  · split
    · rename_i lost
      rw [lost] at kept
      exact .flat kept
    · rename_i won
      rw [won] at kept
      exact .push kept rfl

theorem handleErrorRun_framed (run : Run) (e : Exn) :
    Framed chain stack (handleErrorRun program chain call run e stack) := by
  unfold handleErrorRun
  split
  · exact .push (.refl chain) rfl
  · exact .flat (.respond chain call _)

theorem handleTimeoutRun_framed (run : Run) :
    Framed chain stack (handleTimeoutRun program chain call run stack) := by
  unfold handleTimeoutRun
  split
  · exact .push (.refl chain) rfl
  · exact .flat (.respond chain call _)

theorem answerTimeout_framed (run : Run) :
    Framed chain stack (answerTimeout program chain call run stack) := by
  unfold answerTimeout
  split
  · exact .flat (.refl chain)
  · exact .flat (.respond chain call _)

theorem executeNextAsyncStep_framed {run : Run} {move : Move γ}
    (moved : executeNextAsyncStep program chain call run stack = some move) :
    Framed chain stack move := by
  unfold executeNextAsyncStep at moved
  split at moved
  · cases moved
    exact .flat (.refl chain)
  · split at moved
    · cases moved
      exact .flat (.modifyState chain call _)
    · split at moved
      · cases moved
      · cases moved
        exact .push (.modifyState chain call _) rfl

theorem executeNextSync_framed {run : Run} {move : Move γ}
    (moved : executeNextSync program chain call run stack = some move) :
    Framed chain stack move := by
  unfold executeNextSync at moved
  split at moved
  · cases moved
    exact .flat (.refl chain)
  · split at moved
    · cases moved
      exact .flat (.modifyState chain call _)
    · split at moved
      · cases moved
      · cases moved
        exact .push (.modifyState chain call _) rfl

theorem startAsyncBody_framed (position : Nat) (mw : MiddlewareId) :
    Framed chain stack (startAsyncBody program chain call position mw stack) := by
  have kept : chain.Kept ((chain.addClosure call position).setupMiddlewareTimeout call position
      (program.timeout mw)) :=
    (Chain.Kept.modifyRun chain call _).trans (.setupMiddlewareTimeout _ _ _ _)
  unfold startAsyncBody
  simp only
  split
  · exact .push kept rfl
  · exact .under rfl (.push kept rfl)

theorem startSyncBody_framed (position : Nat) (mw : MiddlewareId) :
    Framed chain stack (startSyncBody program chain call position mw stack) :=
  .push (.modifyRun chain call _) rfl

theorem asyncCallback_framed (handle : Handle) (run : Run) (result : MiddlewareResult)
    (message : String) :
    Framed chain stack (asyncCallback chain handle run result message stack) :=
  .flat ((Chain.Kept.disarm chain handle.call).trans
    ((Chain.Kept.countExecution _ run handle.position).trans (.countResult _ _ _ _)))

theorem next_framed (handle : Handle) (run : Run) :
    Framed chain stack (next chain handle run stack) :=
  .flat (.disarm chain handle.call)

theorem invoke_framed {operation : Operation γ} {move : Move γ}
    (moved : invoke program chain stack operation = some move) : Framed chain stack move := by
  cases operation with
  | next handle =>
      simp only [invoke] at moved
      split at moved
      · cases moved
      · split at moved
        · cases moved
          exact next_framed _ _
        · cases moved
  | callback handle result message =>
      simp only [invoke] at moved
      split at moved
      · cases moved
      · split at moved
        · cases moved
          exact .flat (.refl chain)
        · cases moved
  | execute ctx res =>
      cases moved
      unfold execute
      split
      · exact .flat (.enter chain _ _ _ _)
      · exact .push ((Chain.Kept.enter chain _ _ _ _).trans (.registerRun _ _)) rfl
  | executeAsync ctx res callback =>
      cases moved
      unfold executeAsync
      split
      · split <;> exact .flat (.enter chain _ _ _ _)
      · exact .push ((Chain.Kept.enter chain _ _ _ _).trans
          ((Chain.Kept.registerRun _ _).trans (.setupGlobalTimeout _ _))) rfl
  | cancel | pause | resume | configure _ =>
      cases moved
      exact .flat (.same rfl rfl)

theorem runCode_framed {code : Code γ} {move : Move γ}
    (moved : runCode program chain stack code = some move) : Framed chain stack move := by
  cases code with
  | ret verdict | throw e =>
      cases moved
      exact .flat (.refl chain)
  | access other write rest =>
      simp only [runCode] at moved
      split at moved
      · cases moved
      · cases moved
        exact .flat (.setMessage chain _ _ _)
  | invoke operation rest => exact .under rfl (invoke_framed moved)

theorem timerHandler_framed {timer : TimerId} {move : Move γ}
    (moved : timerHandler chain timer stack = some move) : Framed chain stack move := by
  unfold timerHandler at moved
  split at moved
  · cases moved
  · split at moved
    · cases moved
    · split at moved
      · cases moved
        exact .flat (.refl chain)
      · have marked := fun call => Chain.Kept.modifyState chain call
          fun state => { state with timedOut := true }
        split at moved
        · cases moved
          exact .flat (marked _)
        · cases moved
          exact .flat ((marked _).trans (.countTimeout _ _ _))

/-- A return to an activation other than a timer's handler. -/
theorem resume_framed {verdict : Bool} {frame : Frame γ} {move : Move γ}
    (own : frame.isTimerDone = false)
    (moved : resume program chain verdict stack frame = some move) : Framed chain stack move := by
  cases frame with
  | asyncSelect other position =>
      simp only [resume] at moved
      split at moved
      · split at moved
        · cases moved
        · split at moved
          · cases moved
          · cases moved
            exact startAsyncBody_framed _ _
      · cases moved
        exact .flat (.refl chain)
  | syncSelect other position =>
      simp only [resume] at moved
      split at moved
      · split at moved
        · cases moved
        · split at moved
          · cases moved
          · cases moved
            exact startSyncBody_framed _ _
      · cases moved
        exact .flat (.refl chain)
  | adapterBody handle =>
      cases moved
      exact .push (.refl chain) rfl
  | syncBody other position =>
      simp only [resume] at moved
      split at moved
      · cases moved
      · cases moved
        exact .flat (.countExecution chain _ _)
  | executeTry other =>
      cases moved
      exact leaveRun_framed _
  | timerDone timer => cases own
  | await _ | asyncBody _ _ | adapterCallback _ | errorHandled _ _ | timeoutHandled _
  | executeAsyncTry _ | rethrow _ =>
      cases moved
      exact .flat (.refl chain)

/-- An exception reaching an activation other than a timer's handler. -/
theorem unwind_framed {e : Exn} {frame : Frame γ} {move : Move γ}
    (own : frame.isTimerDone = false)
    (moved : unwind program chain e stack frame = some move) : Framed chain stack move := by
  cases frame with
  | asyncBody other position =>
      simp only [unwind] at moved
      split at moved
      · cases moved
        exact .flat (.countError chain _ _)
      · cases moved
        exact .flat (.refl chain)
      · cases moved
  | adapterBody handle | adapterCallback handle =>
      simp only [unwind] at moved
      split at moved <;> cases moved <;> exact .flat (.refl chain)
  | executeAsyncTry other =>
      simp only [unwind] at moved
      split at moved
      · cases moved
        exact .flat (.refl chain)
      · cases moved
        exact catchUnknown_framed _
  | syncBody other position =>
      simp only [unwind] at moved
      split at moved
      · split at moved
        · cases moved
          exact .flat (.countError chain _ _)
        · cases moved
          exact .flat ((Chain.Kept.countError chain _ _).trans (.respond _ _ _))
      · cases moved
        exact .flat (.refl chain)
      · cases moved
  | executeTry other =>
      cases moved
      exact leaveRun_framed _
  | timerDone timer => cases own
  | await _ | asyncSelect _ _ | syncSelect _ _ | errorHandled _ _ | timeoutHandled _
  | rethrow _ =>
      cases moved
      exact .flat (.refl chain)

/-- A thread is about to leave a timer's handler. -/
def Thread.leavesTimer (thread : Thread γ) : Prop :=
  ∃ timer below, thread.stack = .timerDone timer :: below ∧
    ((∃ verdict, thread.control = .returned verdict) ∨ ∃ e, thread.control = .thrown e)

/-- What a thread's move keeps of its stack: all but the activation it returns
to or unwinds. -/
def Thread.base (thread : Thread γ) : List (Frame γ) :=
  match thread.control with
  | .returned _ | .thrown _ => thread.stack.tail
  | _ => thread.stack

/-- Every move but the ones that leave a timer's handler is framed. -/
theorem advance_framed {thread : Thread γ} {move : Move γ}
    (moved : advance program chain thread = some move) (inside : ¬ thread.leavesTimer) :
    Framed chain thread.base move := by
  obtain ⟨control, stack⟩ := thread
  have own : ∀ frame below, stack = frame :: below →
      ((∃ verdict, control = .returned verdict) ∨ ∃ e, control = .thrown e) →
      frame.isTimerDone = false := by
    rintro frame below rfl leaving
    cases frame with
    | timerDone timer => exact absurd ⟨timer, below, rfl, leaving⟩ inside
    | _ => rfl
  cases control with
  | code code => exact runCode_framed moved
  | asyncCallback handle result message =>
      obtain ⟨run, -, rfl⟩ := Option.map_eq_some_iff.mp moved
      exact asyncCallback_framed _ _ _ _
  | asyncStep other =>
      obtain ⟨run, -, moved⟩ := Option.bind_eq_some_iff.mp moved
      exact executeNextAsyncStep_framed moved
  | syncStep other =>
      obtain ⟨run, -, moved⟩ := Option.bind_eq_some_iff.mp moved
      exact executeNextSync_framed moved
  | handleError other e =>
      obtain ⟨run, -, rfl⟩ := Option.map_eq_some_iff.mp moved
      exact handleErrorRun_framed _ _
  | handleTimeout other =>
      obtain ⟨run, -, rfl⟩ := Option.map_eq_some_iff.mp moved
      exact handleTimeoutRun_framed _
  | answerTimeout other =>
      obtain ⟨run, -, rfl⟩ := Option.map_eq_some_iff.mp moved
      exact answerTimeout_framed _
  | completeRun other result message =>
      cases moved
      exact completeAsyncRun_framed _ _
  | finishing stage other completion after =>
      obtain ⟨run, -, rfl⟩ := Option.map_eq_some_iff.mp moved
      exact finishRun_framed run stage completion after
  | timerHandler timer => exact timerHandler_framed moved
  | cancelling calls =>
      cases calls with
      | nil =>
          cases moved
          exact .flat (.refl chain)
      | cons other rest =>
          cases moved
          exact .flat (.cancelRun chain other)
  | returned verdict =>
      cases stack with
      | nil => cases moved
      | cons frame rest => exact resume_framed (own frame rest rfl (.inl ⟨_, rfl⟩)) moved
  | thrown e =>
      cases stack with
      | nil => cases moved
      | cons frame rest => exact unwind_framed (own frame rest rfl (.inr ⟨_, rfl⟩)) moved

/-- Leaving a timer's handler ends that timer and does nothing else. -/
theorem advance_leavesTimer {control : Control γ} {timer : TimerId} {below : List (Frame γ)}
    {move : Move γ}
    (leaving : (∃ verdict, control = .returned verdict) ∨ ∃ e, control = .thrown e)
    (moved : advance program chain ⟨control, .timerDone timer :: below⟩ = some move) :
    ∃ (entry : Timer) (live : Bool), chain.timers[timer]? = some entry ∧
      entry.status = .handling live ∧ move.event = none ∧ move.thread.stack = below ∧
      (move.chain = chain.setTimerStatus timer (.returned live) ∧
          (∃ verdict, control = .returned verdict) ∨
        move.chain = chain.setTimerStatus timer (.threw live)) := by
  rcases leaving with ⟨verdict, rfl⟩ | ⟨e, rfl⟩
  · simp only [advance, resume] at moved
    split at moved
    · rename_i live found
      cases moved
      exact ⟨_, live, found, rfl, rfl, rfl, .inl ⟨rfl, _, rfl⟩⟩
    · cases moved
  · simp only [advance, unwind] at moved
    split at moved
    · rename_i live found
      cases moved
      exact ⟨_, live, found, rfl, rfl, rfl, .inr rfl⟩
    · cases moved

end Functions

end Foxhttp.Middleware
