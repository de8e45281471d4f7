import Foxhttp.Middleware.ErrorHandling

/-!
# What a move can do

One account of every move of a thread: what it leaves of the runs and the
timers, where its event comes from, which control of the chain's own it reaches,
and which handles and runs it keeps in hand. What is proved of whole runs is
read off this account.
-/

namespace Foxhttp.Middleware

open Foxhttp.Library

variable {γ : Type}

/-! ## What becomes of the chain -/

/-- A run without its index and its flags. -/
def Run.fixed (run : Run) : Run :=
  { run with state := { run.state with
      currentIndex := 0
      timedOut := false
      cancelled := false
      finished := false } }

/-- Two chains with the same timers, and the same runs but for indices and flags. -/
structure Chain.Alike (chain after : Chain γ) : Prop where
  timers : after.timers = chain.timers
  runs : ∀ call, (after.run? call).map Run.fixed = (chain.run? call).map Run.fixed

namespace Chain

theorem Alike.refl (chain : Chain γ) : chain.Alike chain :=
  ⟨rfl, fun _ => rfl⟩

theorem Alike.trans {chain middle after : Chain γ} (first : chain.Alike middle)
    (second : middle.Alike after) : chain.Alike after :=
  ⟨second.timers.trans first.timers, fun call => (second.runs call).trans (first.runs call)⟩

/-- Nothing but the timers and the calls matters. -/
theorem Alike.same {chain after : Chain γ} (timers : after.timers = chain.timers)
    (calls : after.calls = chain.calls) : chain.Alike after :=
  ⟨timers, fun call => by simp only [run?, calls]⟩

/-- A change of indices and flags. -/
theorem Alike.modifyState (chain : Chain γ) (call : CallId)
    {change : PipelineExecutionState → PipelineExecutionState}
    (same : ∀ run : Run, ({ run with state := change run.state } : Run).fixed = run.fixed) :
    chain.Alike (chain.modifyState call change) where
  timers := rfl
  runs other := by
    rw [Chain.modifyState, run?_modifyRun]
    split
    · cases chain.run? other <;> simp [same]
    · rfl

theorem Alike.modifyCall (chain : Chain γ) (call : CallId) {change : Call γ → Call γ}
    (same : ∀ entry, (change entry).run = entry.run) :
    chain.Alike { chain with calls := chain.calls.modify call change } where
  timers := rfl
  runs other := by
    simp only [run?, List.getElem?_modify]
    cases chain.calls[other]? with
    | none => rfl
    | some entry => by_cases equal : call = other <;> simp [equal, same]

theorem Alike.setMessage (chain : Chain γ) (call : CallId) (ctx : γ) (res : Response) :
    chain.Alike (chain.setMessage call ctx res) :=
  modifyCall chain call fun _ => rfl

theorem Alike.respond (chain : Chain γ) (call : CallId) (answer : Response → Response) :
    chain.Alike (chain.respond call answer) :=
  modifyCall chain call fun _ => rfl

theorem Alike.claimNext (chain : Chain γ) (call : CallId) :
    chain.Alike (claimNext chain call) :=
  modifyState chain call fun _ => rfl

theorem Alike.markTimedOut (chain : Chain γ) (call : CallId) :
    chain.Alike (markTimedOut chain call) :=
  modifyState chain call fun _ => rfl

/-- `try_finish_run` begins with a change of a flag. -/
theorem Alike.tryFinishRun {chain after : Chain γ} {call : CallId} {won : Bool}
    (outcome : chain.tryFinishRun call = (won, after)) : chain.Alike after := by
  rcases tryFinishRun_cases chain call with lost | ⟨run, -, -, wins⟩
  · cases lost.symm.trans outcome
    exact .refl chain
  · cases wins.symm.trans outcome
    exact modifyState chain call fun _ => rfl

theorem Alike.countExecution (chain : Chain γ) (run : Run) (position : Nat) :
    chain.Alike (chain.countExecution run position) := by
  unfold Chain.countExecution
  split <;> exact same rfl rfl

theorem Alike.countError (chain : Chain γ) (run : Run) (position : Nat) :
    chain.Alike (chain.countError run position) := by
  unfold Chain.countError
  split <;> exact same rfl rfl

theorem Alike.countTimeout (chain : Chain γ) (run : Run) (position : Nat) :
    chain.Alike (chain.countTimeout run position) := by
  unfold Chain.countTimeout
  split <;> exact same rfl rfl

theorem Alike.countResult (chain : Chain γ) (run : Run) (position : Nat)
    (result : MiddlewareResult) : chain.Alike (chain.countResult run position result) := by
  cases result with
  | Error => exact countError chain run position
  | Timeout => exact countTimeout chain run position
  | Continue | Stop => exact .refl chain

/-- A call on an empty chain enters no run. -/
theorem Alike.enter (chain : Chain γ) (mode : Mode) (ctx : γ) (res : Response)
    (callback : Option CallbackId) (empty : chain.settings.mws.isEmpty = true) :
    chain.Alike (chain.enter mode ctx res callback) where
  timers := rfl
  runs other := by
    simp only [Chain.enter, empty, if_true, run?_append]
    split
    · rename_i same
      subst same
      simp [run?]
    · rfl

end Chain

section Account

variable (program : Program γ) (chain : Chain γ) (thread : Thread γ)

/-- What a move with this event makes of the chain. -/
def Effect (after : Chain γ) : Option Event → Prop
  | none => chain.Alike after ∨
      (∃ (timer : TimerId) (live : Bool), .timerDone timer ∈ thread.stack.head? ∧
        ((∃ verdict, thread.control = .returned verdict) ∨ ∃ e, thread.control = .thrown e) ∧
        (after = chain.setTimerStatus timer (.returned live) ∨
          after = chain.setTimerStatus timer (.threw live))) ∨
      ∃ call run, thread.control.finishes? = some call ∧ chain.run? call = some run ∧
        (after = chain.cancelTimer run.state.globalTimeoutTimer ∨
          after = chain.cancelTimer run.state.middlewareTimeoutTimer)
  | some (.registered call mode _) => call = chain.calls.length ∧ ∃ ctx res callback,
      (mode = .sync ∧ after = (chain.enter .sync ctx res callback).registerRun call) ∨
        (mode = .async ∧
          after = ((chain.enter .async ctx res callback).registerRun call).setupGlobalTimeout call)
  | some (.started call position) => ∃ run mw, chain.run? call = some run ∧
      run.pipeline[position]? = some mw ∧
      (.asyncSelect call position ∈ thread.stack.head? ∧
          after = (chain.addClosure call position).setupMiddlewareTimeout call position
            (program.timeout mw) ∨
        .syncSelect call position ∈ thread.stack.head? ∧ after = chain.addClosure call position)
  | some (.signalled call _ _) => (chain.disarm call).Alike after
  | some (.cancelled call) => after = chain.cancelRun call
  | some _ => chain.Alike after

/-! ## Who moves, and where to -/

/-- The event lets the call make one step: it enters, a position is skipped, or a
middleware signals that the run is to go on. -/
def Event.admits (call : CallId) : Event → Bool
  | .registered other _ _ => other == call
  | .skipped other _ => other == call
  | .signalled other _ .next => other == call
  | .signalled other _ (.callback .Continue) => other == call
  | _ => false

/-- The driver of a call is about to make a step. -/
def Control.stepping (call : CallId) : Control γ → Bool
  | .asyncStep other => other == call
  | .syncStep other => other == call
  | _ => false

/-- How a control of the chain's own is reached. -/
def Arrives (event : Option Event) : Control γ → Prop
  | .asyncStep call => ∃ admitting, event = some admitting ∧ admitting.admits call = true
  | .syncStep call => ∃ admitting, event = some admitting ∧ admitting.admits call = true
  | .completeRun call .Continue _ => event = none ∧ thread.control.stepping call = true
  | .handleTimeout call => ∃ timer, event = some (.timedOut call timer)
  | .answerTimeout call => ∃ timer, event = some (.timedOut call timer)
  | .handleError call e => event = none ∧ thread.due = some (call, e)
  | .finishing _ call completion _ => event = some (.finished call completion) ∨
      ∃ stage after, thread.control = .finishing stage call completion after
  | _ => True

/-! ## What a thread has in hand -/

/-- The handle which the chain itself is about to signal through. -/
def Control.handle? : Control γ → Option Handle
  | .asyncCallback handle _ _ => some handle
  | _ => none

/-- The handle which the default adapter holds. -/
def Frame.handle? : Frame γ → Option Handle
  | .adapterBody handle => some handle
  | .adapterCallback handle => some handle
  | _ => none

/-- The call which a control drives, and how. -/
def Control.drives? : Control γ → Option (CallId × Mode)
  | .asyncCallback handle _ _ => some (handle.call, .async)
  | .asyncStep call => some (call, .async)
  | .syncStep call => some (call, .sync)
  | _ => none

/-- The call which an activation drives, and how. -/
def Frame.drives? : Frame γ → Option (CallId × Mode)
  | .asyncSelect call _ => some (call, .async)
  | .asyncBody call _ => some (call, .async)
  | .adapterBody handle => some (handle.call, .async)
  | .adapterCallback handle => some (handle.call, .async)
  | .executeAsyncTry call => some (call, .async)
  | .syncSelect call _ => some (call, .sync)
  | .syncBody call _ => some (call, .sync)
  | .executeTry call => some (call, .sync)
  | _ => none

/-- The thread holds this handle. -/
def Thread.Holds (handle : Handle) : Prop :=
  thread.control.handle? = some handle ∨ ∃ frame ∈ thread.stack, frame.handle? = some handle

/-- The thread drives this call in this mode. -/
def Thread.Drives (drive : CallId × Mode) : Prop :=
  thread.control.drives? = some drive ∨ ∃ frame ∈ thread.stack, frame.drives? = some drive

/-- The closures of this handle exist. -/
def Chain.Hands (handle : Handle) : Prop :=
  ∃ run, chain.run? handle.call = some run ∧ (run.closure? handle.position).isSome = true

/-- Where an event comes from, and where it leads. -/
def Origin (after : Thread γ) : Event → Prop
  | .registered call .sync _ =>
      after.control = .syncStep call ∧ .executeTry call ∈ after.stack.head?
  | .registered call .async _ =>
      after.control = .asyncStep call ∧ .executeAsyncTry call ∈ after.stack.head?
  | .claimed call _ => thread.control.stepping call = true ∧ ∃ code, after.control = .code code
  | .signalled call position _ => thread.Holds ⟨call, position⟩ ∨ chain.Hands ⟨call, position⟩
  | .timeoutHandled call | .responded call =>
      thread.control = .handleTimeout call ∨ thread.control = .answerTimeout call ∨
        ∃ e run, thread.answering = some (call, e) ∧ chain.run? call = some run ∧
          run.errorHandler = none
  | .finished call none => chain.callback? call = none ∨ .executeTry call ∈ thread.stack
  | .finished call (some (.Continue, message)) =>
      thread.control = .completeRun call .Continue message
  | .unregistered call completion =>
      ∃ stage after, thread.control = .finishing stage call completion after
  | _ => True

/-- The account of a move. -/
structure Traced (move : Move γ) : Prop where
  effect : Effect program chain thread move.chain move.event
  arrives : Arrives thread move.event move.thread.control
  origin : ∀ event, move.event = some event → Origin chain thread move.thread event
  holds : ∀ handle, move.thread.Holds handle →
    thread.Holds handle ∨ chain.Hands handle ∨
      move.event = some (.started handle.call handle.position)
  drives : ∀ drive, move.thread.Drives drive →
    thread.Drives drive ∨ (∃ run, chain.run? drive.1 = some run ∧ run.mode = drive.2) ∨
      ∃ size, move.event = some (.registered drive.1 drive.2 size)

end Account

/-! ## The account, function by function -/

section Functions

variable {program : Program γ} {chain : Chain γ} {call : CallId} {stack : List (Frame γ)}

theorem Thread.Holds.frame {thread : Thread γ} {handle : Handle} {frame : Frame γ}
    (waits : frame ∈ thread.stack) (holds : frame.handle? = some handle) : thread.Holds handle :=
  .inr ⟨frame, waits, holds⟩

theorem Thread.Drives.frame {thread : Thread γ} {drive : CallId × Mode} {frame : Frame γ}
    (waits : frame ∈ thread.stack) (drives : frame.drives? = some drive) : thread.Drives drive :=
  .inr ⟨frame, waits, drives⟩

/-- An activation which was waiting, or whose handle and call are accounted for. -/
structure Frame.Explained (thread : Thread γ) (event : Option Event) (frame : Frame γ) : Prop where
  handle : ∀ wanted, frame.handle? = some wanted →
    thread.Holds wanted ∨ event = some (.started wanted.call wanted.position)
  drive : ∀ wanted, frame.drives? = some wanted →
    thread.Drives wanted ∨ ∃ size, event = some (.registered wanted.1 wanted.2 size)

theorem Frame.Explained.waiting {thread : Thread γ} {event : Option Event} {frame : Frame γ}
    (waits : frame ∈ thread.stack) : frame.Explained thread event :=
  ⟨fun _ holds => .inl (.frame waits holds), fun _ drives => .inl (.frame waits drives)⟩

theorem Frame.Explained.plain {thread : Thread γ} {event : Option Event} {frame : Frame γ}
    (handle : frame.handle? = none) (drive : frame.drives? = none) :
    frame.Explained thread event where
  handle wanted holds := by
    rw [handle] at holds
    cases holds
  drive wanted drives := by
    rw [drive] at drives
    cases drives

/-- An activation without a handle, for a call which the thread drives. -/
theorem Frame.Explained.driven {thread : Thread γ} {event : Option Event} {frame : Frame γ}
    {drive : CallId × Mode} (handle : frame.handle? = none) (same : frame.drives? = some drive)
    (drives : thread.Drives drive) : frame.Explained thread event where
  handle wanted holds := by
    rw [handle] at holds
    cases holds
  drive wanted isDrive := by
    cases same.symm.trans isDrive
    exact .inl drives

/-- A move whose control and activations are accounted for. -/
theorem Traced.of {thread : Thread γ} {event : Option Event} {after : Chain γ}
    {control : Control γ} {base : List (Frame γ)}
    (effect : Effect program chain thread after event)
    (arrives : Arrives thread event control)
    (origin : ∀ reported, event = some reported →
      Origin chain thread ⟨control, base⟩ reported)
    (handle : ∀ wanted, control.handle? = some wanted → chain.Hands wanted ∨ thread.Holds wanted)
    (drive : ∀ wanted, control.drives? = some wanted → thread.Drives wanted ∨
      (∃ run, chain.run? wanted.1 = some run ∧ run.mode = wanted.2) ∨
        ∃ size, event = some (.registered wanted.1 wanted.2 size))
    (frames : ∀ frame ∈ base, frame.Explained thread event) :
    Traced program chain thread ⟨event, after, ⟨control, base⟩⟩ where
  effect := effect
  arrives := arrives
  origin := origin
  holds wanted holds := by
    rcases holds with now | ⟨frame, waits, isHandle⟩
    · exact (handle wanted now).elim (fun hands => .inr (.inl hands)) .inl
    · exact ((frames frame waits).handle wanted isHandle).imp_right .inr
  drives wanted drives := by
    rcases drives with now | ⟨frame, waits, isDrive⟩
    · exact drive wanted now
    · exact ((frames frame waits).drive wanted isDrive).imp_right .inr

/-- A move to a control without a handle and a call. -/
theorem Traced.idle {thread : Thread γ} {event : Option Event} {after : Chain γ}
    {control : Control γ} {base : List (Frame γ)}
    (effect : Effect program chain thread after event)
    (arrives : Arrives thread event control)
    (origin : ∀ reported, event = some reported →
      Origin chain thread ⟨control, base⟩ reported)
    (handle : control.handle? = none) (drive : control.drives? = none)
    (frames : ∀ frame ∈ base, frame.Explained thread event) :
    Traced program chain thread ⟨event, after, ⟨control, base⟩⟩ :=
  .of effect arrives origin (fun _ now => by rw [handle] at now; cases now)
    (fun _ now => by rw [drive] at now; cases now) frames

/-- A silent move which leaves the runs and the timers. -/
theorem Traced.silent {thread : Thread γ} {after : Chain γ} {control : Control γ}
    {base : List (Frame γ)} (alike : chain.Alike after) (arrives : Arrives thread none control)
    (handle : control.handle? = none) (drive : control.drives? = none)
    (frames : ∀ frame ∈ base, frame.Explained thread none) :
    Traced program chain thread ⟨none, after, ⟨control, base⟩⟩ :=
  .idle (.inl alike) arrives (fun _ reported => by cases reported) handle drive frames

theorem explained_stack (control : Control γ) (event : Option Event) :
    ∀ frame ∈ stack, frame.Explained ⟨control, stack⟩ event :=
  fun _ waits => .waiting waits

theorem explained_below (control : Control γ) (top : Frame γ) (event : Option Event) :
    ∀ frame ∈ stack, frame.Explained ⟨control, top :: stack⟩ event :=
  fun _ waits => .waiting (List.mem_cons_of_mem top waits)

/-- The activations which wait below one which was pushed. -/
theorem explained_cons {thread : Thread γ} {event : Option Event} {frame : Frame γ}
    {base : List (Frame γ)} (own : frame.Explained thread event)
    (frames : ∀ other ∈ base, other.Explained thread event) :
    ∀ other ∈ frame :: base, other.Explained thread event :=
  List.forall_mem_cons.mpr ⟨own, frames⟩

/-- `try_finish_run` leaves the completion callbacks. -/
theorem Chain.callback?_tryFinishRun {chain after : Chain γ} {call : CallId} {won : Bool}
    (outcome : chain.tryFinishRun call = (won, after)) (other : CallId) :
    after.callback? other = chain.callback? other := by
  rcases tryFinishRun_cases chain call with lost | ⟨run, -, -, wins⟩
  · cases lost.symm.trans outcome
    rfl
  · cases wins.symm.trans outcome
    simp only [Chain.callback?, Chain.modifyState, Chain.modifyRun, List.getElem?_modify]
    cases chain.calls[other]? with
    | none => rfl
    | some entry => by_cases same : call = other <;> simp [same]

theorem completeAsyncRun_traced (result : MiddlewareResult) (message : String) :
    Traced program chain ⟨.completeRun call result message, stack⟩
      (completeAsyncRun program chain call result message stack) := by
  unfold completeAsyncRun
  split
  · rename_i after lost
    have alike : chain.Alike after := .tryFinishRun lost
    exact .silent alike trivial rfl rfl (explained_stack _ _)
  · rename_i after won
    have alike : chain.Alike after := .tryFinishRun won
    have callback := Chain.callback?_tryFinishRun won call
    split
    · rename_i silent
      refine .idle alike (.inl rfl) ?_ rfl rfl (explained_stack _ _)
      intro reported same
      cases same
      exact .inl (callback ▸ silent)
    · refine .idle alike (.inl rfl) ?_ rfl rfl (explained_stack _ _)
      intro reported same
      cases same
      cases result <;> trivial

theorem finishRun_traced {run : Run} (found : chain.run? call = some run) (stage : FinishStage)
    (completion : Option (MiddlewareResult × String)) (after : Code γ) :
    Traced program chain ⟨.finishing stage call completion after, stack⟩
      (finishRun chain run stage call completion after stack) := by
  cases stage with
  | cancelGlobal =>
      exact .idle (.inr (.inr ⟨call, run, rfl, found, .inl rfl⟩)) (.inr ⟨_, _, rfl⟩)
        (fun _ same => by cases same) rfl rfl (explained_stack _ _)
  | cancelMiddleware =>
      exact .idle (.inr (.inr ⟨call, run, rfl, found, .inr rfl⟩)) (.inr ⟨_, _, rfl⟩)
        (fun _ same => by cases same) rfl rfl (explained_stack _ _)
  | unregister =>
      exact .idle (.same rfl rfl) trivial (fun _ same => by cases same; exact ⟨_, _, rfl⟩) rfl rfl
        (explained_stack _ _)

theorem leaveRun_traced {thread : Thread γ} (rest : Code γ)
    (unheard : chain.callback? call = none ∨ .executeTry call ∈ thread.stack)
    (kept : ∀ frame ∈ stack, frame ∈ thread.stack) :
    Traced program chain thread (leaveRun chain call rest stack) := by
  unfold leaveRun
  split
  · rename_i after lost
    have alike : chain.Alike after := .tryFinishRun lost
    exact .silent alike trivial rfl rfl fun frame waits => .waiting (kept frame waits)
  · rename_i after won
    have alike : chain.Alike after := .tryFinishRun won
    refine .idle alike (.inl rfl) ?_ rfl rfl fun frame waits => .waiting (kept frame waits)
    intro reported same
    cases same
    exact unheard

theorem catchUnknown_traced {thread : Thread γ} (e : Exn)
    (kept : ∀ frame ∈ stack, frame ∈ thread.stack) :
    Traced program chain thread (catchUnknown program chain call e stack) := by
  have waiting : ∀ {event}, ∀ frame ∈ stack, frame.Explained thread event :=
    fun frame waits => .waiting (kept frame waits)
  unfold catchUnknown
  split
  · rename_i silent
    exact leaveRun_traced _ (.inl silent) kept
  · split
    · rename_i after lost
      have alike : chain.Alike after := .tryFinishRun lost
      exact .silent alike trivial rfl rfl waiting
    · rename_i after won
      have alike : chain.Alike after := .tryFinishRun won
      refine .idle alike (.inl rfl) ?_ rfl rfl (explained_cons (.plain rfl rfl) waiting)
      intro reported same
      cases same
      trivial

theorem handleErrorRun_traced {run : Run} (found : chain.run? call = some run) (e : Exn) :
    Traced program chain ⟨.handleError call e, stack⟩
      (handleErrorRun program chain call run e stack) := by
  unfold handleErrorRun
  split
  · refine .idle (.refl chain) trivial ?_ rfl rfl
      (explained_cons (.plain rfl rfl) (explained_stack _ _))
    intro reported same
    cases same
    trivial
  · rename_i unhandled
    refine .idle (.respond chain call _) trivial ?_ rfl rfl (explained_stack _ _)
    intro reported same
    cases same
    exact .inr (.inr ⟨e, run, rfl, found, unhandled⟩)

theorem handleTimeoutRun_traced (run : Run) :
    Traced program chain ⟨.handleTimeout call, stack⟩
      (handleTimeoutRun program chain call run stack) := by
  unfold handleTimeoutRun
  split
  · refine .idle (.refl chain) trivial ?_ rfl rfl
      (explained_cons (.plain rfl rfl) (explained_stack _ _))
    intro reported same
    cases same
    exact .inl rfl
  · refine .idle (.respond chain call _) trivial ?_ rfl rfl (explained_stack _ _)
    intro reported same
    cases same
    exact .inl rfl

theorem answerTimeout_traced (run : Run) :
    Traced program chain ⟨.answerTimeout call, stack⟩
      (answerTimeout program chain call run stack) := by
  unfold answerTimeout
  split
  · refine .idle (.refl chain) trivial ?_ rfl rfl (explained_stack _ _)
    intro reported same
    cases same
    exact .inr (.inl rfl)
  · refine .idle (.respond chain call _) trivial ?_ rfl rfl (explained_stack _ _)
    intro reported same
    cases same
    exact .inr (.inl rfl)

/-- A step which claims a position decides whether to start it. -/
theorem claim_traced {thread : Thread γ} {drive : CallId × Mode} {frame : Frame γ}
    {code : Code γ} {position : Nat} (steps : thread.control.stepping call = true)
    (drives : thread.control.drives? = some drive)
    (own : frame.handle? = none) (selects : frame.drives? = some drive) :
    Traced program chain thread ⟨some (.claimed call position), claimNext chain call,
      ⟨.code code, frame :: thread.stack⟩⟩ := by
  refine .idle (.claimNext chain call) trivial ?_ rfl rfl
    (explained_cons (.driven own selects (.inl drives)) (explained_stack _ _))
  intro reported same
  cases same
  exact ⟨steps, code, rfl⟩

/-- The mark of a timeout found at a step. -/
theorem overdue_traced {thread : Thread γ} {control : Control γ}
    (arrives : Arrives thread (some (.timedOut call none)) control)
    (handle : control.handle? = none) (drive : control.drives? = none) :
    Traced program chain thread
      ⟨some (.timedOut call none), markTimedOut chain call, ⟨control, thread.stack⟩⟩ := by
  refine .idle (.markTimedOut chain call) arrives ?_ handle drive (explained_stack _ _)
  intro reported same
  cases same
  trivial

theorem executeNextAsyncStep_traced {run : Run} {move : Move γ}
    (moved : executeNextAsyncStep program chain call run stack = some move) :
    Traced program chain ⟨.asyncStep call, stack⟩ move := by
  have steps : (Control.asyncStep call : Control γ).stepping call = true := beq_self_eq_true call
  unfold executeNextAsyncStep at moved
  split at moved
  · cases moved
    refine .silent (.refl chain) ?_ rfl rfl (explained_stack _ _)
    split
    · trivial
    · split
      · trivial
      · exact ⟨rfl, steps⟩
  · split at moved
    · cases moved
      exact overdue_traced ⟨none, rfl⟩ rfl rfl
    · split at moved
      · cases moved
      · cases moved
        exact claim_traced steps rfl rfl rfl

theorem executeNextSync_traced {run : Run} {move : Move γ}
    (moved : executeNextSync program chain call run stack = some move) :
    Traced program chain ⟨.syncStep call, stack⟩ move := by
  have steps : (Control.syncStep call : Control γ).stepping call = true := beq_self_eq_true call
  unfold executeNextSync at moved
  split at moved
  · cases moved
    exact .silent (.refl chain) trivial rfl rfl (explained_stack _ _)
  · split at moved
    · cases moved
      exact overdue_traced ⟨none, rfl⟩ rfl rfl
    · split at moved
      · cases moved
      · cases moved
        exact claim_traced steps rfl rfl rfl

theorem startAsyncBody_traced {verdict : Bool} {position : Nat} {run : Run} {mw : MiddlewareId}
    (found : chain.run? call = some run) (inside : run.pipeline[position]? = some mw) :
    Traced program chain ⟨.returned verdict, .asyncSelect call position :: stack⟩
      (startAsyncBody program chain call position mw stack) := by
  have effect : Effect program chain ⟨.returned verdict, .asyncSelect call position :: stack⟩
      ((chain.addClosure call position).setupMiddlewareTimeout call position
        (program.timeout mw)) (some (.started call position)) :=
    ⟨run, mw, found, inside, .inl ⟨rfl, rfl⟩⟩
  have drives : Thread.Drives (γ := γ)
      ⟨.returned verdict, .asyncSelect call position :: stack⟩ (call, .async) :=
    .frame List.mem_cons_self rfl
  have below : ∀ frame ∈ .asyncBody call position :: stack, Frame.Explained
      ⟨.returned verdict, .asyncSelect call position :: stack⟩ (some (.started call position))
      frame :=
    explained_cons (.driven rfl rfl drives) (explained_below _ _ _)
  have adapter : Frame.Explained (γ := γ)
      ⟨.returned verdict, .asyncSelect call position :: stack⟩ (some (.started call position))
      (.adapterBody ⟨call, position⟩) := by
    refine ⟨fun wanted same => ?_, fun wanted same => ?_⟩
    · cases same
      exact .inr rfl
    · cases same
      exact .inl drives
  unfold startAsyncBody
  simp only
  split
  · exact .idle effect trivial (fun _ same => by cases same; trivial) rfl rfl below
  · exact .idle effect trivial (fun _ same => by cases same; trivial) rfl rfl
      (explained_cons adapter below)

theorem startSyncBody_traced {verdict : Bool} {position : Nat} {run : Run} {mw : MiddlewareId}
    (found : chain.run? call = some run) (inside : run.pipeline[position]? = some mw) :
    Traced program chain ⟨.returned verdict, .syncSelect call position :: stack⟩
      (startSyncBody program chain call position mw stack) := by
  have drives : Thread.Drives (γ := γ)
      ⟨.returned verdict, .syncSelect call position :: stack⟩ (call, .sync) :=
    .frame List.mem_cons_self rfl
  exact .idle ⟨run, mw, found, inside, .inr ⟨rfl, rfl⟩⟩ trivial
    (fun _ same => by cases same; trivial) rfl rfl
    (explained_cons (.driven rfl rfl drives) (explained_below _ _ _))

theorem asyncCallback_traced (handle : Handle) (run : Run) (result : MiddlewareResult)
    (message : String) :
    Traced program chain ⟨.asyncCallback handle result message, stack⟩
      (asyncCallback chain handle run result message stack) := by
  have alike := (Chain.Alike.countExecution (chain.disarm handle.call) run handle.position).trans
    (.countResult _ run handle.position result)
  refine .of alike ?_ (fun _ same => by cases same; exact .inl (.inl rfl)) ?_ ?_
    (explained_stack _ _)
  · cases result with
    | Continue => exact ⟨_, rfl, beq_self_eq_true handle.call⟩
    | Stop | Error | Timeout => trivial
  · intro wanted now
    cases result <;> cases now
  · intro wanted now
    cases result <;> cases now
    exact .inl (.inl rfl)

theorem next_traced {thread : Thread γ} {handle : Handle} {run : Run}
    (found : chain.run? handle.call = some run)
    (closed : (run.closure? handle.position).isSome = true)
    (frames : ∀ frame ∈ stack, frame.Explained thread
      (some (.signalled handle.call handle.position .next))) :
    Traced program chain thread (next chain handle run stack) := by
  have admits : (Event.signalled handle.call handle.position .next).admits handle.call = true :=
    beq_self_eq_true handle.call
  refine .of (.refl _) ?_ (fun _ same => by cases same; exact .inr ⟨run, found, closed⟩) ?_ ?_
    frames
  · cases run.mode <;> exact ⟨_, rfl, admits⟩
  · intro wanted now
    cases mode : run.mode <;> simp [mode, Control.handle?] at now
  · intro wanted now
    cases mode : run.mode <;> rw [mode] at now <;> cases now <;>
      exact .inr (.inl ⟨run, found, mode⟩)

/-- Entering a call with a run. -/
theorem registered_traced {thread : Thread γ} {after : Chain γ} {mode : Mode} {size : Nat}
    {control : Control γ} {frame : Frame γ}
    (effect : Effect program chain thread after (some (.registered call mode size)))
    (arrives : Arrives thread (some (.registered call mode size)) control)
    (origin : Origin chain thread ⟨control, frame :: stack⟩ (.registered call mode size))
    (handle : control.handle? = none) (drive : control.drives? = some (call, mode))
    (own : frame.handle? = none) (tries : frame.drives? = some (call, mode))
    (frames : ∀ frame ∈ stack, frame.Explained thread (some (.registered call mode size))) :
    Traced program chain thread
      ⟨some (.registered call mode size), after, ⟨control, frame :: stack⟩⟩ := by
  refine .of effect arrives (fun _ same => by cases same; exact origin) ?_ ?_
    (explained_cons ⟨?_, ?_⟩ frames)
  · intro wanted now
    rw [handle] at now
    cases now
  · intro wanted now
    cases drive.symm.trans now
    exact .inr (.inr ⟨size, rfl⟩)
  · intro wanted now
    rw [own] at now
    cases now
  · intro wanted now
    cases tries.symm.trans now
    exact .inr ⟨size, rfl⟩

theorem execute_traced {thread : Thread γ} (ctx : γ) (res : Response)
    (frames : ∀ event, ∀ frame ∈ stack, frame.Explained thread event) :
    Traced program chain thread (execute chain ctx res stack) := by
  unfold execute
  split
  · rename_i empty
    exact .idle (.enter chain _ _ _ _ empty) trivial (fun _ same => by cases same; trivial) rfl rfl
      (frames _)
  · exact registered_traced ⟨rfl, ctx, res, none, .inl ⟨rfl, rfl⟩⟩
      ⟨_, rfl, beq_self_eq_true _⟩ ⟨rfl, rfl⟩ rfl rfl rfl rfl (frames _)

theorem executeAsync_traced {thread : Thread γ} (ctx : γ) (res : Response)
    (callback : Option CallbackId)
    (frames : ∀ event, ∀ frame ∈ stack, frame.Explained thread event) :
    Traced program chain thread (executeAsync program chain ctx res callback stack) := by
  unfold executeAsync
  split
  · rename_i empty
    split <;>
      exact .idle (.enter chain _ _ _ _ empty) trivial (fun _ same => by cases same; trivial)
        rfl rfl (frames _)
  · exact registered_traced ⟨rfl, ctx, res, callback, .inr ⟨rfl, rfl⟩⟩
      ⟨_, rfl, beq_self_eq_true _⟩ ⟨rfl, rfl⟩ rfl rfl rfl rfl (frames _)

theorem invoke_traced {thread : Thread γ} {operation : Operation γ} {move : Move γ}
    (frames : ∀ event, ∀ frame ∈ stack, frame.Explained thread event)
    (moved : invoke program chain stack operation = some move) :
    Traced program chain thread move := by
  cases operation with
  | next handle =>
      simp only [invoke] at moved
      split at moved
      · cases moved
      · rename_i run found
        split at moved
        · rename_i closed
          cases moved
          exact next_traced found closed (frames _)
        · cases moved
  | callback handle result message =>
      simp only [invoke] at moved
      split at moved
      · cases moved
      · rename_i run found
        split at moved
        · rename_i allowed
          obtain ⟨closed, async⟩ := Bool.and_eq_true_iff.mp allowed
          cases moved
          refine .of (.inl (.refl chain)) trivial (fun _ same => by cases same) ?_ ?_ (frames _)
          · intro wanted now
            cases now
            exact .inl ⟨run, found, closed⟩
          · intro wanted now
            cases now
            exact .inr (.inl ⟨run, found, by simpa using async⟩)
        · cases moved
  | execute ctx res =>
      cases moved
      exact execute_traced ctx res frames
  | executeAsync ctx res callback =>
      cases moved
      exact executeAsync_traced ctx res callback frames
  | pause | resume =>
      cases moved
      exact .idle (.same rfl rfl) trivial (fun _ same => by cases same; trivial) rfl rfl (frames _)
  | cancel | configure _ =>
      cases moved
      exact .silent (.same rfl rfl) trivial rfl rfl (frames _)

theorem runCode_traced {code : Code γ} {move : Move γ}
    (moved : runCode program chain stack code = some move) :
    Traced program chain ⟨.code code, stack⟩ move := by
  cases code with
  | ret verdict | throw e =>
      cases moved
      exact .silent (.refl chain) trivial rfl rfl (explained_stack _ _)
  | access other write rest =>
      simp only [runCode] at moved
      split at moved
      · cases moved
      · cases moved
        exact .silent (.setMessage chain _ _ _) trivial rfl rfl (explained_stack _ _)
  | invoke operation rest =>
      exact invoke_traced (fun _ => explained_cons (.plain rfl rfl) (explained_stack _ _)) moved

theorem timerHandler_traced {timer : TimerId} {move : Move γ}
    (moved : timerHandler chain timer stack = some move) :
    Traced program chain ⟨.timerHandler timer, stack⟩ move := by
  unfold timerHandler at moved
  split at moved
  · cases moved
  · split at moved
    · cases moved
    · split at moved
      · cases moved
        exact .idle (.refl chain) trivial (fun _ same => by cases same; trivial) rfl rfl
          (explained_stack _ _)
      · dsimp only at moved
        split at moved
        · cases moved
          exact .idle (.markTimedOut chain _) ⟨_, rfl⟩ (fun _ same => by cases same; trivial)
            rfl rfl (explained_stack _ _)
        · cases moved
          exact .idle ((Chain.Alike.markTimedOut chain _).trans (.countTimeout _ _ _)) ⟨_, rfl⟩
            (fun _ same => by cases same; trivial) rfl rfl (explained_stack _ _)

/-- A verdict against a position goes on with the next step. -/
theorem skip_traced {verdict : Bool} {frame : Frame γ} {mode : Mode} {position : Nat}
    (selects : frame.drives? = some (call, mode)) {control : Control γ}
    (arrives : Arrives ⟨.returned verdict, frame :: stack⟩ (some (.skipped call position)) control)
    (handle : control.handle? = none) (drive : control.drives? = some (call, mode)) :
    Traced program chain ⟨.returned verdict, frame :: stack⟩
      ⟨some (.skipped call position), chain, ⟨control, stack⟩⟩ := by
  refine .of (.refl chain) arrives (fun _ same => by cases same; trivial) ?_ ?_
    (explained_below _ _ _)
  · intro wanted now
    rw [handle] at now
    cases now
  · intro wanted now
    cases drive.symm.trans now
    exact .inl (.frame List.mem_cons_self selects)

/-- The default adapter signals through its handle. -/
theorem adapter_traced {control : Control γ} {frame : Frame γ} {handle : Handle}
    (own : frame.handle? = some handle) (drives : frame.drives? = some (handle.call, .async))
    {result : MiddlewareResult} {message : String} {base : List (Frame γ)}
    (frames : ∀ other ∈ base, other.Explained ⟨control, frame :: stack⟩ none) :
    Traced program chain ⟨control, frame :: stack⟩
      ⟨none, chain, ⟨.asyncCallback handle result message, base⟩⟩ := by
  refine .of (.inl (.refl chain)) trivial (fun _ same => by cases same) ?_ ?_ frames
  · intro wanted now
    cases now
    exact .inr (.frame List.mem_cons_self own)
  · intro wanted now
    cases now
    exact .inl (.frame List.mem_cons_self drives)

theorem resume_traced {verdict : Bool} {frame : Frame γ} {move : Move γ}
    (moved : resume program chain verdict stack frame = some move) :
    Traced program chain ⟨.returned verdict, frame :: stack⟩ move := by
  cases frame with
  | asyncSelect other position =>
      simp only [resume] at moved
      split at moved
      · split at moved
        · cases moved
        · rename_i run found
          split at moved
          · cases moved
          · rename_i mw inside
            cases moved
            exact startAsyncBody_traced found inside
      · cases moved
        exact skip_traced rfl ⟨_, rfl, beq_self_eq_true other⟩ rfl rfl
  | syncSelect other position =>
      simp only [resume] at moved
      split at moved
      · split at moved
        · cases moved
        · rename_i run found
          split at moved
          · cases moved
          · rename_i mw inside
            cases moved
            exact startSyncBody_traced found inside
      · cases moved
        exact skip_traced rfl ⟨_, rfl, beq_self_eq_true other⟩ rfl rfl
  | adapterBody handle =>
      cases moved
      refine adapter_traced rfl rfl (explained_cons ⟨?_, ?_⟩ (explained_below _ _ _))
      · intro wanted now
        cases now
        exact .inl (.frame List.mem_cons_self rfl)
      · intro wanted now
        cases now
        exact .inl (.frame List.mem_cons_self rfl)
  | syncBody other position =>
      simp only [resume] at moved
      split at moved
      · cases moved
      · cases moved
        exact .silent (.countExecution chain _ _) trivial rfl rfl (explained_below _ _ _)
  | executeTry other =>
      cases moved
      exact leaveRun_traced _ (.inr List.mem_cons_self) fun _ => List.mem_cons_of_mem _
  | timerDone timer =>
      simp only [resume] at moved
      split at moved
      · cases moved
        exact .idle (.inr (.inl ⟨timer, _, rfl, .inl ⟨_, rfl⟩, .inl rfl⟩)) trivial
          (fun _ same => by cases same) rfl rfl (explained_below _ _ _)
      · cases moved
  | await _ | asyncBody _ _ | adapterCallback _ | errorHandled _ _ | timeoutHandled _
  | executeAsyncTry _ | rethrow _ =>
      cases moved
      exact .silent (.refl chain) trivial rfl rfl (explained_below _ _ _)

theorem unwind_traced {e : Exn} {frame : Frame γ} {move : Move γ}
    (moved : unwind program chain e stack frame = some move) :
    Traced program chain ⟨.thrown e, frame :: stack⟩ move := by
  cases frame with
  | asyncSelect other position | syncSelect other position =>
      cases moved
      exact .idle (.refl chain) trivial (fun _ same => by cases same; trivial) rfl rfl
        (explained_below _ _ _)
  | asyncBody other position =>
      simp only [unwind] at moved
      split at moved
      · rename_i isStd
        cases moved
        exact .silent (.countError chain _ _) ⟨rfl, due_std isStd rfl⟩ rfl rfl
          (explained_below _ _ _)
      · cases moved
        exact .silent (.refl chain) trivial rfl rfl (explained_below _ _ _)
      · cases moved
  | adapterBody handle | adapterCallback handle =>
      simp only [unwind] at moved
      split at moved
      · cases moved
        exact adapter_traced rfl rfl (explained_below _ _ _)
      · cases moved
        exact .silent (.refl chain) trivial rfl rfl (explained_below _ _ _)
  | executeAsyncTry other =>
      simp only [unwind] at moved
      split at moved
      · rename_i isStd
        cases moved
        exact .silent (.refl chain) ⟨rfl, due_std isStd rfl⟩ rfl rfl (explained_below _ _ _)
      · cases moved
        exact catchUnknown_traced e fun _ => List.mem_cons_of_mem _
  | syncBody other position =>
      simp only [unwind] at moved
      split at moved
      · rename_i run what found isStd
        have answering : (⟨.thrown e, .syncBody other position :: stack⟩ : Thread γ).answering =
            some (other, e) := by
          simp [Thread.answering, Thread.pending, Thread.reaching, isStd, Frame.syncBody?]
        split at moved
        · cases moved
          exact .idle (.countError chain _ _) trivial (fun _ same => by cases same; trivial) rfl rfl
            (explained_below _ _ _)
        · rename_i unhandled
          cases moved
          refine .idle ((Chain.Alike.countError chain _ _).trans (.respond _ _ _)) trivial ?_
            rfl rfl (explained_below _ _ _)
          intro reported same
          cases same
          exact .inr (.inr ⟨e, run, answering, found, unhandled⟩)
      · cases moved
        exact .silent (.refl chain) trivial rfl rfl (explained_below _ _ _)
      · cases moved
  | executeTry other =>
      cases moved
      exact leaveRun_traced _ (.inr List.mem_cons_self) fun _ => List.mem_cons_of_mem _
  | timerDone timer =>
      simp only [unwind] at moved
      split at moved
      · cases moved
        exact .idle (.inr (.inl ⟨timer, _, rfl, .inr ⟨_, rfl⟩, .inr rfl⟩)) trivial
          (fun _ same => by cases same) rfl rfl (explained_below _ _ _)
      · cases moved
  | await _ | errorHandled _ _ | timeoutHandled _ | rethrow _ =>
      cases moved
      exact .silent (.refl chain) trivial rfl rfl (explained_below _ _ _)

/-- **Every move of a thread is accounted for.** -/
theorem advance_traced {thread : Thread γ} {move : Move γ}
    (advanced : advance program chain thread = some move) : Traced program chain thread move := by
  obtain ⟨control, stack⟩ := thread
  cases control with
  | code code => exact runCode_traced advanced
  | asyncCallback handle result message =>
      obtain ⟨run, -, rfl⟩ := Option.map_eq_some_iff.mp advanced
      exact asyncCallback_traced handle run result message
  | asyncStep other =>
      obtain ⟨run, -, advanced⟩ := Option.bind_eq_some_iff.mp advanced
      exact executeNextAsyncStep_traced advanced
  | syncStep other =>
      obtain ⟨run, -, advanced⟩ := Option.bind_eq_some_iff.mp advanced
      exact executeNextSync_traced advanced
  | handleError other e =>
      obtain ⟨run, found, rfl⟩ := Option.map_eq_some_iff.mp advanced
      exact handleErrorRun_traced found e
  | handleTimeout other =>
      obtain ⟨run, -, rfl⟩ := Option.map_eq_some_iff.mp advanced
      exact handleTimeoutRun_traced run
  | answerTimeout other =>
      obtain ⟨run, -, rfl⟩ := Option.map_eq_some_iff.mp advanced
      exact answerTimeout_traced run
  | completeRun other result message =>
      cases advanced
      exact completeAsyncRun_traced result message
  | finishing stage other completion after =>
      obtain ⟨run, found, rfl⟩ := Option.map_eq_some_iff.mp advanced
      exact finishRun_traced found stage completion after
  | timerHandler timer => exact timerHandler_traced advanced
  | cancelling calls =>
      cases calls with
      | nil =>
          cases advanced
          exact .silent (.refl chain) trivial rfl rfl (explained_stack _ _)
      | cons other rest =>
          cases advanced
          exact .idle rfl trivial (fun _ same => by cases same; trivial) rfl rfl
            (explained_stack _ _)
  | returned verdict =>
      cases stack with
      | nil => cases advanced
      | cons frame below => exact resume_traced advanced
  | thrown e =>
      cases stack with
      | nil => cases advanced
      | cons frame below => exact unwind_traced advanced

end Functions

/-! ## The runs after a move -/

/-- A run without its state. -/
def Run.unstated (run : Run) : Run :=
  { run with state := .entered 0 }

/-- Two chains whose runs differ in their states alone. -/
def Chain.SameRuns (chain after : Chain γ) : Prop :=
  ∀ call, (after.run? call).map Run.unstated = (chain.run? call).map Run.unstated

namespace Chain

theorem SameRuns.refl (chain : Chain γ) : chain.SameRuns chain :=
  fun _ => rfl

theorem SameRuns.trans {chain middle after : Chain γ} (first : chain.SameRuns middle)
    (second : middle.SameRuns after) : chain.SameRuns after :=
  fun call => (second call).trans (first call)

theorem SameRuns.modifyState (chain : Chain γ) (call : CallId)
    (change : PipelineExecutionState → PipelineExecutionState) :
    chain.SameRuns (chain.modifyState call change) := by
  intro other
  rw [Chain.modifyState, run?_modifyRun]
  split
  · cases chain.run? other <;> rfl
  · rfl

theorem SameRuns.cancelTimer (chain : Chain γ) (timer : Option TimerId) :
    chain.SameRuns (chain.cancelTimer timer) := by
  cases timer <;> exact .refl chain

theorem SameRuns.disarm (chain : Chain γ) (call : CallId) : chain.SameRuns (chain.disarm call) := by
  unfold Chain.disarm
  split
  · exact .refl chain
  · exact (cancelTimer chain _).trans (modifyState _ call _)

theorem SameRuns.setupMiddlewareTimeout (chain : Chain γ) (call : CallId)
    (position timeout : Nat) :
    chain.SameRuns (chain.setupMiddlewareTimeout call position timeout) := by
  unfold Chain.setupMiddlewareTimeout
  split
  · have added : ∀ before : Chain γ,
        before.SameRuns (before.addTimer call (some position) timeout) := fun _ _ => rfl
    exact ((disarm chain call).trans (added _)).trans (modifyState _ call _)
  · exact .refl chain

theorem SameRuns.setupGlobalTimeout (chain : Chain γ) (call : CallId) :
    chain.SameRuns (chain.setupGlobalTimeout call) := by
  unfold Chain.setupGlobalTimeout
  split
  · have added : chain.SameRuns (chain.addTimer call none chain.settings.globalTimeout) :=
      fun _ => rfl
    exact added.trans (modifyState _ call _)
  · exact .refl chain

theorem SameRuns.cancelRun (chain : Chain γ) (call : CallId) :
    chain.SameRuns (chain.cancelRun call) := by
  unfold Chain.cancelRun
  split
  · exact .refl chain
  · exact (modifyState chain call _).trans ((cancelTimer _ _).trans (cancelTimer _ _))

theorem Alike.sameRuns {chain after : Chain γ} (alike : chain.Alike after) :
    chain.SameRuns after := by
  intro call
  have kept : ∀ run : Run, run.fixed.unstated = run.unstated := fun _ => rfl
  have same := congrArg (Option.map Run.unstated) (alike.runs call)
  simpa only [Option.map_map, Function.comp_def, kept] using same

end Chain

theorem Run.eq_of_unstated {run next : Run} (same : next.unstated = run.unstated) :
    next = { run with state := next.state } := by
  obtain ⟨mode, pipeline, errorHandler, timeoutHandler, globalTimeout, statisticsEnabled, closures,
    state⟩ := next
  cases run
  simp only [Run.unstated, Run.mk.injEq] at same ⊢
  simp [same]

/-- The runs which were there when a call was entered. -/
theorem Chain.run?_enter {chain : Chain γ} {call : CallId} {run : Run}
    (found : chain.run? call = some run) (mode : Mode) (ctx : γ) (res : Response)
    (callback : Option CallbackId) :
    (chain.enter mode ctx res callback).run? call = some run := by
  have known : call < chain.calls.length := by
    obtain ⟨entry, isEntry, -⟩ := Option.bind_eq_some_iff.mp found
    exact (List.getElem?_eq_some_iff.mp isEntry).1
  simp only [Chain.enter, run?_append]
  rw [if_neg (Nat.ne_of_lt known), found]

section Runs

variable {program : Program γ} {chain after : Chain γ} {thread : Thread γ}
  {event : Option Event} {call : CallId} {run : Run}

/-- A run is kept, but for its state. -/
theorem Chain.SameRuns.kept (same : chain.SameRuns after) (found : chain.run? call = some run) :
    ∃ state, after.run? call = some { run with state := state } := by
  have kept := same call
  rw [found, Option.map_some] at kept
  obtain ⟨next, present, equal⟩ := Option.map_eq_some_iff.mp kept
  exact ⟨next.state, present.trans (congrArg some (Run.eq_of_unstated equal))⟩

/-- A move leaves the runs, but for their states, unless it starts a position or
enters a call. -/
theorem Effect.sameRuns (effect : Effect program chain thread after event) :
    chain.SameRuns after ∨
      (∃ call position, event = some (.started call position) ∧
        (chain.addClosure call position).SameRuns after) ∨
      ∃ mode ctx res callback, (chain.enter mode ctx res callback).SameRuns after := by
  cases event with
  | none =>
      rcases effect with alike | ⟨timer, live, -, -, rfl | rfl⟩ | ⟨other, _, -, -, rfl | rfl⟩
      · exact .inl alike.sameRuns
      · exact .inl fun _ => rfl
      · exact .inl fun _ => rfl
      · exact .inl (.cancelTimer chain _)
      · exact .inl (.cancelTimer chain _)
  | some event =>
      cases event with
      | registered other mode size =>
          have registered : ∀ before : Chain γ, before.SameRuns (before.registerRun other) :=
            fun _ _ => rfl
          obtain ⟨-, ctx, res, callback, ⟨-, rfl⟩ | ⟨-, rfl⟩⟩ := effect
          · exact .inr (.inr ⟨.sync, ctx, res, callback, registered _⟩)
          · exact .inr (.inr ⟨.async, ctx, res, callback,
              (registered _).trans (.setupGlobalTimeout _ _)⟩)
      | started other position =>
          obtain ⟨_, mw, -, -, ⟨-, rfl⟩ | ⟨-, rfl⟩⟩ := effect
          · exact .inr (.inl ⟨other, position, rfl, .setupMiddlewareTimeout _ _ _ _⟩)
          · exact .inr (.inl ⟨other, position, rfl, .refl _⟩)
      | signalled other position signal =>
          exact .inl ((Chain.SameRuns.disarm chain other).trans (Chain.Alike.sameRuns effect))
      | cancelled other =>
          obtain rfl : after = chain.cancelRun other := effect
          exact .inl (.cancelRun chain other)
      | passed _ _ | finished _ _ | unregistered _ _ | claimed _ _ | skipped _ _ | refused _ _
      | timedOut _ _ | overtaken _ | paused _ | errorHandled _ _ | timeoutHandled _
      | responded _ =>
          exact .inl (Chain.Alike.sameRuns effect)

/-- The run of a call is kept, but for its state and for the closures of the
position which the move starts. -/
theorem Effect.run_kept (effect : Effect program chain thread after event)
    (found : chain.run? call = some run) :
    (∃ state, after.run? call = some { run with state := state }) ∨
      ∃ position state, event = some (.started call position) ∧
        after.run? call = some { run with
          closures := (position, chain.now) :: run.closures
          state := state } := by
  rcases effect.sameRuns with same | ⟨other, position, started, same⟩ |
    ⟨mode, ctx, res, callback, same⟩
  · exact .inl (same.kept found)
  · have closed : (chain.addClosure other position).run? call =
        if call = other then some { run with closures := (position, chain.now) :: run.closures }
        else some run := by
      rw [Chain.addClosure, Chain.run?_modifyRun, found, Option.map_some]
    split at closed
    · rename_i isCall
      subst isCall
      obtain ⟨state, present⟩ := same.kept closed
      exact .inr ⟨position, state, started, present⟩
    · exact .inl (same.kept closed)
  · exact .inl (same.kept (chain.run?_enter found mode ctx res callback))

/-- A run which was not there has no closures yet. -/
theorem Effect.run_new (effect : Effect program chain thread after event)
    (absent : chain.run? call = none) {next : Run} (found : after.run? call = some next) :
    next.closures = [] := by
  rcases effect.sameRuns with same | ⟨other, position, -, same⟩ | ⟨mode, ctx, res, callback, same⟩
  · have kept := same call
    rw [absent, found] at kept
    cases kept
  · have kept := same call
    rw [found, Chain.addClosure, Chain.run?_modifyRun, absent, Option.map_none, ite_self] at kept
    cases kept
  · have kept := same call
    rw [found, Chain.enter, run?_append, Option.map_some] at kept
    split at kept
    · split at kept
      · cases kept
      · exact congrArg Run.closures (Option.some.inj kept)
    · rw [absent] at kept
      cases kept

/-- The closures which exist after a move existed before, or the move starts
their position. -/
theorem Effect.hands (effect : Effect program chain thread after event) {handle : Handle}
    (hands : after.Hands handle) :
    chain.Hands handle ∨ event = some (.started handle.call handle.position) := by
  obtain ⟨next, found, closed⟩ := hands
  cases before : chain.run? handle.call with
  | none =>
      have empty := effect.run_new before found
      simp [Run.closure?, empty] at closed
  | some run =>
      rcases effect.run_kept before with ⟨state, present⟩ | ⟨position, state, started, present⟩
      · cases found.symm.trans present
        exact .inl ⟨run, before, closed⟩
      · cases found.symm.trans present
        by_cases same : position = handle.position
        · exact .inr (same ▸ started)
        · refine .inl ⟨run, before, ?_⟩
          have other : (handle.position == position) = false := by
            simpa using fun equal : handle.position = position => same equal.symm
          simpa only [Run.closure?, List.lookup_cons, other] using closed

end Runs

theorem Thread.Begun.drives_nothing {thread : Thread γ} (begun : thread.Begun)
    (drive : CallId × Mode) : ¬ thread.Drives drive := by
  rcases begun with ⟨code, rfl⟩ | ⟨timer, rfl⟩
  · rintro (now | ⟨frame, waits, -⟩)
    · cases now
    · cases waits
  · rintro (now | ⟨frame, waits, drives⟩)
    · cases now
    · rw [List.mem_singleton.mp waits] at drives
      cases drives

/-! ## The driver of a run -/

/-- Threads drive the runs in the mode they were entered in. -/
def Driven (world : World γ) : Prop :=
  ∀ thread ∈ world.threads, ∀ drive, thread.Drives drive →
    ∃ view, world.ledger.runs drive.1 = some view ∧ view.mode = drive.2

section Run

variable {program : Program γ} {guard : System.Guard (World γ) Event} {events : List Event}
  {world after : World γ} {choice : Choice γ} {event : Option Event}

/-- The run of a call which was just entered. -/
theorem step_registers {call : CallId} {mode : Mode} {size : Nat}
    (moved : step program world choice = some (some (.registered call mode size), after)) :
    after.ledger.runs call = some (.entered mode size) := by
  have transition : (system program).step world choice =
      some (some (.registered call mode size), after) := moved
  obtain ⟨-, books⟩ := (refines program).event transition
  rw [books]
  exact if_pos rfl

theorem Driven.step (driven : Driven world) (prior : (system program).Runs guard events world)
    (moved : step program world choice = some (event, after)) : Driven after := by
  have known : ∀ {drive : CallId × Mode},
      (∃ view, world.ledger.runs drive.1 = some view ∧ view.mode = drive.2) →
      ∃ view, after.ledger.runs drive.1 = some view ∧ view.mode = drive.2 := by
    rintro drive ⟨view, found, isMode⟩
    obtain ⟨next, present, grows⟩ := step_grows prior moved found
    exact ⟨next, present, grows.mode.trans isMode⟩
  by_cases own : ∃ index, choice = .thread index
  · obtain ⟨index, rfl⟩ := own
    obtain ⟨thread, move, found, advanced, rfl, rfl⟩ := step_thread program moved
    have traced := advance_traced advanced
    intro other isOther drive drives
    rcases List.mem_or_eq_of_mem_set isOther with old | rfl
    · exact known (driven other old drive drives)
    · rcases traced.drives drive drives with before | ⟨run, inside, isMode⟩ | ⟨size, entered⟩
      · exact known (driven thread (List.mem_of_getElem? found) drive before)
      · exact known ⟨run.view, World.ledger_runs inside, isMode⟩
      · rw [entered] at moved
        exact ⟨.entered drive.2 size, step_registers moved, rfl⟩
  · obtain ⟨-, -, threads⟩ := environment_moves moved (not_exists.mp own)
    intro other isOther drive drives
    rcases threads with same | ⟨new, grown, begun⟩
    · exact known (driven other (same ▸ isOther) drive drives)
    · rw [grown] at isOther
      rcases List.mem_append.mp isOther with old | last
      · exact known (driven other old drive drives)
      · exact absurd drives (List.mem_singleton.mp last ▸ begun.drives_nothing drive)

theorem run_driven (run : (system program).Runs guard events world) : Driven world := by
  induction run with
  | initial valid =>
      obtain ⟨settings, stats, now, rfl⟩ := valid
      intro thread member
      cases member
  | move prior transition _ inductionHypothesis => exact inductionHypothesis.step prior transition

end Run

end Foxhttp.Middleware
