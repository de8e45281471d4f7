import Foxhttp.Middleware.Finish
import Foxhttp.Middleware.Framing
import Foxhttp.Middleware.Registry

/-!
# What the expiry of a timer ends

The handler of a per-middleware timer marks the run and answers the request,
but never completes the run, and its mark also makes the global timer's handler
return at once. The handler of the global timer does complete the run, unless
something else marks or finishes it first. Expiry ends runs exactly as far as
every live expiry belongs to a global timer that comes first.
-/

namespace Foxhttp.Middleware

open Foxhttp.Library

variable {γ : Type}

/-- The completion callback of a call, if it has one, was invoked with `Timeout`. -/
def TimeoutReported (events : List Event) (chain : Chain γ) (call : CallId) : Prop :=
  ∀ callback, chain.callback? call = some callback →
    ∃ message, .unregistered call (some (.Timeout, message)) ∈ events

/-- Every timer that expired while its run was unfinished, and whose handler
has returned normally, has ended its run: the run is finished, and unless some
other thread is inside `try_finish_run` with it, it is out of the registry and
reported. -/
def ExpiriesEnd (events : List Event) (world : World γ) : Prop :=
  ∀ (timer : TimerId) (entry : Timer), world.chain.timers[timer]? = some entry →
    entry.status = .returned true →
    (∃ run, world.chain.run? entry.call = some run ∧ run.state.finished = true) ∧
    (¬ world.Finishing entry.call →
      entry.call ∉ world.chain.activeRuns ∧ TimeoutReported events world.chain entry.call)

/-- Has a timer of this call expired on the unfinished run, with its handler
not at its end yet? -/
def Chain.expiring (chain : Chain γ) (call : CallId) : Bool :=
  chain.timers.any fun timer =>
    timer.call == call &&
      (decide (timer.status = .expired true) || decide (timer.status = .handling true))

/-- A handler of a live expiry marks or leaves an unfinished run only as a
global timer that finds it unmarked, and no other outcome than `Timeout`
finishes a run in the meantime. -/
def expiriesComplete (_ : List Event) (world : World γ) : Option Event → Bool
  | some (.timedOut call (some timer)) =>
      match world.chain.timers[timer]? with
      | some { position := some _, status := .handling true, .. } => !world.chain.unfinished call
      | _ => true
  | some (.overtaken timer) =>
      match world.chain.timers[timer]? with
      | some { call := call, status := .handling true, .. } => !world.chain.unfinished call
      | _ => true
  | some (.finished call completion) =>
      !world.chain.expiring call || (world.chain.callback? call).isNone ||
        completion.any fun arguments => decide (arguments.1 = .Timeout)
  | _ => true

/-! ## Finished runs along a run of the machine -/

/-- A run is finished or it is not. -/
theorem finished_of_not_unfinished {world : World γ} {call : CallId} {view : RunView}
    (found : world.ledger.runs call = some view)
    (done : world.chain.unfinished call = false) : world.ledger.Finished call := by
  obtain ⟨run, inside, rfl⟩ := Option.map_eq_some_iff.mp found
  refine ⟨run.view, found, ?_⟩
  simpa [Chain.unfinished, inside, Run.view] using done

section Step

variable {program : Program γ} {guard : System.Guard (World γ) Event} {events : List Event}
  {world after : World γ} {choice : Choice γ} {event : Option Event}

/-- Runs grow in a step of the machine. -/
theorem step_grows (run : (system program).Runs guard events world)
    (moved : step program world choice = some (event, after)) {call : CallId} {view : RunView}
    (found : world.ledger.runs call = some view) :
    ∃ next, after.ledger.runs call = some next ∧ view.Grows next := by
  cases event with
  | none =>
      rw [(refines program).silent moved]
      exact ⟨view, found, .refl view⟩
  | some event =>
      obtain ⟨enabled, books⟩ := (refines program).event moved
      rw [books]
      exact ⟨_, (run_entered run).survives enabled found, event.onView_grows call view⟩

/-- What an event which enters no run makes of one. -/
theorem step_runs {event : Event} (call : CallId)
    (moved : step program world choice = some (some event, after))
    (other : ∀ mode size, event ≠ .registered call mode size) :
    after.ledger.runs call = (world.ledger.runs call).map (event.onView call) := by
  have books : after.ledger = world.ledger.apply event := ((refines program).event moved).2
  rw [books, world.ledger.runs_apply_of_not_registered other]

/-- Finished runs stay finished. -/
theorem step_finished (run : (system program).Runs guard events world)
    (moved : step program world choice = some (event, after)) {call : CallId}
    (finished : world.ledger.Finished call) : after.ledger.Finished call := by
  obtain ⟨view, found, up⟩ := finished
  obtain ⟨next, present, grows⟩ := step_grows run moved found
  exact ⟨next, present, grows.finished up⟩

/-- A finish event finishes its run. -/
theorem step_finish {call : CallId} {completion : Option (MiddlewareResult × String)}
    (moved : step program world choice = some (some (.finished call completion), after)) :
    after.ledger.Finished call := by
  obtain ⟨⟨view, found, -⟩, -⟩ := (refines program).event moved
  have ended := step_runs call moved fun mode size => by simp
  rw [found, Option.map_some] at ended
  exact ⟨_, ended, by simp [Event.onView]⟩

/-- A run is finished by its own finish event. -/
theorem step_finishes (moved : step program world choice = some (event, after)) {call : CallId}
    (finished : after.ledger.Finished call) :
    world.ledger.Finished call ∨ ∃ completion, event = some (.finished call completion) := by
  cases event with
  | none =>
      rw [(refines program).silent moved] at finished
      exact .inl finished
  | some event =>
      obtain ⟨-, books⟩ := (refines program).event moved
      rw [books] at finished
      obtain ⟨view, found, up⟩ := finished
      by_cases ends : ∃ completion, event = .finished call completion
      · obtain ⟨completion, rfl⟩ := ends
        exact .inr ⟨completion, rfl⟩
      · rcases Ledger.runs_apply found with ⟨before, earlier, rfl⟩ | ⟨mode, size, rfl, rfl⟩
        · exact .inl ⟨before, earlier, Event.finished_of_onView up fun completion equal =>
            ends ⟨completion, equal⟩⟩
        · cases up

/-- A call with a run keeps its callback in a step that keeps the chain. -/
theorem kept_callback (run : (system program).Runs guard events world)
    (kept : world.chain.Kept after.chain) {call : CallId} {view : RunView}
    (found : world.ledger.runs call = some view) :
    after.chain.callback? call = world.chain.callback? call :=
  kept.callbacks call ((run_entered run).known found)

end Step

/-! ## What a live expiry owes -/

/-- Did the timer expire on an unfinished run, with no exception out of its
handler so far? -/
def TimerStatus.live : TimerStatus → Bool
  | .expired live => live
  | .handling live => live
  | .returned live => live
  | _ => false

/-- Was the timer's handler called? -/
def TimerStatus.dispatched : TimerStatus → Bool
  | .handling _ | .returned _ | .threw _ => true
  | _ => false

/-- A timer's handler is on its way to ending the run: nothing lies above it
but what leads there, or the timeout handler lies just above it. -/
def Ending (call : CallId) (timer : TimerId) (control : Control γ) (above : List (Frame γ)) :
    Prop :=
  (above = [] ∧
    (control = .timerHandler timer ∨ control = .handleTimeout call ∨
      (∃ message, control = .completeRun call .Timeout message) ∨
      ∃ e, control = .thrown e)) ∨
  ∃ rest, above = rest ++ [.timeoutHandled call]

/-- The run of a call, if the call has a callback, was finished with `Timeout`. -/
def TimeoutAnnounced (events : List Event) (chain : Chain γ) (call : CallId) : Prop :=
  ∀ callback, chain.callback? call = some callback →
    ∃ message, .finished call (some (.Timeout, message)) ∈ events

/-- What the timers of a world owe to their runs, and how far it is paid. -/
structure Owing (events : List Event) (world : World γ) : Prop where
  run : ∀ (timer : TimerId) (entry : Timer), world.chain.timers[timer]? = some entry →
    entry.status.live = true → ∃ view, world.ledger.runs entry.call = some view
  announced : ∀ (timer : TimerId) (entry : Timer), world.chain.timers[timer]? = some entry →
    entry.status.live = true → world.ledger.Finished entry.call →
    TimeoutAnnounced events world.chain entry.call
  returned : ∀ (timer : TimerId) (entry : Timer), world.chain.timers[timer]? = some entry →
    entry.status = .returned true → world.ledger.Finished entry.call
  handling : ∀ thread ∈ world.threads, ∀ above (timer : TimerId) below,
    thread.stack = above ++ .timerDone timer :: below →
    ∀ entry : Timer, world.chain.timers[timer]? = some entry → entry.status = .handling true →
    world.ledger.Finished entry.call ∨ Ending entry.call timer thread.control above
  dispatched : ∀ thread ∈ world.threads, ∀ timer : TimerId, .timerDone timer ∈ thread.stack →
    ∃ entry, world.chain.timers[timer]? = some entry ∧ entry.status.dispatched = true

/-- A status that is live is neither armed nor cancelled. -/
theorem TimerStatus.succeeded {status : TimerStatus} (live : status.live = true) :
    status ≠ .armed ∧ status ≠ .cancelled := by
  cases status <;> simp [TimerStatus.live] at live ⊢

section Report

variable {program : Program γ} {events : List Event} {world after : World γ}
  {choice : Choice γ} {event : Option Event}

/-- A live timer is still expiring, or its run is finished. -/
theorem Owing.expiring (owing : Owing events world) {timer : TimerId} {entry : Timer}
    (found : world.chain.timers[timer]? = some entry) (live : entry.status.live = true) :
    world.chain.expiring entry.call = true ∨ world.ledger.Finished entry.call := by
  have member := List.mem_of_getElem? found
  cases status : entry.status with
  | armed | cancelled | threw _ => simp [TimerStatus.live, status] at live
  | returned alive =>
      obtain rfl : alive = true := by simpa [TimerStatus.live, status] using live
      exact .inr (owing.returned timer entry found status)
  | expired alive | handling alive =>
      obtain rfl : alive = true := by simpa [TimerStatus.live, status] using live
      exact .inl (List.any_eq_true.mpr ⟨entry, member, by simp [status]⟩)

/-- The run of a live timer is finished with `Timeout` once it is finished. -/
theorem Owing.announced_step (owing : Owing events world)
    (moved : step program world choice = some (event, after))
    (allowed : System.Guard.of expiriesComplete events world event)
    {timer : TimerId} {entry : Timer} (found : world.chain.timers[timer]? = some entry)
    (live : entry.status.live = true)
    (callback : after.chain.callback? entry.call = world.chain.callback? entry.call)
    (finished : after.ledger.Finished entry.call) :
    TimeoutAnnounced (events ++ event.toList) after.chain entry.call := by
  intro target given
  rw [callback] at given
  have earlier : world.ledger.Finished entry.call →
      ∃ message, .finished entry.call (some (.Timeout, message)) ∈ events ++ event.toList := by
    intro before
    obtain ⟨message, member⟩ := owing.announced timer entry found live before target given
    exact ⟨message, List.mem_append_left _ member⟩
  rcases step_finishes moved finished with before | ⟨completion, rfl⟩
  · exact earlier before
  · rcases owing.expiring found live with expiring | before
    · -- the finish that the guard lets through while the timer is expiring
      have outcome : expiriesComplete events world (some (.finished entry.call completion)) :=
        allowed
      simp only [expiriesComplete, expiring, given, Bool.not_true, Bool.false_or,
        Option.isNone_some] at outcome
      cases completion with
      | none => cases outcome
      | some arguments =>
          obtain ⟨result, message⟩ := arguments
          obtain rfl : result = .Timeout := by simpa using outcome
          exact ⟨message, by simp⟩
    · exact earlier before

end Report

/-! ## One move at a time -/

section Moves

variable {program : Program γ} {events : List Event} {world : World γ}

/-- A call with a run is finished after `try_finish_run`. -/
theorem Chain.finished_tryFinishRun {chain : Chain γ} {call : CallId} {run : Run}
    (found : chain.run? call = some run) :
    ∃ after, (chain.tryFinishRun call).2.run? call = some after ∧ after.state.finished = true := by
  unfold Chain.tryFinishRun
  simp only [found]
  split
  · rename_i up
    exact ⟨run, found, up⟩
  · refine ⟨{ run with state := { run.state with finished := true } }, ?_, rfl⟩
    simp only
    rw [Chain.modifyState, Chain.run?_modifyRun, if_pos rfl, found]
    rfl

/-- A stack that holds a timer's handler below activations that are none. -/
theorem above_of_pushed {pushed base above below : List (Frame γ)} {timer : TimerId}
    (shape : pushed ++ base = above ++ .timerDone timer :: below)
    (own : ∀ frame ∈ pushed, frame.isTimerDone = false) :
    ∃ upper, above = pushed ++ upper ∧ base = upper ++ .timerDone timer :: below := by
  rcases List.append_eq_append_iff.mp shape with ⟨upper, rfl, rfl⟩ | ⟨upper, rfl, rest⟩
  · exact ⟨upper, rfl, rfl⟩
  · cases upper with
    | nil => exact ⟨[], by simp, by simpa using rest.symm⟩
    | cons frame tail =>
        obtain ⟨rfl, -⟩ := List.cons.inj rest
        have none := own (.timerDone timer) (by simp)
        cases none

/-- The last activation of a stack with one more on top. -/
theorem last_of_cons {frame last : Frame γ} {above rest : List (Frame γ)}
    (shape : frame :: above = rest ++ [last]) :
    (above = [] ∧ frame = last) ∨ ∃ front, above = front ++ [last] := by
  cases rest with
  | nil =>
      obtain ⟨rfl, rfl⟩ := List.cons.inj shape
      exact .inl ⟨rfl, rfl⟩
  | cons head front =>
      obtain ⟨rfl, rfl⟩ := List.cons.inj shape
      exact .inr ⟨front, rfl⟩

/-- Nothing lies above the handler of a timer which is on top. -/
theorem above_eq_nil {above below : List (Frame γ)} {frame : Frame γ}
    (shape : frame :: below = above ++ frame :: below) : above = [] := by
  have lengths := congrArg List.length shape
  simp only [List.length_append, List.length_cons] at lengths
  exact List.eq_nil_of_length_eq_zero (by omega)

/-- Below the timeout handler a move stays on its way. -/
theorem ending_of_timeoutHandled {thread : Thread γ} {move : Move γ}
    (inside : ¬ thread.leavesTimer)
    (advanced : advance program world.chain thread = some move)
    {call : CallId} {rest below upper : List (Frame γ)} {timer : TimerId}
    (shape : thread.stack = (rest ++ [.timeoutHandled call]) ++ .timerDone timer :: below)
    (next : move.thread.stack = upper ++ .timerDone timer :: below) :
    Ending call timer move.thread.control upper := by
  obtain ⟨-, pushed, grown, own⟩ := advance_framed advanced inside
  have kept : ∀ front,
      thread.base = (front ++ [.timeoutHandled call]) ++ .timerDone timer :: below →
      Ending call timer move.thread.control upper := by
    intro front base
    rw [next, base, ← List.append_assoc] at grown
    have same := List.append_cancel_right grown
    exact .inr ⟨pushed ++ front, by rw [same, List.append_assoc]⟩
  obtain ⟨control, stack⟩ := thread
  by_cases leaving : (∃ verdict, control = .returned verdict) ∨ ∃ e, control = .thrown e
  · -- the activation on top goes: the timeout handler itself, or one above it
    cases stack with
    | nil => simp at shape
    | cons frame tail =>
        cases rest with
        | nil =>
            obtain ⟨rfl, rfl⟩ := List.cons.inj shape
            rcases leaving with ⟨verdict, rfl⟩ | ⟨e, rfl⟩
            · cases advanced
              rw [above_eq_nil next]
              exact .inl ⟨rfl, .inr (.inr (.inl ⟨_, rfl⟩))⟩
            · cases advanced
              rw [above_eq_nil next]
              exact .inl ⟨rfl, .inr (.inr (.inr ⟨e, rfl⟩))⟩
        | cons head front =>
            obtain ⟨rfl, rfl⟩ := List.cons.inj shape
            refine kept front ?_
            rcases leaving with ⟨verdict, rfl⟩ | ⟨e, rfl⟩ <;> rfl
  · refine kept rest ?_
    rw [← shape]
    cases control with
    | returned verdict => exact absurd (.inl ⟨verdict, rfl⟩) leaving
    | thrown e => exact absurd (.inr ⟨e, rfl⟩) leaving
    | _ => rfl

/-- The handler of a live timer leaves or marks its run on the way to its end. -/
theorem ending_of_timerHandler {below upper : List (Frame γ)} {timer : TimerId} {entry : Timer}
    {move : Move γ} {view : RunView}
    (advanced : timerHandler world.chain timer (.timerDone timer :: below) = some move)
    (allowed : System.Guard.of expiriesComplete events world move.event)
    (found : world.chain.timers[timer]? = some entry) (handling : entry.status = .handling true)
    (known : world.ledger.runs entry.call = some view)
    (next : move.thread.stack = upper ++ .timerDone timer :: below) :
    world.ledger.Finished entry.call ∨ Ending entry.call timer move.thread.control upper := by
  obtain ⟨call, position, expiry, status⟩ := entry
  obtain rfl : status = .handling true := handling
  unfold timerHandler at advanced
  simp only [found] at advanced
  split at advanced
  · cases advanced
  · split at advanced
    · cases advanced
      have done : (!world.chain.unfinished call) = true := by
        simpa [System.Guard.of, expiriesComplete, found] using allowed
      exact .inl (finished_of_not_unfinished known (by simpa using done))
    · cases position with
      | none =>
          cases advanced
          rw [above_eq_nil next]
          exact .inr (.inl ⟨rfl, .inr (.inl rfl)⟩)
      | some position =>
          cases advanced
          have done : (!world.chain.unfinished call) = true := by
            simpa [System.Guard.of, expiriesComplete, found] using allowed
          exact .inl (finished_of_not_unfinished known (by simpa using done))

/-- `handle_timeout_run` calls the timeout handler or completes the run. -/
theorem ending_of_handleTimeout {chain : Chain γ} {call : CallId} {run : Run}
    {below upper : List (Frame γ)} {timer : TimerId}
    (next : (handleTimeoutRun program chain call run (.timerDone timer :: below)).thread.stack =
      upper ++ .timerDone timer :: below) :
    Ending call timer
      (handleTimeoutRun program chain call run (.timerDone timer :: below)).thread.control
      upper := by
  unfold handleTimeoutRun at next ⊢
  split at next
  · have same : [Frame.timeoutHandled call] ++ .timerDone timer :: below =
        upper ++ .timerDone timer :: below := next
    exact .inr ⟨[], (List.append_cancel_right same).symm⟩
  · rw [above_eq_nil next]
    exact .inl ⟨rfl, .inr (.inr (.inl ⟨_, rfl⟩))⟩

/-- What `complete_async_run` makes of the chain is `try_finish_run`. -/
theorem completeAsyncRun_chain (chain : Chain γ) (call : CallId) (result : MiddlewareResult)
    (message : String) (stack : List (Frame γ)) :
    (completeAsyncRun program chain call result message stack).chain =
      (chain.tryFinishRun call).2 := by
  unfold completeAsyncRun
  split
  · rename_i outcome
    rw [outcome]
  · rename_i outcome
    rw [outcome]
    split <;> rfl

/-- `complete_async_run` leaves its run finished. -/
theorem finished_of_completeRun {chain : Chain γ} {call : CallId} {run : Run}
    (found : chain.run? call = some run) (result : MiddlewareResult) (message : String)
    (stack : List (Frame γ)) :
    ∃ after, (completeAsyncRun program chain call result message stack).chain.run? call =
      some after ∧ after.state.finished = true := by
  rw [completeAsyncRun_chain]
  exact Chain.finished_tryFinishRun found

/-- A move keeps activations of its own thread. -/
theorem Thread.base_subset (thread : Thread γ) {frame : Frame γ} (member : frame ∈ thread.base) :
    frame ∈ thread.stack := by
  obtain ⟨control, stack⟩ := thread
  cases control with
  | returned _ | thrown _ => exact List.mem_of_mem_tail member
  | _ => exact member

/-- A handler on its way to ending the run stays on it, or the run is finished. -/
theorem ending_step {after : World γ} {index : Nat} {thread : Thread γ} {move : Move γ}
    (run : (system program).Runs (System.Guard.of expiriesComplete) events world)
    (owing : Owing events world)
    (inside : ¬ thread.leavesTimer)
    (advanced : advance program world.chain thread = some move)
    (moved : step program world (.thread index) = some (move.event, after))
    (allowed : System.Guard.of expiriesComplete events world move.event)
    (same : after.chain = move.chain)
    {above below upper : List (Frame γ)} {timer : TimerId} {entry : Timer}
    (shape : thread.stack = above ++ .timerDone timer :: below)
    (found : world.chain.timers[timer]? = some entry) (handling : entry.status = .handling true)
    (ending : Ending entry.call timer thread.control above)
    (next : move.thread.stack = upper ++ .timerDone timer :: below) :
    after.ledger.Finished entry.call ∨ Ending entry.call timer move.thread.control upper := by
  obtain ⟨view, known⟩ := owing.run timer entry found (by simp [handling, TimerStatus.live])
  rcases ending with ⟨rfl, way⟩ | ⟨rest, rfl⟩
  · obtain ⟨control, stack⟩ := thread
    obtain rfl : stack = .timerDone timer :: below := shape
    rcases way with rfl | rfl | ⟨message, rfl⟩ | ⟨e, rfl⟩
    · rcases ending_of_timerHandler advanced allowed found handling known next with done | still
      · exact .inl (step_finished run moved done)
      · exact .inr still
    · obtain ⟨entered, -, rfl⟩ := Option.map_eq_some_iff.mp advanced
      exact .inr (ending_of_handleTimeout next)
    · cases advanced
      obtain ⟨entered, inside, -⟩ := Option.map_eq_some_iff.mp known
      refine .inl ((finished_iff after entry.call).mpr ?_)
      rw [same]
      exact finished_of_completeRun inside _ _ _
    · exact absurd ⟨timer, below, rfl, .inr ⟨e, rfl⟩⟩ inside
  · exact .inr (ending_of_timeoutHandled inside advanced shape next)

/-! ## Along a run -/

/-- The timers after one of them was given a status. -/
theorem timers_setTimerStatus {chain : Chain γ} {timer other : TimerId} {status : TimerStatus}
    {entry : Timer} (found : (chain.setTimerStatus timer status).timers[other]? = some entry) :
    (∃ before, chain.timers[timer]? = some before ∧ other = timer ∧
        entry = { before with status := status }) ∨
      (other ≠ timer ∧ chain.timers[other]? = some entry) := by
  simp only [Chain.setTimerStatus, List.getElem?_modify] at found
  by_cases equal : timer = other
  · subst equal
    cases before : chain.timers[timer]? with
    | none => simp [before] at found
    | some old => exact .inl ⟨old, rfl, rfl, by simpa [before, eq_comm] using found⟩
  · refine .inr ⟨fun same => equal same.symm, ?_⟩
    simpa [equal] using found

/-- A timer's handler which a thread is in after a move inside the chain, it was
in before. -/
theorem waiting_before {thread : Thread γ} {move : Move γ} (inside : ¬ thread.leavesTimer)
    (advanced : advance program world.chain thread = some move)
    {above below : List (Frame γ)} {timer : TimerId}
    (stack : move.thread.stack = above ++ .timerDone timer :: below) :
    ∃ front, thread.stack = front ++ .timerDone timer :: below := by
  obtain ⟨-, pushed, grown, own⟩ := advance_framed advanced inside
  obtain ⟨upper, -, base⟩ := above_of_pushed (grown.symm.trans stack) own
  obtain ⟨control, waiting⟩ := thread
  cases control with
  | returned _ | thrown _ =>
      cases waiting with
      | nil => simp [Thread.base] at base
      | cons frame tail => exact ⟨frame :: upper, congrArg (frame :: ·) base⟩
  | _ => exact ⟨upper, base⟩

/-- Whoever is in a timer's handler after a move was in it before. -/
theorem timerDone_before {thread : Thread γ} {move : Move γ}
    (advanced : advance program world.chain thread = some move) {timer : TimerId}
    (waits : .timerDone timer ∈ move.thread.stack) : .timerDone timer ∈ thread.stack := by
  by_cases leaves : thread.leavesTimer
  · obtain ⟨left, below, shape, leaving⟩ := leaves
    obtain ⟨control, stack⟩ := thread
    obtain rfl : stack = .timerDone left :: below := shape
    obtain ⟨-, -, -, -, -, same, -⟩ := advance_leavesTimer leaving advanced
    exact List.mem_cons_of_mem _ (same ▸ waits)
  · obtain ⟨-, pushed, grown, own⟩ := advance_framed advanced leaves
    rw [grown] at waits
    rcases List.mem_append.mp waits with new | under
    · cases own _ new
    · exact thread.base_subset under

/-- A move inside the chain keeps what the timers owe. -/
theorem Owing.inside {after : World γ} {index : Nat} {thread : Thread γ} {move : Move γ}
    (run : (system program).Runs (System.Guard.of expiriesComplete) events world)
    (owing : Owing events world) (present : world.threads[index]? = some thread)
    (inside : ¬ thread.leavesTimer)
    (advanced : advance program world.chain thread = some move)
    (moved : step program world (.thread index) = some (move.event, after))
    (allowed : System.Guard.of expiriesComplete events world move.event)
    (shape : after = ⟨move.chain, world.threads.set index move.thread⟩) :
    Owing (events ++ move.event.toList) after := by
  have kept : world.chain.Kept after.chain := by
    rw [shape]
    exact (advance_framed advanced inside).kept
  have before : ∀ (timer : TimerId) (entry : Timer), after.chain.timers[timer]? = some entry →
      entry.status.live = true → world.chain.timers[timer]? = some entry := by
    intro timer entry found live
    obtain ⟨armed, cancelled⟩ := TimerStatus.succeeded live
    exact kept.timers timer entry found armed cancelled
  refine ⟨?_, ?_, ?_, ?_, ?_⟩
  · intro timer entry found live
    obtain ⟨view, known⟩ := owing.run timer entry (before timer entry found live) live
    obtain ⟨next, later, -⟩ := step_grows run moved known
    exact ⟨next, later⟩
  · intro timer entry found live finished
    have earlier := before timer entry found live
    obtain ⟨view, known⟩ := owing.run timer entry earlier live
    exact owing.announced_step moved allowed earlier live (kept_callback run kept known) finished
  · intro timer entry found returned
    have earlier := before timer entry found (by simp [returned, TimerStatus.live])
    exact step_finished run moved (owing.returned timer entry earlier returned)
  · intro other member above timer below stack entry found handling
    have earlier := before timer entry found (by simp [handling, TimerStatus.live])
    rw [shape] at member
    rcases List.mem_or_eq_of_mem_set member with old | rfl
    · rcases owing.handling other old above timer below stack entry earlier handling with
        done | still
      · exact .inl (step_finished run moved done)
      · exact .inr still
    · obtain ⟨front, waiting⟩ := waiting_before inside advanced stack
      have thread_mem := List.mem_of_getElem? present
      rcases owing.handling thread thread_mem front timer below waiting entry earlier handling with
        done | still
      · exact .inl (step_finished run moved done)
      · exact ending_step run owing inside advanced moved allowed (by rw [shape]) waiting earlier
          handling still stack
  · intro other member timer waiting
    have earlier : ∃ entry, world.chain.timers[timer]? = some entry ∧
        entry.status.dispatched = true := by
      rw [shape] at member
      rcases List.mem_or_eq_of_mem_set member with old | rfl
      · exact owing.dispatched other old timer waiting
      · exact owing.dispatched thread (List.mem_of_getElem? present) timer
          (timerDone_before advanced waiting)
    obtain ⟨entry, found, called⟩ := earlier
    refine ⟨entry, kept.settled timer entry found ?_, called⟩
    intro armed
    simp [armed, TimerStatus.dispatched] at called

/-- A new status of one timer keeps what the timers owe, when it owes no more
than it has and the threads are on their way. -/
theorem Owing.setStatus {after : World γ} (owing : Owing events world) {timer : TimerId}
    {entry : Timer} (found : world.chain.timers[timer]? = some entry) (status : TimerStatus)
    (known : status.live = true → ∃ view, world.ledger.runs entry.call = some view)
    (announced : status.live = true → world.ledger.Finished entry.call →
      TimeoutAnnounced events world.chain entry.call)
    (paid : status = .returned true → world.ledger.Finished entry.call)
    {threads : List (Thread γ)}
    (handling : ∀ thread ∈ threads, ∀ above (watched : TimerId) below,
      thread.stack = above ++ .timerDone watched :: below →
      ∀ changed : Timer,
      (world.chain.setTimerStatus timer status).timers[watched]? = some changed →
      changed.status = .handling true →
      world.ledger.Finished changed.call ∨ Ending changed.call watched thread.control above)
    (dispatched : ∀ thread ∈ threads, ∀ watched : TimerId, .timerDone watched ∈ thread.stack →
      ∃ changed, (world.chain.setTimerStatus timer status).timers[watched]? = some changed ∧
        changed.status.dispatched = true)
    (shape : after = ⟨world.chain.setTimerStatus timer status, threads⟩)
    (books : after.ledger = world.ledger) : Owing events after := by
  subst shape
  refine ⟨?_, ?_, ?_, ?_, dispatched⟩
  · intro other changed later live
    rw [books]
    rcases timers_setTimerStatus later with ⟨old, same, -, rfl⟩ | ⟨-, same⟩
    · cases found.symm.trans same
      exact known live
    · exact owing.run other changed same live
  · intro other changed later live finished
    rw [books] at finished
    rcases timers_setTimerStatus later with ⟨old, same, -, rfl⟩ | ⟨-, same⟩
    · cases found.symm.trans same
      exact announced live finished
    · exact owing.announced other changed same live finished
  · intro other changed later returned
    rw [books]
    rcases timers_setTimerStatus later with ⟨old, same, -, rfl⟩ | ⟨-, same⟩
    · cases found.symm.trans same
      exact paid returned
    · exact owing.returned other changed same returned
  · intro thread member above watched below stack changed later watching
    rw [books]
    exact handling thread member above watched below stack changed later watching

/-- A called handler stays called when a status changes for one that is no less. -/
theorem dispatched_setStatus {chain : Chain γ} {timer watched : TimerId} {entry : Timer}
    (found : chain.timers[timer]? = some entry) {status : TimerStatus}
    (grows : entry.status.dispatched = true → status.dispatched = true)
    (called : ∃ before, chain.timers[watched]? = some before ∧ before.status.dispatched = true) :
    ∃ changed, (chain.setTimerStatus timer status).timers[watched]? = some changed ∧
      changed.status.dispatched = true := by
  obtain ⟨before, present, up⟩ := called
  simp only [Chain.setTimerStatus, List.getElem?_modify, present]
  by_cases equal : timer = watched
  · subst equal
    rw [found] at present
    cases present
    exact ⟨{ entry with status := status }, by simp, grows up⟩
  · exact ⟨before, by simp [equal], up⟩

/-- A thread that was there before is on its way still. -/
theorem Owing.still (owing : Owing events world) {timer : TimerId} {status : TimerStatus}
    (ended : status ≠ .handling true) {thread : Thread γ} (member : thread ∈ world.threads)
    {above below : List (Frame γ)} {watched : TimerId}
    (stack : thread.stack = above ++ .timerDone watched :: below) {changed : Timer}
    (later : (world.chain.setTimerStatus timer status).timers[watched]? = some changed)
    (watching : changed.status = .handling true) :
    world.ledger.Finished changed.call ∨ Ending changed.call watched thread.control above := by
  rcases timers_setTimerStatus later with ⟨old, -, -, rfl⟩ | ⟨-, same⟩
  · exact absurd watching ended
  · exact owing.handling thread member above watched below stack changed same watching

/-- Leaving a timer's handler pays what the timer owed. -/
theorem Owing.leave {after : World γ} {index : Nat} {thread : Thread γ} {move : Move γ}
    (owing : Owing events world) (present : world.threads[index]? = some thread)
    (leaves : thread.leavesTimer)
    (advanced : advance program world.chain thread = some move)
    (moved : (system program).step world (.thread index) = some (move.event, after))
    (shape : after = ⟨move.chain, world.threads.set index move.thread⟩) :
    Owing (events ++ move.event.toList) after := by
  obtain ⟨control, stack⟩ := thread
  obtain ⟨timer, below, stacked, leaving⟩ := leaves
  obtain rfl : stack = .timerDone timer :: below := stacked
  obtain ⟨entry, live, found, handling, silent, rest, outcome⟩ :=
    advance_leavesTimer leaving advanced
  have member := List.mem_of_getElem? present
  have statuses : ∃ status, move.chain = world.chain.setTimerStatus timer status ∧
      (status.live = true → live = true) ∧ status ≠ .handling true ∧ status.dispatched = true ∧
      (status = .returned true → world.ledger.Finished entry.call) := by
    rcases outcome with ⟨chain, verdict, rfl⟩ | chain
    · refine ⟨_, chain, id, by simp, rfl, fun returned => ?_⟩
      -- a normal return from a handler is no way to the end of the run, so it is there
      obtain rfl : live = true := by simpa using returned
      rcases owing.handling _ member [] timer below rfl entry found handling with
        done | ⟨-, way⟩ | ⟨above, impossible⟩
      · exact done
      · rcases way with equal | equal | ⟨_, equal⟩ | ⟨_, equal⟩ <;> cases equal
      · simp at impossible
    · exact ⟨_, chain, by simp [TimerStatus.live], by simp, rfl, by simp⟩
  obtain ⟨status, chain, alive, ended, called, paid⟩ := statuses
  have up : status.live = true → entry.status.live = true := fun still => by
    rw [handling]
    exact alive still
  rw [silent, Option.toList_none, List.append_nil]
  rw [silent] at moved
  refine owing.setStatus found status (fun still => owing.run timer entry found (up still))
    (fun still => owing.announced timer entry found (up still)) paid ?_ ?_ (chain ▸ shape)
    ((refines program).silent moved)
  · intro other inside above watched under waiting changed later watching
    rcases List.mem_or_eq_of_mem_set inside with old | rfl
    · exact owing.still ended old waiting later watching
    · -- what lay under the handler is on top now
      have stacked : Frame.timerDone timer :: below =
          (.timerDone timer :: above) ++ .timerDone watched :: under := by
        rw [List.cons_append, ← waiting, rest]
      rcases owing.still ended member stacked later watching with
        done | ⟨nothing, -⟩ | ⟨front, last⟩
      · exact .inl done
      · cases nothing
      · rcases last_of_cons last with ⟨-, impossible⟩ | way
        · cases impossible
        · exact .inr (.inr way)
  · intro other inside watched waiting
    refine dispatched_setStatus found (fun _ => called) ?_
    rcases List.mem_or_eq_of_mem_set inside with old | rfl
    · exact owing.dispatched other old watched waiting
    · exact owing.dispatched _ member watched (List.mem_cons_of_mem _ (rest ▸ waiting))

/-- A new thread is in no timer's handler. -/
theorem Owing.spawn (owing : Owing events world) (code : Code γ) {after : World γ}
    (shape : after = ⟨world.chain, world.threads ++ [⟨.code code, []⟩]⟩)
    (books : after.ledger = world.ledger) : Owing events after := by
  subst shape
  refine ⟨books ▸ owing.run, books ▸ owing.announced, books ▸ owing.returned, ?_, ?_⟩
  · intro thread member above timer below stack entry found handling
    rw [books]
    rcases List.mem_append.mp member with old | new
    · exact owing.handling thread old above timer below stack entry found handling
    · obtain rfl := List.mem_singleton.mp new
      simp at stack
  · intro thread member timer waiting
    rcases List.mem_append.mp member with old | new
    · exact owing.dispatched thread old timer waiting
    · obtain rfl := List.mem_singleton.mp new
      simp at waiting

/-- A timer which expires is live only when its run is there and unfinished. -/
theorem Owing.expire (owing : Owing events world) {timer : TimerId} {entry : Timer}
    (found : world.chain.timers[timer]? = some entry) {after : World γ}
    (shape : after = ⟨world.chain.setTimerStatus timer
      (.expired (world.chain.unfinished entry.call)), world.threads⟩)
    (armed : entry.status = .armed) (books : after.ledger = world.ledger) :
    Owing events after := by
  have unfinished (up : (TimerStatus.expired (world.chain.unfinished entry.call)).live = true) :
      ∃ run, world.chain.run? entry.call = some run ∧ run.state.finished = false := by
    simp only [TimerStatus.live, Chain.unfinished] at up
    cases inside : world.chain.run? entry.call with
    | none => simp [inside] at up
    | some run => exact ⟨run, rfl, by simpa [inside] using up⟩
  refine owing.setStatus found _ (fun up => ?_) (fun up finished => ?_) (by simp) ?_ ?_ shape
    books
  · obtain ⟨run, inside, -⟩ := unfinished up
    exact ⟨run.view, World.ledger_runs inside⟩
  · obtain ⟨run, inside, down⟩ := unfinished up
    exact absurd finished (Ledger.not_finished (World.ledger_runs inside) down)
  · intro thread member above watched below stack changed later watching
    exact owing.still (by simp) member stack later watching
  · intro thread member watched waiting
    exact dispatched_setStatus found (by simp [armed, TimerStatus.dispatched])
      (owing.dispatched thread member watched waiting)

/-- A timer's handler which is called has the way to the end of the run ahead. -/
theorem Owing.dispatch (owing : Owing events world) {timer : TimerId} {entry : Timer} {live : Bool}
    (found : world.chain.timers[timer]? = some entry) (expired : entry.status = .expired live)
    {after : World γ}
    (shape : after = ⟨world.chain.setTimerStatus timer (.handling live),
      world.threads ++ [⟨.timerHandler timer, [.timerDone timer]⟩]⟩)
    (books : after.ledger = world.ledger) : Owing events after := by
  have alive (up : (TimerStatus.handling live).live = true) : entry.status.live = true := by
    rw [expired]
    exact up
  refine owing.setStatus found (.handling live) (fun up => owing.run timer entry found (alive up))
    (fun up => owing.announced timer entry found (alive up)) (by simp) ?_ ?_ shape books
  · intro thread member above watched below stack changed later watching
    rcases List.mem_append.mp member with old | new
    · rcases timers_setTimerStatus later with ⟨before, same, rfl, -⟩ | ⟨-, same⟩
      · -- no thread is in the handler of a timer before its dispatch
        obtain ⟨other, present, called⟩ := owing.dispatched thread old watched (by simp [stack])
        cases found.symm.trans present
        rw [expired] at called
        cases called
      · exact owing.handling thread old above watched below stack changed same watching
    · obtain rfl := List.mem_singleton.mp new
      cases above with
      | nil =>
          obtain ⟨same, -⟩ := List.cons.inj stack
          cases same
          exact .inr (.inl ⟨rfl, .inl rfl⟩)
      | cons frame rest => simp at stack
  · intro thread member watched waiting
    rcases List.mem_append.mp member with old | new
    · exact dispatched_setStatus found (fun _ => rfl)
        (owing.dispatched thread old watched waiting)
    · obtain rfl := List.mem_singleton.mp new
      obtain rfl : watched = timer := by simpa using waiting
      simp only [Chain.setTimerStatus, List.getElem?_modify, found]
      exact ⟨_, rfl, by simp [TimerStatus.dispatched]⟩

/-- A timer's handler which finds no state owes nothing: the chain holds every
unfinished run. -/
theorem Owing.lapse (owing : Owing events world)
    (run : (system program).Runs (System.Guard.of expiriesComplete) events world)
    {timer : TimerId} {entry : Timer} {live : Bool}
    (found : world.chain.timers[timer]? = some entry) (expired : entry.status = .expired live)
    (unregistered : entry.call ∉ world.chain.activeRuns) {after : World γ}
    (shape : after = ⟨world.chain.setTimerStatus timer (.returned live), world.threads⟩)
    (books : after.ledger = world.ledger) : Owing events after := by
  have alive (up : (TimerStatus.returned live).live = true) : entry.status.live = true := by
    rw [expired]
    exact up
  refine owing.setStatus found (.returned live) (fun up => owing.run timer entry found (alive up))
    (fun up => owing.announced timer entry found (alive up)) ?_ ?_ ?_ shape books
  · intro returned
    obtain rfl : live = true := by simpa using returned
    obtain ⟨view, present⟩ := owing.run timer entry found (alive rfl)
    refine ⟨view, present, ?_⟩
    cases up : view.finished with
    | true => rfl
    | false => exact absurd ((active_iff run).mpr (.inl ⟨view, present, up⟩)) unregistered
  · intro thread member above watched below stack changed later watching
    exact owing.still (by simp) member stack later watching
  · intro thread member watched waiting
    exact dispatched_setStatus found (fun _ => rfl)
      (owing.dispatched thread member watched waiting)

/-- A move of the environment keeps what the timers owe. -/
theorem Owing.environment {after : World γ} {choice : Choice γ} {event : Option Event}
    (run : (system program).Runs (System.Guard.of expiriesComplete) events world)
    (owing : Owing events world) (moved : step program world choice = some (event, after))
    (other : ∀ index, choice ≠ .thread index) : Owing (events ++ event.toList) after := by
  obtain ⟨rfl, books⟩ := step_environment program moved other
  rw [Option.toList_none, List.append_nil]
  cases choice with
  | thread index => exact absurd rfl (other index)
  | spawn code =>
      cases moved
      exact owing.spawn code rfl books
  | tick duration =>
      cases moved
      exact ⟨owing.run, owing.announced, owing.returned, owing.handling, owing.dispatched⟩
  | expire timer =>
      simp only [step] at moved
      split at moved
      · rename_i found
        split at moved
        · cases moved
          exact owing.expire found rfl rfl books
        · cases moved
      · cases moved
  | dispatch timer alive =>
      simp only [step] at moved
      split at moved
      · rename_i found
        split at moved
        · cases moved
          exact owing.dispatch found rfl rfl books
        · split at moved
          · cases moved
          · rename_i unregistered
            cases moved
            exact owing.lapse run found rfl unregistered rfl books
      · cases moved

/-- What the timers owe is kept along every run of the machine which the guard
lets through. -/
theorem run_owing {world : World γ}
    (run : (system program).Runs (System.Guard.of expiriesComplete) events world) :
    Owing events world := by
  refine run.invariant ?_ ?_
  · rintro world ⟨settings, stats, now, rfl⟩
    exact ⟨fun _ _ found => by simp [Chain.fresh] at found,
      fun _ _ found => by simp [Chain.fresh] at found,
      fun _ _ found => by simp [Chain.fresh] at found,
      fun _ member => by simp at member, fun _ member => by simp at member⟩
  · intro events world choice event after prior owing moved allowed
    by_cases own : ∃ index, choice = .thread index
    · obtain ⟨index, rfl⟩ := own
      obtain ⟨thread, move, present, advanced, rfl, shape⟩ := step_thread program moved
      by_cases leaves : thread.leavesTimer
      · exact owing.leave present leaves advanced moved shape
      · exact owing.inside prior present leaves advanced moved allowed shape
    · exact owing.environment prior moved (not_exists.mp own)

/-- **Expiries end runs** in every run of the machine, under every program and
interleaving, in which the handler of a live expiry marks or leaves an
unfinished run only as a global timer that finds it unmarked, and nothing else
finishes a run with another result between an expiry and the end of its
handler. -/
theorem expiries_end {world : World γ}
    (run : (system program).Runs (System.Guard.of expiriesComplete) events world) :
    ExpiriesEnd events world := by
  intro timer entry found returned
  have owing := run_owing run
  have finished := owing.returned timer entry found returned
  have live : entry.status.live = true := by simp [returned, TimerStatus.live]
  refine ⟨(finished_iff world entry.call).mp finished, fun settled => ⟨?_, ?_⟩⟩
  · intro active
    exact settled (finishing_of_active run finished active)
  · intro callback given
    obtain ⟨message, announced⟩ := owing.announced timer entry found live finished callback given
    exact ⟨message, (run_invokes run announced).resolve_left settled⟩

end Moves

/-- The event loop runs the first timer's handler to its end. -/
def fire (moves : Nat) : List (Choice γ) :=
  [.tick 10, .expire 0, .dispatch 0 true] ++ List.replicate moves (.thread 1)

/-- A middleware that never signals under a global timeout: its expiry ends the run. -/
theorem expiries_end_global :
    ∃ reached, replay (Program.overriding fun _ _ => .ret true)
        (System.Guard.of expiriesComplete) { Settings.plain [0] with globalTimeout := 10 }
        (alone (.request ()) 9 ++ fire 8) = some reached ∧
      reached.2.chain.timers.map Timer.status = [.returned true] ∧
      ExpiriesEnd reached.1 reached.2 :=
  replay_reaches rfl fun run => ⟨rfl, expiries_end run⟩

/-- The same middleware under a timeout of its own: the handler returns and the
run goes on for ever. -/
theorem middleware_expiry_leaves_run :
    ∃ reached, replay { (Program.overriding fun _ _ => .ret true) with timeout := fun _ => 10 }
        System.anyMove (.plain [0]) (alone (.request ()) 9 ++ fire 3) = some reached ∧
      reached.2.chain.timers.map Timer.status = [.returned true] ∧
      ¬ ExpiriesEnd reached.1 reached.2 := by
  refine ⟨_, rfl, rfl, fun ends => ?_⟩
  obtain ⟨⟨run, found, up⟩, -⟩ := ends 0 _ rfl rfl
  cases found
  cases up

end Foxhttp.Middleware
