import Foxhttp.Middleware.Exceptions
import Foxhttp.Middleware.Moves

/-!
# Leaving `execute` and `execute_async` by an exception

`execute` and the `catch (...)` of `execute_async` finish their run before they
let an exception go. The other `catch` of `execute_async` calls the error handler
first, and an exception out of the handler leaves with the run unfinished. What
a thread is inside of is read off its history: a call of `execute` or
`execute_async` lasts from the move which registers its run to the first return
or throw at the height of the stack below it.
-/

namespace Foxhttp.Middleware

open Foxhttp.Library

variable {γ : Type}

/-- Control is on its way down the stack. -/
def Control.settled : Control γ → Bool
  | .returned _ => true
  | .thrown _ => true
  | _ => false

/-- What a move makes of the calls a thread is inside of. -/
def insideAfter (index : Nat) (inside : List (CallId × Nat)) (moved : ChainMove γ) :
    List (CallId × Nat) :=
  match moved.choice with
  | .thread other =>
      if other = index then
        match moved.after.threads[index]? with
        | none => inside
        | some thread =>
            let inside := match moved.event with
              | some (.registered call _ _) => (call, thread.stack.length - 1) :: inside
              | _ => inside
            if thread.control.settled then
              inside.filter fun entry => decide (entry.2 < thread.stack.length)
            else inside
      else inside
  | _ => inside

/-- The calls of `execute` and `execute_async` which a thread is inside of, each
with the height of the stack below it. -/
def insideOf (index : Nat) (history : List (ChainMove γ)) : List (CallId × Nat) :=
  history.foldl (insideAfter index) []

/-- The run of a call is over: its flag is up, and unless some other thread is
inside `try_finish_run` with it, it is unregistered and the completion callback
of an asynchronous one was invoked. -/
def RunOver (history : List (ChainMove γ)) (world : World γ) (call : CallId) : Prop :=
  ∃ run, world.chain.run? call = some run ∧ run.state.finished = true ∧
    (¬ world.Finishing call →
      call ∉ world.chain.activeRuns ∧
      (run.mode = .async → ∀ callback, world.chain.callback? call = some callback →
        ∃ taken ∈ history, ∃ arguments,
          taken.event = some (.unregistered call (some arguments))))

/-- When an exception takes control out of a call, its run is over. -/
def LeavesNoRun (history : List (ChainMove γ)) : Prop :=
  ∀ before moved later, history = before ++ moved :: later →
    ∀ index thread e, moved.choice = .thread index → moved.after.threads[index]? = some thread →
      thread.control = .thrown e → ∀ call height, (call, height) ∈ insideOf index before →
        thread.stack.length ≤ height → RunOver (before ++ [moved]) moved.after call

/-- The call whose own `catch` has called the error handler which throws. -/
def Thread.catchThrows (inside : List (CallId × Nat)) (thread : Thread γ) : Option CallId :=
  match thread.control, thread.stack with
  | .thrown _, .errorHandled call _ :: below =>
      if (call, below.length) ∈ inside then some call else none
  | _, _ => none

/-- No error handler which the `catch` of `execute_async` itself has called
throws while the run is unfinished. -/
def handlersReturn (history : List (ChainMove γ)) (world : World γ) :
    Option (ChainMove γ) → Bool
  | none => true
  | some moved =>
      match moved.choice with
      | .thread index => (world.threads[index]?).all fun thread =>
          (thread.catchThrows (insideOf index history)).all fun call =>
            !world.chain.unfinished call
      | _ => true

/-! ## One activation -/

/-- An activation which finishes its run on every way out, or is about to. -/
def Frame.finishes (call : CallId) : Frame γ → Bool
  | .executeAsyncTry other => other == call
  | .executeTry other => other == call
  | .errorHandled other _ => other == call
  | _ => false

/-- What lies between a call and the end of its run. -/
def Ahead (call : CallId) (control : Control γ) (above : List (Frame γ)) : Prop :=
  (∃ front frame, above = front ++ [frame] ∧ frame.finishes call = true) ∨
    above = [] ∧ ((∃ e, control = .handleError call e) ∨
      ∃ message, control = .completeRun call .Error message)

/-- The thread is inside the call, and the run is over or its end lies ahead. -/
def Activated (ledger : Ledger) (call : CallId) (height : Nat) (thread : Thread γ) : Prop :=
  ∃ above base, thread.stack = above ++ base ∧ base.length = height ∧
    (thread.control.settled = true → above ≠ []) ∧
    (ledger.Finished call ∨ Ahead call thread.control above)

/-- The thread has left the call, by an exception only with the run over. -/
def Left (ledger : Ledger) (call : CallId) (height : Nat) (thread : Thread γ) : Prop :=
  thread.control.settled = true ∧ thread.stack.length ≤ height ∧
    ∀ e, thread.control = .thrown e → ledger.Finished call

theorem Control.settled_cases {control : Control γ} (settled : control.settled = true) :
    (∃ verdict, control = .returned verdict) ∨ ∃ e, control = .thrown e := by
  cases control with
  | returned verdict => exact .inl ⟨verdict, rfl⟩
  | thrown e => exact .inr ⟨e, rfl⟩
  | _ => cases settled

theorem Thread.base_of_settled {thread : Thread γ} (settled : thread.control.settled = true) :
    thread.base = thread.stack.tail := by
  obtain ⟨control, stack⟩ := thread
  cases control with
  | returned _ | thrown _ => rfl
  | _ => cases settled

theorem Thread.base_of_unsettled {thread : Thread γ} (settled : thread.control.settled = false) :
    thread.base = thread.stack := by
  obtain ⟨control, stack⟩ := thread
  cases control with
  | returned _ | thrown _ => cases settled
  | _ => rfl

/-- A move pushes activations on what it keeps of the stack. -/
theorem advance_pushes {program : Program γ} {chain : Chain γ} {thread : Thread γ}
    {move : Move γ} (advanced : advance program chain thread = some move) :
    ∃ pushed, move.thread.stack = pushed ++ thread.base := by
  by_cases leaves : thread.leavesTimer
  · obtain ⟨timer, below, shape, settled⟩ := leaves
    obtain ⟨control, stack⟩ := thread
    obtain rfl : stack = .timerDone timer :: below := shape
    obtain ⟨-, -, -, -, -, same, -⟩ := advance_leavesTimer settled advanced
    refine ⟨[], ?_⟩
    rw [same]
    rcases settled with ⟨verdict, rfl⟩ | ⟨e, rfl⟩ <;> rfl
  · obtain ⟨-, pushed, shape, -⟩ := advance_framed advanced leaves
    exact ⟨pushed, shape⟩

/-- A move of a thread inside a call keeps the stack below the call, and the last
activation above it unless it leaves that one. -/
theorem advance_above {program : Program γ} {chain : Chain γ} {thread : Thread γ} {move : Move γ}
    (advanced : advance program chain thread = some move) {above base : List (Frame γ)}
    (shape : thread.stack = above ++ base)
    (lively : thread.control.settled = true → above ≠ []) :
    ∃ upper, move.thread.stack = upper ++ base ∧
      ∀ front frame, above = front ++ [frame] →
        (thread.control.settled = true ∧ above = [frame]) ∨
          ∃ rest, upper = rest ++ [frame] := by
  obtain ⟨pushed, pushes⟩ := advance_pushes advanced
  cases settled : thread.control.settled with
  | false =>
      rw [Thread.base_of_unsettled settled, shape] at pushes
      refine ⟨pushed ++ above, by rw [pushes, List.append_assoc], fun front frame last => ?_⟩
      exact .inr ⟨pushed ++ front, by rw [last, List.append_assoc]⟩
  | true =>
      rw [Thread.base_of_settled settled, shape] at pushes
      cases above with
      | nil => exact absurd rfl (lively settled)
      | cons top rest =>
          refine ⟨pushed ++ rest, by simpa using pushes, fun front frame last => ?_⟩
          rcases last_of_cons last with ⟨rfl, rfl⟩ | ⟨inner, rfl⟩
          · exact .inl ⟨rfl, rfl⟩
          · exact .inr ⟨pushed ++ inner, by rw [List.append_assoc]⟩

theorem Ahead.lively {call : CallId} {control : Control γ} {above : List (Frame γ)}
    (ahead : Ahead call control above) (settled : control.settled = true) : above ≠ [] := by
  rcases ahead with ⟨front, frame, rfl, -⟩ | ⟨-, ⟨e, rfl⟩ | ⟨message, rfl⟩⟩
  · simp
  · cases settled
  · cases settled

theorem Ahead.activated {ledger : Ledger} {call : CallId} {thread : Thread γ}
    {above base : List (Frame γ)} (ahead : Ahead call thread.control above)
    (shape : thread.stack = above ++ base) : Activated ledger call base.length thread :=
  ⟨above, base, shape, rfl, ahead.lively, .inr ahead⟩

/-- With its run over, a thread is inside a call or has left it. -/
theorem activated_or_left {ledger : Ledger} {call : CallId} (finished : ledger.Finished call)
    {thread : Thread γ} {above base : List (Frame γ)} (shape : thread.stack = above ++ base) :
    Activated ledger call base.length thread ∨ Left ledger call base.length thread := by
  by_cases out : thread.control.settled = true ∧ above = []
  · refine .inr ⟨out.1, ?_, fun _ _ => finished⟩
    rw [shape, out.2]
    exact Nat.le_refl _
  · exact .inl ⟨above, base, shape, rfl, fun settled empty => out ⟨settled, empty⟩, .inl finished⟩

section Step

variable {program : Program γ} {chain : Chain γ} {call : CallId} {control : Control γ}
  {front base : List (Frame γ)} {frame : Frame γ} {move : Move γ}

theorem leaveRun_chain (chain : Chain γ) (call : CallId) (rest : Code γ)
    (stack : List (Frame γ)) :
    (leaveRun chain call rest stack).chain = (chain.tryFinishRun call).2 := by
  unfold leaveRun
  split <;> rename_i outcome <;> rw [outcome]

theorem catchUnknown_chain (chain : Chain γ) (call : CallId) (e : Exn)
    (stack : List (Frame γ)) :
    (catchUnknown program chain call e stack).chain = (chain.tryFinishRun call).2 := by
  unfold catchUnknown
  split
  · exact leaveRun_chain chain call _ _
  · split <;> rename_i outcome <;> rw [outcome]

/-- From the last activation of a call control goes on to the end of its run, or
leaves. -/
theorem finishes_step (finishes : frame.finishes call = true)
    (settled : control.settled = true)
    (advanced : advance program chain ⟨control, frame :: base⟩ = some move)
    (handled : ∀ e raised, control = .thrown e → frame ≠ .errorHandled call raised) :
    move.chain = (chain.tryFinishRun call).2 ∨
      move.thread.stack = base ∧ (Ahead call move.thread.control [] ∨
        ∃ verdict, move.thread.control = .returned verdict) := by
  rcases Control.settled_cases settled with ⟨verdict, rfl⟩ | ⟨e, rfl⟩
  · cases frame with
    | executeAsyncTry other =>
        cases advanced
        exact .inr ⟨rfl, .inr ⟨false, rfl⟩⟩
    | executeTry other =>
        obtain rfl : other = call := eq_of_beq finishes
        cases advanced
        exact .inl (leaveRun_chain chain other _ _)
    | errorHandled other e =>
        obtain rfl : other = call := eq_of_beq finishes
        cases advanced
        exact .inr ⟨rfl, .inl (.inr ⟨rfl, .inr ⟨e.message, rfl⟩⟩)⟩
    | _ => cases finishes
  · cases frame with
    | executeAsyncTry other =>
        obtain rfl : other = call := eq_of_beq finishes
        simp only [advance, unwind] at advanced
        split at advanced
        · cases advanced
          exact .inr ⟨rfl, .inl (.inr ⟨rfl, .inl ⟨e, rfl⟩⟩)⟩
        · cases advanced
          exact .inl (catchUnknown_chain chain other e base)
    | executeTry other =>
        obtain rfl : other = call := eq_of_beq finishes
        cases advanced
        exact .inl (leaveRun_chain chain other _ _)
    | errorHandled other raised =>
        obtain rfl : other = call := eq_of_beq finishes
        exact absurd rfl (handled e raised rfl)
    | _ => cases finishes

/-- With no activation left, the error handler is called or the run is finished. -/
theorem ahead_step (ahead : Ahead call control ([] : List (Frame γ)))
    (advanced : advance program chain ⟨control, base⟩ = some move) :
    move.chain = (chain.tryFinishRun call).2 ∨
      ∃ above, move.thread.stack = above ++ base ∧ Ahead call move.thread.control above := by
  rcases ahead with ⟨front, frame, shape, -⟩ | ⟨-, ⟨e, rfl⟩ | ⟨message, rfl⟩⟩
  · simp at shape
  · obtain ⟨run, -, rfl⟩ := Option.map_eq_some_iff.mp advanced
    unfold handleErrorRun
    split
    · exact .inr ⟨[.errorHandled call e], rfl, .inl ⟨[], _, rfl, beq_self_eq_true call⟩⟩
    · exact .inr ⟨[], rfl, .inr ⟨rfl, .inr ⟨_, rfl⟩⟩⟩
  · cases advanced
    exact .inl (completeAsyncRun_chain chain call _ _ _)

end Step

/-! ## Along a run -/

section Run

variable {program : Program γ} {guard : System.Guard (World γ) Event} {events : List Event}
  {world : World γ} {index : Nat} {thread : Thread γ} {move : Move γ} {call : CallId}

/-- A thread inside a call stays inside, or leaves it with its run over. -/
theorem activated_step (prior : (system program).Runs guard events world)
    (moved : step program world (.thread index) =
      some (move.event, ⟨move.chain, world.threads.set index move.thread⟩))
    (advanced : advance program world.chain thread = some move)
    {view : RunView} (known : world.ledger.runs call = some view) {height : Nat}
    (handled : ∀ e raised below, thread = ⟨.thrown e, .errorHandled call raised :: below⟩ →
      below.length = height → world.ledger.Finished call)
    (activated : Activated world.ledger call height thread) :
    Activated (World.ledger ⟨move.chain, world.threads.set index move.thread⟩) call height
        move.thread ∨
      Left (World.ledger ⟨move.chain, world.threads.set index move.thread⟩) call height
        move.thread := by
  obtain ⟨above, base, shape, rfl, lively, ends⟩ := activated
  obtain ⟨upper, next, lasts⟩ := advance_above advanced shape lively
  have isOver : World.ledger ⟨move.chain, world.threads.set index move.thread⟩ |>.Finished call →
      _ := fun finished => activated_or_left finished next
  have over_of_finish : move.chain = (world.chain.tryFinishRun call).2 →
      (World.ledger ⟨move.chain, world.threads.set index move.thread⟩).Finished call := by
    intro same
    obtain ⟨run, inside, -⟩ := Option.map_eq_some_iff.mp known
    obtain ⟨ended, present, up⟩ := Chain.finished_tryFinishRun inside
    exact (finished_iff _ call).mpr ⟨ended, by rw [same]; exact present, up⟩
  rcases ends with finished | ahead
  · exact isOver (step_finished prior moved finished)
  · obtain ⟨control, stack⟩ := thread
    obtain rfl : stack = above ++ base := shape
    rcases ahead with ⟨front, frame, last, finishes⟩ | ⟨rfl, goesOn⟩
    · rcases lasts front frame last with ⟨settled, rfl⟩ | ⟨rest, rfl⟩
      · by_cases throws : ∃ e raised, control = .thrown e ∧ frame = .errorHandled call raised
        · obtain ⟨e, raised, rfl, rfl⟩ := throws
          exact isOver (step_finished prior moved (handled e raised base rfl rfl))
        · have returns : ∀ e raised, control = .thrown e → frame ≠ .errorHandled call raised :=
            fun e raised isThrown same => throws ⟨e, raised, isThrown, same⟩
          rcases finishes_step finishes settled advanced returns with
            same | ⟨same, ahead | ⟨verdict, left⟩⟩
          · exact isOver (over_of_finish same)
          · exact .inl (ahead.activated same)
          · refine .inr ⟨by rw [left]; rfl, by rw [same]; exact Nat.le_refl _,
              fun e isThrown => ?_⟩
            rw [left] at isThrown
            cases isThrown
      · have ahead : Ahead call move.thread.control (rest ++ [frame]) :=
          .inl ⟨rest, frame, rfl, finishes⟩
        exact .inl (ahead.activated next)
    · rcases ahead_step (.inr ⟨rfl, goesOn⟩) advanced with same | ⟨lies, same, ahead⟩
      · exact isOver (over_of_finish same)
      · exact .inl (ahead.activated same)

/-- Where the calls a thread is inside of come from. -/
theorem mem_insideAfter {index : Nat} {inside : List (CallId × Nat)} {taken : ChainMove γ}
    {entry : CallId × Nat} (member : entry ∈ insideAfter index inside taken) :
    (entry ∈ inside ∧ ∀ thread, taken.choice = .thread index →
        taken.after.threads[index]? = some thread → thread.control.settled = true →
        entry.2 < thread.stack.length) ∨
      ∃ call mode size thread, entry = (call, thread.stack.length - 1) ∧
        taken.choice = .thread index ∧ taken.after.threads[index]? = some thread ∧
        taken.event = some (.registered call mode size) := by
  unfold insideAfter at member
  split at member
  · rename_i other isThread
    split at member
    · rename_i same
      subst same
      split at member
      · rename_i absent
        exact .inl ⟨member, fun thread _ found => by rw [absent] at found; cases found⟩
      · rename_i thread found
        have added : entry ∈ (match taken.event with
            | some (.registered call _ _) => (call, thread.stack.length - 1) :: inside
            | _ => inside) ∧
            (thread.control.settled = true → entry.2 < thread.stack.length) := by
          simp only at member
          split at member
          · exact ⟨(List.mem_filter.mp member).1, fun _ =>
              of_decide_eq_true (List.mem_filter.mp member).2⟩
          · rename_i unsettled
            exact ⟨member, fun settled => absurd settled unsettled⟩
        obtain ⟨added, above⟩ := added
        have still : ∀ again, taken.choice = .thread other →
            taken.after.threads[other]? = some again → again.control.settled = true →
            entry.2 < again.stack.length := by
          intro again _ present settled
          cases found.symm.trans present
          exact above settled
        split at added
        · rename_i call mode size entered
          rcases List.mem_cons.mp added with rfl | old
          · exact .inr ⟨call, mode, size, thread, rfl, isThread, found, entered⟩
          · exact .inl ⟨old, still⟩
        · exact .inl ⟨added, still⟩
    · rename_i different
      refine .inl ⟨member, fun thread isIndex => ?_⟩
      rw [isThread] at isIndex
      cases isIndex
      exact absurd rfl different
  · rename_i notThread
    exact .inl ⟨member, fun thread isIndex => absurd isIndex (notThread index)⟩

/-- Every call which a thread is inside of is over or has its end ahead. -/
def Occupied (history : List (ChainMove γ)) (world : World γ) : Prop :=
  ∀ index, ∀ entry ∈ insideOf index history,
    (∃ view, world.ledger.runs entry.1 = some view) ∧
      ∃ thread, world.threads[index]? = some thread ∧
        Activated world.ledger entry.1 entry.2 thread

/-- What the guard says of a thread's move. -/
theorem handled_of_guard {history : List (ChainMove γ)} {taken : ChainMove γ}
    (allowed : handlersReturn history world (some taken) = true)
    (isThread : taken.choice = .thread index) (found : world.threads[index]? = some thread)
    {height : Nat} (inside : (call, height) ∈ insideOf index history)
    {view : RunView} (known : world.ledger.runs call = some view) :
    ∀ e raised below, thread = ⟨.thrown e, .errorHandled call raised :: below⟩ →
      below.length = height → world.ledger.Finished call := by
  rintro e raised below rfl rfl
  have finished : world.chain.unfinished call = false := by
    simpa [handlersReturn, isThread, found, Thread.catchThrows, inside] using allowed
  exact finished_of_not_unfinished known finished

/-- A thread which no move of its own has touched is where it was. -/
theorem Activated.kept {after : World γ} (prior : (system program).Runs guard events world)
    {choice : Choice γ} {event : Option Event}
    (moved : step program world choice = some (event, after)) {height : Nat}
    (activated : Activated world.ledger call height thread) :
    Activated after.ledger call height thread := by
  obtain ⟨above, base, shape, isHeight, lively, ends⟩ := activated
  exact ⟨above, base, shape, isHeight, lively, ends.imp_left (step_finished prior moved)⟩

/-- The move which registers a run enters its call. -/
theorem registered_activated (traced : Traced program world.chain thread move)
    {mode : Mode} {size : Nat} (entered : move.event = some (.registered call mode size))
    (ledger : Ledger) : Activated ledger call (move.thread.stack.length - 1) move.thread := by
  have origin := traced.origin _ entered
  have pushed : ∃ frame, frame ∈ move.thread.stack.head? ∧ frame.finishes call = true := by
    cases mode with
    | sync => exact ⟨_, origin.2, beq_self_eq_true call⟩
    | async => exact ⟨_, origin.2, beq_self_eq_true call⟩
  obtain ⟨frame, top, finishes⟩ := pushed
  obtain ⟨base, shape⟩ := List.head?_eq_some_iff.mp top
  have ahead : Ahead call move.thread.control [frame] := .inl ⟨[], frame, rfl, finishes⟩
  rw [shape]
  exact ahead.activated shape

theorem insideOf_snoc (index : Nat) (history : List (ChainMove γ)) (taken : ChainMove γ) :
    insideOf index (history ++ [taken]) = insideAfter index (insideOf index history) taken := by
  rw [insideOf, List.foldl_append]
  rfl

theorem Occupied.step {history : List (ChainMove γ)} {after : World γ} {choice : Choice γ}
    {event : Option Event} (occupied : Occupied history world)
    (prior : (system program).Runs guard events world)
    (moved : step program world choice = some (event, after))
    (allowed : handlersReturn history world (some ⟨world, choice, event, after⟩) = true) :
    Occupied (history ++ [⟨world, choice, event, after⟩]) after := by
  intro index entry member
  rw [insideOf_snoc] at member
  rcases mem_insideAfter member with ⟨inside, above⟩ |
    ⟨call, mode, size, thread, rfl, isThread, found, entered⟩
  · obtain ⟨⟨view, known⟩, thread, found, activated⟩ := occupied index entry inside
    obtain ⟨next, present, -⟩ := step_grows prior moved known
    refine ⟨⟨next, present⟩, ?_⟩
    by_cases own : choice = .thread index
    · subst own
      obtain ⟨same, move, isMover, advanced, rfl, rfl⟩ := step_thread program moved
      obtain rfl : same = thread := Option.some.inj (isMover.symm.trans found)
      have within := (List.getElem?_eq_some_iff.mp found).1
      have place : (world.threads.set index move.thread)[index]? = some move.thread :=
        List.getElem?_set_self within
      refine ⟨move.thread, place, ?_⟩
      rcases activated_step prior moved advanced known
          (handled_of_guard allowed rfl found inside known) activated with still | ⟨out, low, -⟩
      · exact still
      · have high := above move.thread rfl place out
        omega
    · exact ⟨thread, step_other moved found own, activated.kept prior moved⟩
  · obtain rfl : choice = .thread index := isThread
    obtain rfl : event = some (.registered call mode size) := entered
    refine ⟨⟨.entered mode size, step_registers moved⟩, thread, found, ?_⟩
    obtain ⟨mover, move, isMover, advanced, reported, rfl⟩ := step_thread program moved
    have within := (List.getElem?_eq_some_iff.mp isMover).1
    obtain rfl : move.thread = thread :=
      Option.some.inj ((List.getElem?_set_self within).symm.trans found)
    exact registered_activated (advance_traced advanced) reported.symm _

/-! ## The completion of a finished run -/

/-- A move leaves the completion callback of a run. -/
theorem step_callback (prior : (system program).Runs guard events world) {after : World γ}
    {choice : Choice γ} {event : Option Event}
    (moved : step program world choice = some (event, after)) {view : RunView}
    (known : world.ledger.runs call = some view) :
    after.chain.callback? call = world.chain.callback? call := by
  by_cases own : ∃ index, choice = .thread index
  · obtain ⟨index, rfl⟩ := own
    obtain ⟨thread, move, -, advanced, -, rfl⟩ := step_thread program moved
    by_cases leaves : thread.leavesTimer
    · obtain ⟨timer, below, shape, settled⟩ := leaves
      obtain ⟨control, stack⟩ := thread
      obtain rfl : stack = .timerDone timer :: below := shape
      obtain ⟨-, live, -, -, -, -, ⟨same, -⟩ | same⟩ := advance_leavesTimer settled advanced <;>
        rw [Chain.callback?, Chain.callback?, same] <;> rfl
    · exact kept_callback prior (advance_framed advanced leaves).kept known
  · obtain ⟨-, calls, -⟩ := environment_moves moved (not_exists.mp own)
    rw [Chain.callback?, Chain.callback?, calls]

/-- Every finished asynchronous run with a completion callback was finished for it. -/
def Heard (history : List (ChainMove γ)) (world : World γ) : Prop :=
  ∀ call view, world.ledger.runs call = some view → view.mode = .async →
    view.finished = true → ∀ callback, world.chain.callback? call = some callback →
      ∃ taken ∈ history, ∃ arguments, taken.event = some (.finished call (some arguments))

theorem Heard.step {history : List (ChainMove γ)} {after : World γ} {choice : Choice γ}
    {event : Option Event} (heard : Heard history world)
    (prior : (system program).Runs guard events world)
    (moved : step program world choice = some (event, after)) :
    Heard (history ++ [⟨world, choice, event, after⟩]) after := by
  intro call view found async up callback given
  rcases step_finishes moved ⟨view, found, up⟩ with ⟨before, known, done⟩ | ⟨completion, rfl⟩
  · obtain ⟨next, present, grows⟩ := step_grows prior moved known
    cases found.symm.trans present
    rw [step_callback prior moved known] at given
    obtain ⟨taken, member, invoked⟩ :=
      heard call before known (grows.mode.symm.trans async) done callback given
    exact ⟨taken, List.mem_append_left _ member, invoked⟩
  · cases completion with
    | some arguments =>
        exact ⟨_, List.mem_append_right _ List.mem_cons_self, arguments, rfl⟩
    | none =>
        exfalso
        have transition : (system program).step world choice =
            some (some (.finished call none), after) := moved
        obtain ⟨⟨before, known, -⟩, -⟩ := (refines program).event transition
        obtain ⟨next, present, grows⟩ := step_grows prior moved known
        cases found.symm.trans present
        rw [step_callback prior moved known] at given
        obtain ⟨index, thread, move, rfl, isMover, advanced, reported, -⟩ :=
          step_reports program moved
        have unheard : world.chain.callback? call = none ∨ .executeTry call ∈ thread.stack :=
          (advance_traced advanced).origin _ reported
        rcases unheard with silent | tries
        · rw [silent] at given
          cases given
        · obtain ⟨other, same, sync⟩ := run_driven prior thread (List.mem_of_getElem? isMover)
            (call, .sync) (.frame tries rfl)
          cases known.symm.trans same
          rw [grows.mode, sync] at async
          cases async

end Run

variable {program : Program γ} {history : List (ChainMove γ)} {world : World γ}

theorem run_occupied
    (run : (system program).recorded.Runs (System.Guard.of handlersReturn) history world) :
    Occupied history world ∧ Heard history world := by
  induction run with
  | initial valid =>
      obtain ⟨settings, stats, now, rfl⟩ := valid
      refine ⟨fun _ _ member => ?_, fun call view found => ?_⟩
      · cases member
      · simp [World.ledger, Chain.ledger, Chain.run?, Chain.fresh] at found
  | move prior transition allowed inductionHypothesis =>
      obtain ⟨occupied, heard⟩ := inductionHypothesis
      obtain ⟨event, moved, rfl⟩ := System.recorded_step transition
      obtain ⟨events, run⟩ := prior.unrecorded
      exact ⟨occupied.step run moved allowed, heard.step run moved⟩

/-- **Leaving by an exception leaves no run behind** in every run of the machine,
under every program and interleaving, in which no error handler that the `catch`
of `execute_async` itself has called throws while its run is unfinished. -/
theorem leaves_no_run
    (run : (system program).recorded.Runs (System.Guard.of handlersReturn) history world) :
    LeavesNoRun history := by
  rintro before taken later rfl index thread e isThread found throws call height inside low
  obtain ⟨middle, choice, next, prior, transition, allowed⟩ := run.split
  obtain ⟨event, moved, same⟩ := System.recorded_step transition
  cases same
  obtain rfl : choice = .thread index := isThread
  have did : step program middle (.thread index) = some (event, next) := moved
  obtain ⟨occupied, heard⟩ := run_occupied prior
  obtain ⟨events, unrecorded⟩ := prior.unrecorded
  obtain ⟨⟨view, known⟩, mover, isMover, activated⟩ := occupied index (call, height) inside
  obtain ⟨other, move, isOther, advanced, rfl, rfl⟩ := step_thread program did
  obtain rfl : other = mover := Option.some.inj (isOther.symm.trans isMover)
  have within := (List.getElem?_eq_some_iff.mp isMover).1
  obtain rfl : move.thread = thread :=
    Option.some.inj ((List.getElem?_set_self within).symm.trans found)
  -- the thread has left the call, so its run is over
  have finished : (World.ledger ⟨move.chain, middle.threads.set index move.thread⟩).Finished
      call := by
    rcases activated_step unrecorded did advanced known
        (handled_of_guard allowed rfl isMover inside known) activated with still | ⟨-, -, isOver⟩
    · obtain ⟨above, base, shape, isHeight, lively, -⟩ := still
      refine absurd ?_ (lively (by rw [throws]; rfl))
      rw [shape, List.length_append, isHeight] at low
      exact List.eq_nil_of_length_eq_zero (by omega)
    · exact isOver e throws
  have after := (prior.move transition allowed).reported
  obtain ⟨run, present, up⟩ := (finished_iff _ call).mp finished
  refine ⟨run, present, up, fun settled => ⟨fun active => ?_, fun async callback given => ?_⟩⟩
  · exact settled (finishing_of_active after finished active)
  · obtain ⟨taken, member, arguments, ends⟩ := heard.step unrecorded did call run.view
      (World.ledger_runs present) async up callback given
    have announced := List.mem_filterMap.mpr ⟨taken, member, ends⟩
    have invoked := (run_invokes after announced).resolve_left settled
    obtain ⟨invoking, inside, same⟩ := List.mem_filterMap.mp invoked
    exact ⟨invoking, inside, arguments, same⟩

/-- A body which throws something that is no `std::exception`. -/
theorem leaves_no_run_foreign :
    ∃ reached : List (ChainMove Unit) × World Unit,
      (system (Program.overriding fun _ _ => .throw .foreign)).recorded.follow
          (System.Guard.of handlersReturn) []
          ⟨.fresh (Settings.plain [0]) (fun _ => ⟨0, 0, 0, 0⟩) 0, []⟩
          (alone (.request ()) 12) = some reached ∧
        insideOf 0 reached.1 = [] ∧
        (reached.2.threads.map fun thread => thread.control.settled) = [true] ∧
        LeavesNoRun reached.1 := by
  have start : (system (Program.overriding fun _ _ => .throw .foreign)).recorded.Runs
      (System.Guard.of handlersReturn) ([] : List (ChainMove Unit))
      ⟨.fresh (Settings.plain [0]) (fun _ => ⟨0, 0, 0, 0⟩) 0, []⟩ :=
    .initial ⟨_, _, _, rfl⟩
  exact start.reaches rfl fun run => ⟨rfl, rfl, leaves_no_run run⟩

/-- An error handler which throws. -/
def Program.mishandling : Program γ :=
  { Program.overriding fun _ _ => .throw (.std "boom") with
    errorHandler := fun _ _ _ => .throw (.std "handler") }

/-- The exception out of the error handler leaves the run behind. -/
theorem handler_leaves_run :
    ∃ reached : List (ChainMove Unit) × World Unit,
      (system Program.mishandling).recorded.follow System.anyMove []
          ⟨.fresh { Settings.plain [0] with errorHandler := some 0 } (fun _ => ⟨0, 0, 0, 0⟩) 0, []⟩
          (alone (.request ()) 13) = some reached ∧
        ¬ LeavesNoRun reached.1 := by
  refine ⟨_, rfl, fun leaves => ?_⟩
  obtain ⟨run, found, up, -⟩ := leaves _ _ [] rfl 0 _ (.std "handler") rfl rfl rfl 0 1 (by decide)
    (by decide)
  cases found
  cases up

end Foxhttp.Middleware
