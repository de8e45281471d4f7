import Foxhttp.Middleware.Moves
import Foxhttp.Middleware.Registry

/-!
# What the chain does after a completion

The handlers of the timers, the step which finds its run overdue and the
`catch` clauses answer a request without looking at `finished`. A handler which
was queued when its timer was cancelled, a late `next` and an exception out of a
body which has signalled therefore answer once more. The chain keeps its hands
off exactly as far as none of these happens to a completed run, and none is
under way when the run is completed.
-/

namespace Foxhttp.Middleware

open Foxhttp.Library

variable {γ : Type}

/-- After the completion callback of a call the chain neither calls its timeout
handler nor writes its context or response. -/
def HandsOff (events : List Event) : Prop :=
  ∀ before call event after, events = before ++ event :: after →
    event = .timeoutHandled call ∨ event = .responded call →
    ∀ arguments, .unregistered call (some arguments) ∉ before

/-- The completion callback of the run was invoked. -/
def completed (events : List Event) (call : CallId) : Bool :=
  events.any fun
    | .unregistered other (some _) => other == call
    | _ => false

/-- A run without an error handler is given a default answer to an exception. -/
def Chain.answersItself (chain : Chain γ) (call : CallId) : Bool :=
  (chain.run? call).any fun run => run.errorHandler.isNone

/-- The thread is about to answer the call: between the mark of a timeout and its
answer, or between an exception and the default answer to it. -/
def Thread.willAnswer (chain : Chain γ) (call : CallId) (thread : Thread γ) : Bool :=
  match thread.control with
  | .handleTimeout other => other == call
  | .answerTimeout other => other == call
  | .handleError other _ => other == call && chain.answersItself call
  | _ => false

/-- No timeout is found on a completed run, no run is completed while a thread is
about to answer it, and no `std::exception` is caught for a completed run without
an error handler. -/
def answersFirst (events : List Event) (world : World γ) (event : Option Event) : Bool :=
  (match event with
    | some (.timedOut call _) => !completed events call
    | some (.unregistered call (some _)) =>
        world.threads.all fun thread => !thread.willAnswer world.chain call
    | _ => true) &&
  world.threads.all fun thread => (thread.reaching Frame.caught?).all fun raised =>
    !(completed events raised.1 && world.chain.answersItself raised.1)

/-! ## Along a run -/

theorem completed_iff {events : List Event} {call : CallId} :
    completed events call = true ↔ ∃ arguments, .unregistered call (some arguments) ∈ events := by
  rw [completed, List.any_eq_true]
  constructor
  · rintro ⟨event, member, completes⟩
    cases event with
    | unregistered other completion =>
        cases completion with
        | none => cases completes
        | some arguments =>
            obtain rfl : other = call := by simpa using completes
            exact ⟨arguments, member⟩
    | _ => cases completes
  · rintro ⟨arguments, member⟩
    exact ⟨_, member, beq_self_eq_true call⟩

theorem completed_append {events more : List Event} {call : CallId} :
    completed (events ++ more) call = (completed events call || completed more call) :=
  List.any_append

/-- What is due is about to be answered, or on its way to a `catch`. -/
theorem due_cases {thread : Thread γ} {call : CallId} {e : Exn}
    (due : thread.due = some (call, e)) :
    thread.control = .handleError call e ∨ thread.reaching Frame.caught? = some (call, e) := by
  obtain ⟨control, stack⟩ := thread
  cases control with
  | handleError other raised =>
      cases due
      exact .inl rfl
  | thrown raised =>
      cases stack with
      | nil => cases due
      | cons frame below =>
          rw [due_thrown] at due
          exact .inr due
  | _ => cases due

/-- A thread answers what it has caught, or what it has found overdue. -/
theorem willAnswer_cases {chain : Chain γ} {call : CallId} {thread : Thread γ}
    (answers : thread.willAnswer chain call = true) :
    thread.control = .handleTimeout call ∨ thread.control = .answerTimeout call ∨
      ∃ e, thread.control = .handleError call e ∧ chain.answersItself call = true := by
  unfold Thread.willAnswer at answers
  split at answers
  · rename_i control
    exact .inl (by rw [control, eq_of_beq answers])
  · rename_i control
    exact .inr (.inl (by rw [control, eq_of_beq answers]))
  · rename_i e control
    obtain ⟨same, answersItself⟩ := Bool.and_eq_true_iff.mp answers
    exact .inr (.inr ⟨e, by rw [control, eq_of_beq same], answersItself⟩)
  · cases answers

theorem Thread.Begun.calm {thread : Thread γ} (begun : thread.Begun) (chain : Chain γ)
    (call : CallId) : thread.willAnswer chain call = false := by
  rcases begun with ⟨code, rfl⟩ | ⟨timer, rfl⟩ <;> rfl

section Step

variable {program : Program γ} {guard : System.Guard (World γ) Event} {events : List Event}
  {world after : World γ} {choice : Choice γ} {event : Option Event} {call : CallId}

/-- Only a run which is being finished is unregistered. -/
theorem finishing_of_unregistered {completion : Option (MiddlewareResult × String)}
    (moved : step program world choice = some (some (.unregistered call completion), after)) :
    world.Finishing call := by
  have transition : (system program).step world choice =
      some (some (.unregistered call completion), after) := moved
  obtain ⟨enabled, -⟩ := (refines program).event transition
  exact finishing_pos_iff.mp enabled

/-- A run which was unregistered is finished. -/
theorem run_finished (run : (system program).Runs guard events world)
    {completion : Option (MiddlewareResult × String)}
    (unregistered : .unregistered call completion ∈ events) : world.ledger.Finished call := by
  induction run with
  | initial _ => simp at unregistered
  | @move events world choice event after prior moved _ inductionHypothesis =>
      rcases List.mem_append.mp unregistered with old | new
      · exact step_finished prior moved (inductionHypothesis old)
      · obtain rfl : event = some (.unregistered call completion) := by simpa using new
        exact step_finished prior moved
          (finished_of_finishing prior (finishing_of_unregistered moved))

/-- A move keeps the error handler of a run. -/
theorem Effect.answersItself {chain next : Chain γ} {thread : Thread γ} {run : Run}
    (effect : Effect program chain thread next event) (found : chain.run? call = some run) :
    next.answersItself call = chain.answersItself call := by
  rcases effect.run_kept found with ⟨state, present⟩ | ⟨position, state, -, present⟩ <;>
    simp [Chain.answersItself, found, present]

/-- What the guard says of a move. -/
structure AnswersFirst (events : List Event) (world : World γ) (event : Option Event) : Prop where
  timedOut : ∀ call timer, event = some (.timedOut call timer) → completed events call = false
  unregistered : ∀ call arguments, event = some (.unregistered call (some arguments)) →
    ∀ thread ∈ world.threads, thread.willAnswer world.chain call = false
  caught : ∀ thread ∈ world.threads, ∀ call e,
    thread.reaching Frame.caught? = some (call, e) → completed events call = true →
    world.chain.answersItself call = false

theorem answersFirst_of_guard (allowed : System.Guard.of answersFirst events world event) :
    AnswersFirst events world event := by
  obtain ⟨first, second⟩ := Bool.and_eq_true_iff.mp allowed
  refine ⟨fun call timer reported => ?_, fun call arguments reported thread member => ?_,
    fun thread member call e reaches isCompleted => ?_⟩
  · simpa [reported] using first
  · rw [reported] at first
    simpa using List.all_eq_true.mp first thread member
  · have quiet := List.all_eq_true.mp second thread member
    simpa [reaches, isCompleted] using quiet

/-- No thread is about to answer a completed run. -/
def Settled (events : List Event) (world : World γ) : Prop :=
  ∀ call, completed events call = true →
    ∀ thread ∈ world.threads, thread.willAnswer world.chain call = false

/-- A move takes no thread to the answer of a completed run. -/
theorem Traced.calm {thread : Thread γ} {move : Move γ}
    (traced : Traced program world.chain thread move)
    (member : thread ∈ world.threads) (allowed : AnswersFirst events world move.event)
    (before : completed events call = true → thread.willAnswer world.chain call = false)
    (still : move.chain.answersItself call = world.chain.answersItself call)
    (isCompleted : completed (events ++ move.event.toList) call = true) :
    move.thread.willAnswer move.chain call = false := by
  have arrives := traced.arrives
  have sooner : (∀ arguments, move.event ≠ some (.unregistered call (some arguments))) →
      completed events call = true := by
    intro other
    rw [completed_append, Bool.or_eq_true] at isCompleted
    refine isCompleted.resolve_right fun now => ?_
    obtain ⟨arguments, completes⟩ := completed_iff.mp now
    exact other arguments (by simpa using completes)
  have untimed : ¬ ∃ timer, move.event = some (.timedOut call timer) := by
    rintro ⟨timer, reported⟩
    have unfinished := allowed.timedOut call timer reported
    rw [sooner fun _ same => by rw [reported] at same; cases same] at unfinished
    cases unfinished
  refine Bool.eq_false_iff.mpr fun answers => ?_
  rcases willAnswer_cases answers with control | control | ⟨e, control, answersItself⟩
  · rw [control] at arrives
    exact untimed arrives
  · rw [control] at arrives
    exact untimed arrives
  · rw [control] at arrives
    obtain ⟨silent, due⟩ := arrives
    have already := sooner fun _ same => by rw [silent] at same; cases same
    rw [still] at answersItself
    rcases due_cases due with isPending | reaches
    · have calm := before already
      rw [Thread.willAnswer, isPending] at calm
      simp [answersItself] at calm
    · rw [allowed.caught thread member call e reaches already] at answersItself
      cases answersItself

theorem Settled.thread (settled : Settled events world)
    (prior : (system program).Runs guard events world)
    {index : Nat} {thread : Thread γ} {move : Move γ}
    (found : world.threads[index]? = some thread)
    (advanced : advance program world.chain thread = some move)
    (moved : step program world (.thread index) =
      some (move.event, ⟨move.chain, world.threads.set index move.thread⟩))
    (allowed : AnswersFirst events world move.event) :
    Settled (events ++ move.event.toList) ⟨move.chain, world.threads.set index move.thread⟩ := by
  intro call isCompleted other isOther
  have traced := advance_traced advanced
  have member := List.mem_of_getElem? found
  have finished : world.ledger.Finished call := by
    rw [completed_append, Bool.or_eq_true] at isCompleted
    rcases isCompleted with before | now
    · obtain ⟨arguments, unregistered⟩ := completed_iff.mp before
      exact run_finished prior unregistered
    · obtain ⟨arguments, unregisters⟩ := completed_iff.mp now
      have reported : move.event = some (.unregistered call (some arguments)) := by
        simpa using unregisters
      exact finished_of_finishing prior (finishing_of_unregistered (reported ▸ moved))
  obtain ⟨run, inside, -⟩ := (finished_iff world call).mp finished
  have still := traced.effect.answersItself inside
  have calm : ∀ before ∈ world.threads, before.willAnswer world.chain call = false := by
    intro before isBefore
    rw [completed_append, Bool.or_eq_true] at isCompleted
    rcases isCompleted with sooner | now
    · exact settled call sooner before isBefore
    · obtain ⟨arguments, completes⟩ := completed_iff.mp now
      exact allowed.unregistered call arguments (by simpa using completes) before isBefore
  rcases List.mem_or_eq_of_mem_set isOther with old | rfl
  · have before := calm other old
    unfold Thread.willAnswer at before ⊢
    rwa [still]
  · exact traced.calm member allowed (fun _ => calm thread member) still isCompleted

theorem run_settled (run : (system program).Runs (System.Guard.of answersFirst) events world) :
    Settled events world := by
  refine run.invariant ?_ ?_
  · rintro world - call isCompleted
    cases isCompleted
  · intro events world choice event after prior settled moved allowed
    have kept := answersFirst_of_guard allowed
    by_cases own : ∃ index, choice = .thread index
    · obtain ⟨index, rfl⟩ := own
      obtain ⟨thread, move, found, advanced, rfl, rfl⟩ := step_thread program moved
      exact settled.thread prior found advanced moved kept
    · obtain ⟨rfl, calls, threads⟩ := environment_moves moved (not_exists.mp own)
      intro call isCompleted other isOther
      have same : after.chain.answersItself call = world.chain.answersItself call := by
        rw [Chain.answersItself, Chain.answersItself, Chain.run?, Chain.run?, calls]
      have before : ∀ thread ∈ world.threads, thread.willAnswer after.chain call = false := by
        intro thread member
        have calm := settled call (by simpa using isCompleted) thread member
        unfold Thread.willAnswer at calm ⊢
        rwa [same]
      rcases threads with equal | ⟨new, grown, begun⟩
      · exact before other (equal ▸ isOther)
      · rw [grown] at isOther
        rcases List.mem_append.mp isOther with old | last
        · exact before other old
        · exact List.mem_singleton.mp last ▸ begun.calm after.chain call

end Step

/-- **The chain keeps its hands off a completed run** in every run of the
machine, under every program and interleaving, in which no timeout is found on a
completed run, no run is completed between the mark of a timeout or an exception
and its answer, and no `std::exception` is caught for a completed run without an
error handler. -/
theorem hands_off {program : Program γ} {events : List Event} {world : World γ}
    (run : (system program).Runs (System.Guard.of answersFirst) events world) :
    HandsOff events := by
  rintro before call event after rfl isAnswer arguments completes
  obtain ⟨middle, choice, next, prior, moved, allowed⟩ := run.split
  have isCompleted := completed_iff.mpr ⟨arguments, completes⟩
  have settled := run_settled prior call isCompleted
  have kept := answersFirst_of_guard allowed
  obtain ⟨index, thread, move, rfl, found, advanced, reported, rfl⟩ := step_reports program moved
  have member := List.mem_of_getElem? found
  have calm := settled thread member
  have origin : thread.control = .handleTimeout call ∨ thread.control = .answerTimeout call ∨
      ∃ e run, thread.answering = some (call, e) ∧ middle.chain.run? call = some run ∧
        run.errorHandler = none := by
    have origin := (advance_traced advanced).origin event reported
    rcases isAnswer with rfl | rfl
    · exact origin
    · exact origin
  rcases origin with control | control | ⟨e, entered, answering, inside, unhandled⟩
  · simp [Thread.willAnswer, control] at calm
  · simp [Thread.willAnswer, control] at calm
  · have itself : middle.chain.answersItself call = true := by
      simp [Chain.answersItself, inside, unhandled]
    have due : thread.due = some (call, e) := by rw [Thread.due, answering, Option.some_or]
    rcases due_cases due with control | reaches
    · simp [Thread.willAnswer, control, itself] at calm
    · rw [kept.caught thread member call e reaches isCompleted] at itself
      cases itself

/-- A middleware which never signals, under a global timeout: the answer, and
then the completion. -/
theorem hands_off_global :
    ∃ reached, replay (Program.overriding fun _ _ => .ret true) (System.Guard.of answersFirst)
        { Settings.plain [0] with globalTimeout := 10 }
        (alone (.request ()) 9 ++ fire 7) = some reached ∧
      .responded 0 ∈ reached.1 ∧ completed reached.1 0 = true ∧ HandsOff reached.1 :=
  replay_reaches rfl fun run => ⟨by decide, rfl, hands_off run⟩

/-- The handler of a timer which had expired when the run was completed. -/
theorem queued_handler_answers_again :
    ∃ reached, replay { (Program.overriding fun _ _ => .ret true) with timeout := fun _ => 10 }
        System.anyMove (.plain [0])
        (alone (.request ()) 9 ++ [.tick 10, .expire 0] ++
          .spawn (.invoke (.next ⟨0, 0⟩) (.orThrow (.ret true))) :: List.replicate 6 (.thread 1) ++
          .dispatch 0 true :: List.replicate 2 (.thread 2)) = some reached ∧
      ¬ HandsOff reached.1 := by
  refine ⟨_, rfl, fun handsOff => ?_⟩
  exact handsOff
    [.registered 0 .async 1, .claimed 0 0, .started 0 0, .signalled 0 0 .next,
      .finished 0 (some (.Continue, "")), .unregistered 0 (some (.Continue, "")),
      .timedOut 0 (some 0)]
    0 (.responded 0) [] rfl (.inr rfl) (.Continue, "") (by decide)

end Foxhttp.Middleware
