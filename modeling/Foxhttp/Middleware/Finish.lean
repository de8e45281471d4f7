import Foxhttp.Middleware.Positions

/-!
# What a finished run still starts

`execute_next_async_step` tests `cancelled`, `timed_out`, `paused_` and the
index, but not `finished`. A late `next` or `callback(Continue)` of an outer
middleware therefore starts the position after the one that stopped the run.
Runs are final exactly as far as no step gets past that test on a finished run
and no run is finished between the test and the start it lets through.
-/

namespace Foxhttp.Middleware

open Foxhttp.Library

variable {γ : Type}

/-- No body of an asynchronous call is started after its run was finished. -/
def FinishedRunsRest (events : List Event) : Prop :=
  ∀ before call position after, events = before ++ .started call position :: after →
    (∃ size, .registered call .async size ∈ events) →
    ∀ completion, .finished call completion ∉ before

/-- Is this an `execute_async` call with a run? -/
def World.isAsync (world : World γ) (call : CallId) : Bool :=
  (world.chain.run? call).any fun run => decide (run.mode = .async)

/-- An activation of a call inside `should_execute`. -/
def Frame.deciding (call : CallId) : Frame γ → Bool
  | .asyncSelect other _ => other == call
  | .syncSelect other _ => other == call
  | _ => false

/-- Is a step of this call between claiming its position and settling it? -/
def World.deciding (world : World γ) (call : CallId) : Bool :=
  world.threads.any fun thread => thread.stack.any (Frame.deciding call)

/-- A step of an asynchronous run gets past its test while the run is
unfinished, and the run is finished while no step of it is deciding. -/
def stepsWhileUnfinished (_ : List Event) (world : World γ) : Option Event → Bool
  | some (.claimed call _) => !world.isAsync call || world.chain.unfinished call
  | some (.finished call _) => !world.isAsync call || !world.deciding call
  | _ => true

/-! ## On the ledger -/

/-- `stepsWhileUnfinished` as the ledger sees it. -/
def Ledger.stepsWhileUnfinished (_ : List Event) (ledger : Ledger) : Event → Prop
  | .claimed call _ => ∀ view, ledger.runs call = some view → view.mode = .async →
      view.finished = false
  | .finished call _ => ∀ view, ledger.runs call = some view → view.mode = .async →
      ∀ position, ledger.evaluating call position = 0
  | _ => True

/-- A finish leaves its mark, and a finished asynchronous run has no step that
could still start a body. -/
structure Halted (events : List Event) (ledger : Ledger) : Prop where
  marked : ∀ call completion, .finished call completion ∈ events →
    ∃ view, ledger.runs call = some view ∧ view.finished = true
  idle : ∀ call view, ledger.runs call = some view → view.mode = .async →
    view.finished = true → ∀ position, ledger.evaluating call position = 0

/-- The mark of a finish survives every event. -/
theorem Halted.marked_apply {events : List Event} {ledger : Ledger} {event : Event}
    (halted : Halted events ledger) (entered : Entered events ledger)
    (enabled : ledger.Enabled event) {call : CallId}
    {completion : Option (MiddlewareResult × String)}
    (member : .finished call completion ∈ events ++ [event]) :
    ∃ view, (ledger.apply event).runs call = some view ∧ view.finished = true := by
  rcases List.mem_append.mp member with earlier | last
  · obtain ⟨before, found, marked⟩ := halted.marked call completion earlier
    exact ⟨_, entered.survives enabled found, (event.onView_grows call before).finished marked⟩
  · obtain rfl := List.mem_singleton.mp last
    have known := enabled
    obtain ⟨view, found, -⟩ := known
    exact ⟨_, entered.survives enabled found, by simp [Event.onView]⟩

/-- Only its own finish raises the flag of a run. -/
theorem Event.finished_of_onView {event : Event} {call : CallId} {view : RunView}
    (finished : (event.onView call view).finished = true)
    (other : ∀ completion, event ≠ .finished call completion) : view.finished = true := by
  cases event with
  | finished target completion =>
      have different : ¬ call = target := fun equal => other completion (equal ▸ rfl)
      simpa [onView, different] using finished
  | claimed target _ | timedOut target _ | cancelled target =>
      simp only [onView] at finished
      split at finished <;> exact finished
  | _ => exact finished

theorem trace_halted {events : List Event} {ledger : Ledger}
    (trace : ledgerSystem.Trace Ledger.stepsWhileUnfinished events ledger) :
    Halted events ledger := by
  refine trace.invariant ?_ ?_
  · rintro ledger ⟨runs, -, -, evaluating, -⟩
    exact ⟨fun _ _ member => by simp at member,
      fun call _ _ _ _ position => evaluating call position⟩
  · intro events ledger event prior halted enabled allowed
    have entered := trace_entered prior
    refine ⟨fun call completion member => halted.marked_apply entered enabled member, ?_⟩
    intro call after found async finished position
    rcases Ledger.runs_apply found with ⟨before, earlier, rfl⟩ | ⟨mode, size, rfl, rfl⟩
    · rw [(event.onView_grows call before).mode] at async
      by_cases ends : ∃ completion, event = .finished call completion
      · -- the finishing event itself: its guard says that no step is deciding
        obtain ⟨completion, rfl⟩ := ends
        exact allowed before earlier async position
      · have marked := Event.finished_of_onView finished fun completion equal =>
          ends ⟨completion, equal⟩
        have idle := halted.idle call before earlier async marked position
        by_cases claims : ∃ index, event = .claimed call index
        · -- a claim on a finished run is what the guard excludes
          obtain ⟨index, rfl⟩ := claims
          have unfinished := allowed before earlier async
          rw [marked] at unfinished
          cases unfinished
        · have below : (ledger.apply event).evaluating call position ≤ _ :=
            Ledger.evaluating_apply fun index equal => claims ⟨index, equal⟩
          exact Nat.le_zero.mp (idle ▸ below)
    · cases finished

/-- On a trace whose steps keep to unfinished runs, finished runs rest. -/
theorem trace_rests {events : List Event} {ledger : Ledger}
    (trace : ledgerSystem.Trace Ledger.stepsWhileUnfinished events ledger) :
    FinishedRunsRest events := by
  rintro before call position after rfl ⟨size, registered⟩ completion member
  obtain ⟨middle, prior, unsettled, -⟩ := trace.split
  have halted := trace_halted prior
  obtain ⟨view, found, finished⟩ := halted.marked call completion member
  -- the call was entered once, so it was asynchronous when the body started
  have earlier := (trace_entered prior).registered call view found
  have async := (trace_entered trace).mode_unique (List.mem_append_left _ earlier) registered
  have idle := halted.idle call view found async finished position
  have unsettled : 0 < middle.evaluating call position := unsettled
  omega

/-! ## On the machine -/

/-- The view of an asynchronous run in the books of a world. -/
theorem World.isAsync_of_view {world : World γ} {call : CallId} {view : RunView}
    (found : world.ledger.runs call = some view) (async : view.mode = .async) :
    world.isAsync call = true ∧ world.chain.unfinished call = !view.finished := by
  obtain ⟨entered, inside, rfl⟩ := Option.map_eq_some_iff.mp found
  have async : entered.mode = .async := async
  simp [World.isAsync, Chain.unfinished, inside, async, Run.view]

/-- A call with an unsettled step is deciding. -/
theorem World.deciding_of_evaluating {world : World γ} {call : CallId} {position : Nat}
    (unsettled : 0 < world.evaluating call position) : world.deciding call = true := by
  obtain ⟨thread, inside, frame, waiting, selects⟩ := exists_select unsettled
  refine List.any_eq_true.mpr ⟨thread, inside, List.any_eq_true.mpr ⟨frame, waiting, ?_⟩⟩
  cases frame <;> simp [Frame.selects, Frame.deciding] at selects ⊢
  all_goals exact selects.1

/-- A call which is not deciding has no unsettled step. -/
theorem World.evaluating_of_still {world : World γ} {call : CallId}
    (still : world.deciding call = false) (position : Nat) :
    world.ledger.evaluating call position = 0 := by
  rcases Nat.eq_zero_or_pos (world.ledger.evaluating call position) with idle | unsettled
  · exact idle
  · rw [World.deciding_of_evaluating unsettled] at still
    cases still

theorem stepsWhileUnfinished_ledger (events : List Event) (world : World γ) (event : Event)
    (allowed : stepsWhileUnfinished events world (some event) = true) :
    world.ledger.stepsWhileUnfinished events event := by
  cases event with
  | claimed call position =>
      intro view found async
      obtain ⟨isAsync, unfinished⟩ := World.isAsync_of_view found async
      simpa [stepsWhileUnfinished, isAsync, unfinished] using allowed
  | finished call completion =>
      intro view found async position
      obtain ⟨isAsync, -⟩ := World.isAsync_of_view found async
      have still : world.deciding call = false := by
        simpa [stepsWhileUnfinished, isAsync] using allowed
      exact World.evaluating_of_still still position
  | _ => trivial

/-- **Finished runs rest** in every run, under every program and interleaving,
whose steps get past their test on unfinished runs only and in which no run is
finished while a step of it is deciding. -/
theorem finished_runs_rest {program : Program γ} {events : List Event} {world : World γ}
    (run : (system program).Runs (System.Guard.of stepsWhileUnfinished) events world) :
    FinishedRunsRest events :=
  trace_rests ((refines program).trace stepsWhileUnfinished_ledger run)

/-- Two middlewares, the second of which stops the run. -/
theorem finished_runs_rest_two_positions :
    ∃ reached, replay (Program.overriding fun mw handle =>
          if mw = 0 then .signal handle .Continue else .signal handle .Stop)
        (System.Guard.of stepsWhileUnfinished) (.plain [0, 1]) (alone (.request ()) 23) =
          some reached ∧
      .started 0 1 ∈ reached.1 ∧ .finished 0 (some (.Stop, "")) ∈ reached.1 ∧
      FinishedRunsRest reached.1 :=
  replay_reaches rfl fun run => ⟨by decide, by decide, finished_runs_rest run⟩

/-- The pipeline of `next(); callback(Continue, "")`, `callback(Stop, "")` and
one more middleware: the late `callback` of the first starts the third after
the second has stopped the run. -/
theorem finished_run_starts_third :
    ∃ reached, replay (Program.overriding fun mw handle =>
          if mw = 0 then .nextThenContinue handle else .signal handle .Stop)
        System.anyMove (.plain [0, 1, 2]) (alone (.request ()) 24) = some reached ∧
      ¬ FinishedRunsRest reached.1 := by
  refine ⟨_, rfl, fun rests => ?_⟩
  exact rests
    [.registered 0 .async 3, .claimed 0 0, .started 0 0, .signalled 0 0 .next, .claimed 0 1,
      .started 0 1, .signalled 0 1 (.callback .Stop), .finished 0 (some (.Stop, "")),
      .unregistered 0 (some (.Stop, "")), .signalled 0 0 (.callback .Continue), .claimed 0 2]
    0 2 [] rfl ⟨3, by decide⟩ (some (.Stop, "")) (by decide)

end Foxhttp.Middleware
