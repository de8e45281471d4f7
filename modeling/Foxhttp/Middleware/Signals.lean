import Foxhttp.Middleware.Finish

/-!
# Which signal starts the next position

Every middleware of an asynchronous run holds two capabilities, its `next` and
its `callback`, and each of them advances the one shared `current_index`. An
outer middleware that uses both starts the position after a middleware that is
still to signal. Positions follow signals exactly as far as no step gets past
its test while a middleware that was started is still to signal, or while
another step of the run is deciding.
-/

namespace Foxhttp.Middleware

open Foxhttp.Library

variable {γ : Type}

/-- A middleware has called its `next`, or its `callback` with `Continue`. -/
def Signalled (events : List Event) (call : CallId) (position : Nat) : Prop :=
  .signalled call position .next ∈ events ∨
    .signalled call position (.callback .Continue) ∈ events

instance (events : List Event) (call : CallId) (position : Nat) :
    Decidable (Signalled events call position) :=
  inferInstanceAs (Decidable (_ ∨ _))

/-- Of two positions of an asynchronous call with no started position between
them, the later is started only after the earlier has signalled. -/
def StartsFollowSignals (events : List Event) : Prop :=
  ∀ before call position after, events = before ++ .started call position :: after →
    (∃ size, .registered call .async size ∈ events) →
    ∀ previous < position, .started call previous ∈ events →
      (∀ between, previous < between → between < position →
        .started call between ∉ events) →
      Signalled before call previous

/-- The position an event starts for a call. -/
def Event.starts (call : CallId) : Event → Option Nat
  | .started other position => if other = call then some position else none
  | _ => none

/-- The positions started for a call, in order. -/
def startedPositions (call : CallId) (events : List Event) : List Nat :=
  events.filterMap (Event.starts call)

/-- A step of an asynchronous run gets past its test when every middleware the
run has started has signalled and no other step of the run is deciding. -/
def stepsFollowSignals (events : List Event) (world : World γ) : Option Event → Bool
  | some (.claimed call _) =>
      !world.isAsync call ||
        !world.deciding call &&
          (startedPositions call events).all fun position => decide (Signalled events call position)
  | _ => true

/-! ## On the ledger -/

/-- `stepsFollowSignals` as the ledger sees it. -/
def Ledger.stepsFollowSignals (events : List Event) (ledger : Ledger) : Event → Prop
  | .claimed call _ => ∀ view, ledger.runs call = some view → view.mode = .async →
      (∀ position, ledger.evaluating call position = 0) ∧
        ∀ position, .started call position ∈ events → Signalled events call position
  | _ => True

/-- A deciding step of an asynchronous run has the last claimed position, and
every middleware started so far lies before it and has signalled. -/
def Paced (events : List Event) (ledger : Ledger) : Prop :=
  ∀ call view position, ledger.runs call = some view → view.mode = .async →
    0 < ledger.evaluating call position →
    position + 1 = view.currentIndex ∧
      ∀ previous, .started call previous ∈ events →
        previous < position ∧ Signalled events call previous

/-- A signal once given stays given. -/
theorem Signalled.append {events : List Event} {call : CallId} {position : Nat}
    (signalled : Signalled events call position) (more : List Event) :
    Signalled (events ++ more) call position :=
  signalled.imp (List.mem_append_left more) (List.mem_append_left more)

/-- A started position has been claimed. -/
theorem Balanced.started_lt {events : List Event} {ledger : Ledger}
    (balanced : Balanced events ledger) {call : CallId} {position : Nat}
    (started : .started call position ∈ events) : position < ledger.index call := by
  have balance := balanced.balance call position
  have positive := List.count_pos_iff.mpr started
  simp only [settledCount] at balance
  split at balance
  · assumption
  · omega

/-- No step at a position is deciding once its body was started. -/
theorem Balanced.evaluating_of_started {events : List Event} {ledger : Ledger}
    (balanced : Balanced events ledger) {call : CallId} {position : Nat}
    (started : .started call position ∈ events) : ledger.evaluating call position = 0 := by
  have balance := balanced.balance call position
  have positive := List.count_pos_iff.mpr started
  simp only [settledCount] at balance
  split at balance <;> omega

/-- An unsettled step belongs to a run. -/
theorem Balanced.run_of_evaluating {events : List Event} {ledger : Ledger}
    (balanced : Balanced events ledger) {call : CallId} {position : Nat}
    (deciding : 0 < ledger.evaluating call position) : ∃ view, ledger.runs call = some view := by
  have balance := balanced.balance call position
  cases found : ledger.runs call with
  | some view => exact ⟨view, rfl⟩
  | none =>
      simp only [Ledger.index, found, Nat.not_lt_zero, if_false] at balance
      omega

/-- Only a claim of its call moves an index. -/
theorem Event.currentIndex_of_onView {event : Event} {call : CallId} (view : RunView)
    (other : ∀ index, event ≠ .claimed call index) :
    (event.onView call view).currentIndex = view.currentIndex := by
  cases event with
  | claimed target index =>
      have different : ¬ call = target := fun equal => other index (equal ▸ rfl)
      simp [onView, different]
  | timedOut target _ | cancelled target | finished target _ =>
      simp only [onView]
      split <;> rfl
  | _ => rfl

/-- A claim begins at a paced position. -/
theorem Paced.claim {events : List Event} {ledger : Ledger} (balanced : Balanced events ledger)
    {call : CallId} {view : RunView} (found : ledger.runs call = some view)
    (idle : ∀ position, ledger.evaluating call position = 0)
    (signalled : ∀ position, .started call position ∈ events → Signalled events call position)
    {position : Nat}
    (deciding : 0 < (ledger.apply (.claimed call view.currentIndex)).evaluating call position) :
    position = view.currentIndex ∧
      ∀ previous, .started call previous ∈ events ++ [.claimed call view.currentIndex] →
        previous < position ∧
          Signalled (events ++ [.claimed call view.currentIndex]) call previous := by
  have here : position = view.currentIndex := by
    rcases Nat.decEq position view.currentIndex with different | same
    · simp [Ledger.apply, Ledger.countAt, Ledger.modify, different, idle] at deciding
    · exact same
  refine ⟨here, fun previous started => ?_⟩
  have earlier : .started call previous ∈ events := by simpa using started
  have below := balanced.started_lt earlier
  rw [Ledger.index, found] at below
  exact ⟨here ▸ below, (signalled previous earlier).append _⟩

theorem trace_paced {events : List Event} {ledger : Ledger}
    (trace : ledgerSystem.Trace Ledger.stepsFollowSignals events ledger) :
    Paced events ledger := by
  refine trace.invariant ?_ ?_
  · rintro ledger ⟨runs, -, -, -⟩ call view position found
    rw [runs] at found
    cases found
  · intro events ledger event prior paced enabled allowed
    have balanced := trace_balanced prior
    have after := trace_balanced (prior.event enabled allowed)
    intro call view position found async deciding
    rcases Ledger.runs_apply found with ⟨before, earlier, rfl⟩ | ⟨mode, size, rfl, rfl⟩
    · rw [(event.onView_grows call before).mode] at async
      by_cases claims : ∃ index, event = .claimed call index
      · obtain ⟨index, rfl⟩ := claims
        obtain ⟨idle, signalled⟩ := allowed before earlier async
        obtain ⟨view, same, -, rfl⟩ := enabled
        rw [earlier] at same
        cases same
        obtain ⟨rfl, starts⟩ := Paced.claim balanced earlier idle signalled deciding
        exact ⟨by simp [Event.onView], starts⟩
      · have below : (ledger.apply event).evaluating call position ≤ _ :=
          Ledger.evaluating_apply fun index equal => claims ⟨index, equal⟩
        obtain ⟨last, starts⟩ := paced call before position earlier async
          (Nat.lt_of_lt_of_le deciding below)
        refine ⟨?_, fun previous started => ?_⟩
        · rw [event.currentIndex_of_onView before fun index equal => claims ⟨index, equal⟩]
          exact last
        · rcases List.mem_append.mp started with old | new
          · obtain ⟨below, signalled⟩ := starts previous old
            exact ⟨below, signalled.append _⟩
          · -- the step that starts a body was the only one deciding
            obtain rfl := List.mem_singleton.mp new
            obtain ⟨same, -⟩ := paced call before previous earlier async enabled
            obtain rfl : previous = position := by omega
            have zero := after.evaluating_of_started started
            omega
    · -- a call that was just entered has claimed nothing
      have balance := after.balance call position
      rw [Ledger.index, found] at balance
      have none : ¬ position < (RunView.entered mode size).currentIndex := Nat.not_lt_zero _
      rw [if_neg none] at balance
      omega

/-- On a trace whose steps follow signals, starts follow signals. -/
theorem trace_follows {events : List Event} {ledger : Ledger}
    (trace : ledgerSystem.Trace Ledger.stepsFollowSignals events ledger) :
    StartsFollowSignals events := by
  rintro before call position after rfl ⟨size, registered⟩ previous below started -
  -- the start of a position finds every earlier start below it, and signalled
  have paced : ∀ {front back : List Event} {index : Nat},
      front ++ .started call index :: back = before ++ .started call position :: after →
      ∀ other, .started call other ∈ front → other < index ∧ Signalled front call other := by
    intro front back index whole other member
    rw [← whole] at trace registered
    obtain ⟨middle, prior, deciding, -⟩ := trace.split
    have deciding : 0 < middle.evaluating call index := deciding
    obtain ⟨view, found⟩ := (trace_balanced prior).run_of_evaluating deciding
    have earlier := (trace_entered prior).registered call view found
    have async := (trace_entered trace).mode_unique (List.mem_append_left _ earlier) registered
    exact (trace_paced prior call view index found async deciding).2 other member
  rcases List.mem_append.mp started with earlier | rest
  · exact (paced rfl previous earlier).2
  · rcases List.mem_cons.mp rest with same | later
    · cases same
      exact absurd below (Nat.lt_irrefl _)
    · -- a smaller position never starts after a larger one
      obtain ⟨front, back, rfl⟩ := List.append_of_mem later
      have whole : (before ++ .started call position :: front) ++ .started call previous :: back =
          before ++ .started call position :: (front ++ .started call previous :: back) := by simp
      have reversed := paced whole position (by simp)
      exact absurd reversed.1 (Nat.lt_asymm below)

/-! ## On the machine -/

theorem stepsFollowSignals_ledger (events : List Event) (world : World γ) (event : Event)
    (allowed : stepsFollowSignals events world (some event) = true) :
    world.ledger.stepsFollowSignals events event := by
  cases event with
  | claimed call position =>
      intro view found async
      obtain ⟨isAsync, -⟩ := World.isAsync_of_view found async
      simp only [stepsFollowSignals, isAsync, Bool.not_true, Bool.false_or, Bool.and_eq_true,
        Bool.not_eq_true', List.all_eq_true, decide_eq_true_eq] at allowed
      obtain ⟨still, signalled⟩ := allowed
      refine ⟨fun index => ?_, fun index started => signalled index ?_⟩
      · exact World.evaluating_of_still still index
      · exact List.mem_filterMap.mpr ⟨_, started, by simp [Event.starts]⟩
  | _ => trivial

/-- **Starts follow signals** in every run, under every program and
interleaving, whose steps get past their test only when every middleware the
run has started has signalled and no other step of the run is deciding. -/
theorem starts_follow_signals {program : Program γ} {events : List Event} {world : World γ}
    (run : (system program).Runs (System.Guard.of stepsFollowSignals) events world) :
    StartsFollowSignals events :=
  trace_follows ((refines program).trace stepsFollowSignals_ledger run)

/-- A middleware which signals twice over one which signals once. -/
theorem starts_follow_signals_two_positions :
    ∃ reached, replay (Program.overriding fun mw handle =>
          if mw = 0 then .nextThenContinue handle else .signal handle .Continue)
        (System.Guard.of stepsFollowSignals) (.plain [0, 1]) (alone (.request ()) 24) =
          some reached ∧
      startedPositions 0 reached.1 = [0, 1] ∧ StartsFollowSignals reached.1 :=
  replay_reaches rfl fun run => ⟨rfl, starts_follow_signals run⟩

/-- The pipeline of `next(); callback(Continue, "")`, a middleware which has not
signalled yet and one more: the `callback` of the first starts the third while
the second is pending. -/
theorem third_starts_before_second_signals :
    ∃ reached, replay (Program.overriding fun mw handle =>
          if mw = 0 then .nextThenContinue handle else .ret true)
        System.anyMove (.plain [0, 1, 2]) (alone (.request ()) 18) = some reached ∧
      ¬ StartsFollowSignals reached.1 := by
  refine ⟨_, rfl, fun follows => ?_⟩
  have signalled := follows
    [.registered 0 .async 3, .claimed 0 0, .started 0 0, .signalled 0 0 .next, .claimed 0 1,
      .started 0 1, .signalled 0 0 (.callback .Continue), .claimed 0 2]
    0 2 [] rfl ⟨3, by decide⟩ 1 (by decide) (by decide) (by omega)
  exact absurd signalled (by decide)

end Foxhttp.Middleware
