import Mathlib.Data.List.Perm.Subperm
import Foxhttp.Middleware.Moves
import Foxhttp.Middleware.Signals

/-!
# What a run reported as `Continue` has run

A step which finds the index at the end of the pipeline completes the run with
`Continue`, and so does one which finds the chain paused. Every step is owed to
the entry of the call, to a position which was skipped or to a signal, so a run
whose index is at its end has been through one of these for each position,
unless one middleware has signalled twice.
-/

namespace Foxhttp.Middleware

open Foxhttp.Library

variable {γ : Type}

/-- A run which is completed with `Continue` has skipped every position of its
snapshot, or started it and heard its signal, when its completion callback is
invoked. -/
def ContinuesWhole (events : List Event) : Prop :=
  ∀ before call message after,
    events = before ++ .unregistered call (some (.Continue, message)) :: after →
    ∀ mode size, .registered call mode size ∈ before → ∀ position < size,
      .skipped call position ∈ before ∨
        .started call position ∈ before ∧ Signalled before call position

/-- The position which an event passes for a call: it is skipped, or its
middleware signals that the run is to go on. -/
def Event.passes (call : CallId) : Event → Option Nat
  | .skipped other position => if other = call then some position else none
  | .signalled other position .next => if other = call then some position else none
  | .signalled other position (.callback .Continue) =>
      if other = call then some position else none
  | _ => none

/-- The positions passed for a call, in order. -/
def passedPositions (call : CallId) (events : List Event) : List Nat :=
  events.filterMap (Event.passes call)

/-- The chain has claimed the whole pipeline of a call. -/
def Chain.exhausted (chain : Chain γ) (call : CallId) : Bool :=
  (chain.run? call).all fun run => decide (run.pipeline.length ≤ run.state.currentIndex)

/-- A run is completed with `Continue` at the end of its pipeline, and no
middleware has signalled twice that it is to go on. -/
def continuesAtEnd (events : List Event) (world : World γ) : Option Event → Bool
  | some (.finished call (some (.Continue, _))) =>
      world.chain.exhausted call && decide (passedPositions call events).Nodup
  | _ => true

/-! ## Steps are owed -/

/-- The thread is about to make a step of this call, or the last one found it at
its end. -/
def Thread.steps (call : CallId) (thread : Thread γ) : Bool :=
  thread.control.stepping call ||
    match thread.control with
    | .completeRun other .Continue _ => other == call
    | _ => false

/-- How many threads are. -/
def World.stepping (world : World γ) (call : CallId) : Nat :=
  world.threads.countP (Thread.steps call)

/-- A thread which steps is about to make a step, or about to report `Continue`. -/
theorem Thread.steps_cases {thread : Thread γ} {call : CallId} (steps : thread.steps call = true) :
    thread.control.stepping call = true ∨
      ∃ message, thread.control = .completeRun call .Continue message := by
  rcases Bool.or_eq_true_iff.mp steps with now | last
  · exact .inl now
  · refine .inr ?_
    split at last
    · rename_i other message isLast
      obtain rfl : other = call := by simpa using last
      exact ⟨message, isLast⟩
    · cases last

theorem Event.claims_of_admits {event : Event} {call : CallId}
    (admits : event.admits call = true) : event.claims call = none := by
  cases event <;> first | rfl | cases admits

theorem claimedPositions_singleton (call : CallId) (event : Event) :
    claimedPositions call [event] = (event.claims call).toList := by
  cases claims : event.claims call <;> simp [claimedPositions, claims]

/-- One move: a claim or a step ahead is owed to a step before it or to an event
which admits one. -/
theorem Traced.pays {program : Program γ} {chain : Chain γ} {thread : Thread γ} {move : Move γ}
    (traced : Traced program chain thread move) (call : CallId) :
    (claimedPositions call move.event.toList).length +
        (if move.thread.steps call then 1 else 0) ≤
      (if thread.steps call then 1 else 0) + move.event.toList.countP (Event.admits call) := by
  have arrives := traced.arrives
  cases ahead : move.thread.steps call with
  | true =>
      rcases Thread.steps_cases ahead with steps | ⟨message, last⟩
      · have admitted : ∃ admitting, move.event = some admitting ∧
            admitting.admits call = true := by
          cases control : move.thread.control <;> rw [control] at steps arrives <;>
            simp only [Control.stepping, beq_iff_eq, Bool.false_eq_true] at steps
          · exact steps ▸ arrives
          · exact steps ▸ arrives
        obtain ⟨admitting, reported, admits⟩ := admitted
        rw [reported, Option.toList_some, claimedPositions_singleton,
          Event.claims_of_admits admits]
        simp [admits]
      · rw [last] at arrives
        obtain ⟨silent, steps⟩ := arrives
        have before : thread.steps call = true := by simp [Thread.steps, steps]
        simp [silent, before, claimedPositions]
  | false =>
      cases reported : move.event with
      | none => simp [claimedPositions]
      | some event =>
          rw [Option.toList_some, claimedPositions_singleton]
          cases claims : event.claims call with
          | none => simp
          | some position =>
              -- only a step claims
              have before : thread.steps call = true := by
                cases event with
                | claimed other index =>
                    obtain ⟨steps, -⟩ := traced.origin _ reported
                    simp only [Event.claims] at claims
                    split at claims
                    · rename_i same
                      simp [Thread.steps, same ▸ steps]
                    · cases claims
                | _ => cases claims
              simp [before]

/-- What a run has claimed, and what it is about to, is owed to the events which
admit a step. -/
structure Owed (events : List Event) (world : World γ) : Prop where
  steps : ∀ call, (claimedPositions call events).length + world.stepping call ≤
    events.countP (Event.admits call)
  handles : ∀ handle : Handle, world.chain.Hands handle ∨
      (∃ thread ∈ world.threads, thread.Holds handle) →
    .started handle.call handle.position ∈ events
  signalled : ∀ call position signal, .signalled call position signal ∈ events →
    .started call position ∈ events

/-- A thread which was just begun is not in the middle of anything. -/
theorem Thread.Begun.idle {thread : Thread γ} (begun : thread.Begun) :
    (∀ call, thread.steps call = false) ∧ ∀ handle, ¬ thread.Holds handle := by
  rcases begun with ⟨code, rfl⟩ | ⟨timer, rfl⟩
  · refine ⟨fun _ => rfl, ?_⟩
    rintro handle (now | ⟨frame, waits, -⟩)
    · cases now
    · cases waits
  · refine ⟨fun _ => rfl, ?_⟩
    rintro handle (now | ⟨frame, waits, holds⟩)
    · cases now
    · rw [List.mem_singleton.mp waits] at holds
      cases holds

theorem claimedPositions_append (call : CallId) (events more : List Event) :
    claimedPositions call (events ++ more) =
      claimedPositions call events ++ claimedPositions call more :=
  List.filterMap_append

section Step

variable {program : Program γ} {events : List Event} {world after : World γ}
  {choice : Choice γ} {event : Option Event}

theorem Owed.thread (owed : Owed events world) {index : Nat} {thread : Thread γ} {move : Move γ}
    (found : world.threads[index]? = some thread)
    (traced : Traced program world.chain thread move) :
    Owed (events ++ move.event.toList) ⟨move.chain, world.threads.set index move.thread⟩ := by
  have member := List.mem_of_getElem? found
  have handles : ∀ handle : Handle, move.chain.Hands handle ∨
      (∃ other ∈ world.threads.set index move.thread, other.Holds handle) →
      .started handle.call handle.position ∈ events ++ move.event.toList := by
    have known : ∀ handle : Handle, world.chain.Hands handle ∨
        (∃ other ∈ world.threads, other.Holds handle) →
        .started handle.call handle.position ∈ events ++ move.event.toList :=
      fun handle held => List.mem_append_left _ (owed.handles handle held)
    have now : ∀ handle : Handle, move.event = some (.started handle.call handle.position) →
        .started handle.call handle.position ∈ events ++ move.event.toList := by
      intro handle started
      simp [started]
    rintro handle (hands | ⟨other, isOther, holds⟩)
    · rcases traced.effect.hands hands with before | started
      · exact known handle (.inl before)
      · exact now handle started
    · rcases List.mem_or_eq_of_mem_set isOther with old | rfl
      · exact known handle (.inr ⟨other, old, holds⟩)
      · rcases traced.holds handle holds with before | hands | started
        · exact known handle (.inr ⟨thread, member, before⟩)
        · exact known handle (.inl hands)
        · exact now handle started
  refine ⟨fun call => ?_, handles, fun call position signal signals => ?_⟩
  · have before := owed.steps call
    have pays := traced.pays call
    have changed := countP_set found move.thread (Thread.steps call)
    simp only [World.stepping, claimedPositions_append, List.length_append,
      List.countP_append] at before ⊢
    omega
  · rcases List.mem_append.mp signals with old | new
    · exact List.mem_append_left _ (owed.signalled call position signal old)
    · have reported : move.event = some (.signalled call position signal) := by simpa using new
      have origin := traced.origin _ reported
      refine List.mem_append_left _ (owed.handles ⟨call, position⟩ ?_)
      exact origin.elim (fun holds => .inr ⟨thread, member, holds⟩) .inl

theorem Owed.environment (owed : Owed events world)
    (calls : after.chain.calls = world.chain.calls)
    (threads : after.threads = world.threads ∨
      ∃ thread, after.threads = world.threads ++ [thread] ∧ thread.Begun) :
    Owed events after := by
  have hands : ∀ handle, after.chain.Hands handle → world.chain.Hands handle := by
    rintro handle ⟨run, found, closed⟩
    exact ⟨run, by rwa [Chain.run?, calls] at found, closed⟩
  refine ⟨fun call => ?_, ?_, owed.signalled⟩
  · have before := owed.steps call
    rcases threads with same | ⟨thread, grown, begun⟩
    · simpa only [World.stepping, same] using before
    · simpa [World.stepping, grown, begun.idle.1 call] using before
  · rintro handle (before | ⟨thread, isThread, holds⟩)
    · exact owed.handles handle (.inl (hands handle before))
    · rcases threads with same | ⟨new, grown, begun⟩
      · exact owed.handles handle (.inr ⟨thread, same ▸ isThread, holds⟩)
      · rw [grown] at isThread
        rcases List.mem_append.mp isThread with old | last
        · exact owed.handles handle (.inr ⟨thread, old, holds⟩)
        · exact absurd holds (List.mem_singleton.mp last ▸ begun.idle.2 handle)

/-- Steps are owed in every run. -/
theorem run_owed {guard : System.Guard (World γ) Event}
    (run : (system program).Runs guard events world) : Owed events world := by
  refine run.invariant ?_ ?_
  · rintro world ⟨settings, stats, now, rfl⟩
    refine ⟨fun _ => Nat.le_refl 0, ?_, fun _ _ _ member => by simp at member⟩
    rintro handle (⟨run, found, -⟩ | ⟨thread, member, -⟩)
    · simp [Chain.run?, Chain.fresh] at found
    · cases member
  · intro events world choice event after _ owed moved _
    by_cases own : ∃ index, choice = .thread index
    · obtain ⟨index, rfl⟩ := own
      obtain ⟨thread, move, found, advanced, rfl, rfl⟩ := step_thread program moved
      exact owed.thread found (advance_traced advanced)
    · obtain ⟨rfl, calls, threads⟩ := environment_moves moved (not_exists.mp own)
      simpa using owed.environment calls threads

end Step

/-! ## A step for each position -/

/-- The event enters a call with a run. -/
def Event.enters (call : CallId) : Event → Bool
  | .registered other _ _ => other == call
  | _ => false

/-- A call is entered once. -/
theorem trace_enters_once {guard : List Event → Ledger → Event → Prop} {events : List Event}
    {ledger : Ledger} (trace : ledgerSystem.Trace guard events ledger) (call : CallId) :
    events.countP (Event.enters call) ≤ 1 ∧
      (ledger.count ≤ call → events.countP (Event.enters call) = 0) := by
  induction trace with
  | initial _ => exact ⟨Nat.zero_le 1, fun _ => rfl⟩
  | @event events ledger event _ enabled _ inductionHypothesis =>
      obtain ⟨once, fresh⟩ := inductionHypothesis
      rw [List.countP_append, List.countP_singleton]
      cases event with
      | registered other mode size =>
          obtain ⟨rfl, -⟩ := enabled
          by_cases same : ledger.count = call
          · subst same
            have none := fresh (Nat.le_refl _)
            refine ⟨by simp [none, Event.enters], fun beyond => ?_⟩
            exact absurd beyond (Nat.not_succ_le_self _)
          · have other : Event.enters call (.registered ledger.count mode size) = false := by
              simpa [Event.enters] using same
            refine ⟨by simpa [other] using once, fun beyond => ?_⟩
            have none := fresh (Nat.le_of_succ_le beyond)
            rw [none, other]
            rfl
      | passed other completion =>
          refine ⟨by simpa [Event.enters] using once, fun beyond => ?_⟩
          have none := fresh (Nat.le_of_succ_le beyond)
          rw [none]
          rfl
      -- No other event enters a call or makes one.
      | _ => exact ⟨once, fresh⟩

/-- A step is admitted by the entry of its call, or by a position which is passed. -/
theorem countP_admits (call : CallId) (events : List Event) :
    events.countP (Event.admits call) =
      events.countP (Event.enters call) + (passedPositions call events).length := by
  induction events with
  | nil => rfl
  | cons event events inductionHypothesis =>
      have split : (if event.admits call then 1 else 0) =
          (if event.enters call then 1 else 0) + (event.passes call).toList.length := by
        cases event with
        | registered other mode size => simp [Event.admits, Event.enters, Event.passes]
        | skipped other position =>
            by_cases same : other = call <;> simp [Event.admits, Event.enters, Event.passes, same]
        | signalled other position signal =>
            by_cases same : other = call <;> cases signal with
            | next => simp [Event.admits, Event.enters, Event.passes, same]
            | callback result =>
                cases result <;> simp [Event.admits, Event.enters, Event.passes, same]
        | _ => rfl
      have passed : (passedPositions call (event :: events)).length =
          (event.passes call).toList.length + (passedPositions call events).length := by
        cases passes : event.passes call <;>
          simp [passedPositions, passes, Nat.add_comm]
      rw [List.countP_cons, List.countP_cons, passed, inductionHypothesis]
      omega

/-- What it is for a position to be passed. -/
theorem mem_passedPositions {call : CallId} {events : List Event} {position : Nat}
    (passed : position ∈ passedPositions call events) :
    .skipped call position ∈ events ∨ Signalled events call position := by
  obtain ⟨event, member, passes⟩ := List.mem_filterMap.mp passed
  cases event with
  | skipped other index =>
      simp only [Event.passes, Option.ite_none_right_eq_some, Option.some.injEq] at passes
      obtain ⟨rfl, rfl⟩ := passes
      exact .inl member
  | signalled other index signal =>
      cases signal with
      | next =>
          simp only [Event.passes, Option.ite_none_right_eq_some, Option.some.injEq] at passes
          obtain ⟨rfl, rfl⟩ := passes
          exact .inr (.inl member)
      | callback result =>
          cases result with
          | Continue =>
              simp only [Event.passes, Option.ite_none_right_eq_some, Option.some.injEq] at passes
              obtain ⟨rfl, rfl⟩ := passes
              exact .inr (.inr member)
          | Stop | Error | Timeout => cases passes
  | _ => cases passes

/-- A skipped position has been claimed. -/
theorem Balanced.skipped_lt {events : List Event} {ledger : Ledger}
    (balanced : Balanced events ledger) {call : CallId} {position : Nat}
    (skipped : .skipped call position ∈ events) : position < ledger.index call := by
  have balance := balanced.balance call position
  have positive := List.count_pos_iff.mpr skipped
  simp only [settledCount] at balance
  split at balance
  · assumption
  · omega

/-- Distinct numbers below a bound, as many as there are, are all of them. -/
theorem mem_of_nodup_of_length {numbers : List Nat} {bound number : Nat}
    (nodup : numbers.Nodup) (below : ∀ other ∈ numbers, other < bound)
    (many : bound ≤ numbers.length) (within : number < bound) : number ∈ numbers := by
  have subset : numbers ⊆ List.range bound := fun other member =>
    List.mem_range.mpr (below other member)
  have perm : numbers.Perm (List.range bound) :=
    (List.subperm_of_subset nodup subset).perm_of_length_le (by simpa using many)
  exact perm.mem_iff.mpr (List.mem_range.mpr within)

/-- A run which is finished with `Continue` has passed every position of its
snapshot. -/
theorem finished_whole {program : Program γ} {before after : List Event} {world : World γ}
    {call : CallId} {message : String}
    (run : (system program).Runs (System.Guard.of continuesAtEnd)
      (before ++ .finished call (some (.Continue, message)) :: after) world)
    {mode : Mode} {size position : Nat} (registered : .registered call mode size ∈ before)
    (within : position < size) :
    .skipped call position ∈ before ∨
      .started call position ∈ before ∧ Signalled before call position := by
  obtain ⟨middle, choice, next, prior, moved, allowed⟩ := run.split
  have owed := run_owed prior
  have balanced := run_balanced prior
  obtain ⟨atEnd, distinct⟩ := Bool.and_eq_true_iff.mp
    (show (middle.chain.exhausted call &&
      decide (passedPositions call before).Nodup) = true from allowed)
  -- the index of the run is at the end of its snapshot
  have claimed : size ≤ middle.ledger.index call := by
    obtain ⟨view, found, -, rfl⟩ := (run_entered prior).found call mode size registered
    obtain ⟨entered, inside, rfl⟩ := Option.map_eq_some_iff.mp found
    have inside : middle.chain.run? call = some entered := inside
    have reaches : entered.pipeline.length ≤ entered.state.currentIndex := by
      simpa [Chain.exhausted, inside] using atEnd
    rwa [Ledger.index, found]
  -- the thread which completes the run has one step more than were claimed
  have ahead : 0 < middle.stepping call := by
    obtain ⟨index, thread, move, rfl, found, advanced, reported, -⟩ := step_reports program moved
    have completes : thread.control = .completeRun call .Continue message :=
      (advance_traced advanced).origin _ reported
    refine List.countP_pos_iff.mpr ⟨thread, List.mem_of_getElem? found, ?_⟩
    simp [Thread.steps, completes]
  have steps := owed.steps call
  have once := (trace_enters_once (run_trace prior) call).1
  rw [balanced.claims, List.length_range, countP_admits] at steps
  have below : ∀ other ∈ passedPositions call before, other < middle.ledger.index call := by
    intro other passed
    rcases mem_passedPositions passed with skipped | signalled
    · exact balanced.skipped_lt skipped
    · exact balanced.started_lt (signalled.elim (owed.signalled call other _)
        (owed.signalled call other _))
  have passed := mem_of_nodup_of_length (of_decide_eq_true distinct) below (by omega)
    (Nat.lt_of_lt_of_le within claimed)
  refine (mem_passedPositions passed).imp_right fun signalled => ⟨?_, signalled⟩
  exact signalled.elim (owed.signalled call position _) (owed.signalled call position _)

section Completion

variable {program : Program γ} {guard : System.Guard (World γ) Event} {events : List Event}
  {world : World γ}

/-- What a thread is about to unregister a run with, the run was finished with. -/
theorem run_announced (run : (system program).Runs guard events world) :
    ∀ thread ∈ world.threads, ∀ stage call completion after,
      thread.control = .finishing stage call completion after →
      .finished call completion ∈ events := by
  induction run with
  | initial valid =>
      obtain ⟨settings, stats, now, rfl⟩ := valid
      intro thread member
      cases member
  | @move events world choice event next prior moved _ inductionHypothesis =>
      intro thread member stage call completion after control
      by_cases own : ∃ index, choice = .thread index
      · obtain ⟨index, rfl⟩ := own
        obtain ⟨mover, move, found, advanced, rfl, rfl⟩ := step_thread program moved
        rcases List.mem_or_eq_of_mem_set member with old | rfl
        · exact List.mem_append_left _
            (inductionHypothesis thread old stage call completion after control)
        · have arrives := (advance_traced advanced).arrives
          rw [control] at arrives
          rcases arrives with finishes | ⟨earlier, rest, before⟩
          · simp [finishes]
          · exact List.mem_append_left _ (inductionHypothesis mover
              (List.mem_of_getElem? found) earlier call completion rest before)
      · obtain ⟨-, -, threads⟩ := environment_moves moved (not_exists.mp own)
        refine List.mem_append_left _ ?_
        rcases threads with same | ⟨new, grown, begun⟩
        · exact inductionHypothesis thread (same ▸ member) stage call completion after control
        · rw [grown] at member
          rcases List.mem_append.mp member with old | last
          · exact inductionHypothesis thread old stage call completion after control
          · obtain rfl := List.mem_singleton.mp last
            rcases begun with ⟨code, rfl⟩ | ⟨timer, rfl⟩ <;> cases control

/-- A run was entered before it was finished. -/
theorem registered_before_finish {before after : List Event} {call : CallId}
    {completion : Option (MiddlewareResult × String)}
    (run : (system program).Runs guard (before ++ .finished call completion :: after) world)
    {mode : Mode} {size : Nat}
    (registered : .registered call mode size ∈ before ++ .finished call completion :: after) :
    .registered call mode size ∈ before := by
  have whole := run_entered run
  obtain ⟨middle, choice, next, prior, moved, -⟩ := run.split
  obtain ⟨⟨view, found, -⟩, -⟩ := (refines program).event moved
  have entered := (run_entered prior).registered call view found
  obtain ⟨last, present, rfl, rfl⟩ := whole.found call mode size registered
  obtain ⟨same, again, sameMode, sameSize⟩ :=
    whole.found call _ _ (List.mem_append_left _ entered)
  cases present.symm.trans again
  rwa [sameMode, sameSize]

/-- **A run reported as `Continue` has run whole** in every run of the machine,
under every program and interleaving, in which `Continue` completes a run at the
end of its pipeline only, when no middleware has passed the run on twice. -/
theorem continues_whole
    (run : (system program).Runs (System.Guard.of continuesAtEnd) events world) :
    ContinuesWhole events := by
  rintro before call message after rfl mode size registered position within
  obtain ⟨middle, choice, next, prior, moved, -⟩ := run.split
  obtain ⟨index, thread, move, rfl, found, advanced, reported, -⟩ := step_reports program moved
  obtain ⟨stage, rest, control⟩ := (advance_traced advanced).origin _ reported
  have finished := run_announced prior thread (List.mem_of_getElem? found) stage call _ rest control
  -- what was passed when the run was finished is passed when it is reported
  obtain ⟨earlier, later, rfl⟩ := List.append_of_mem finished
  have entered := registered_before_finish prior registered
  refine (finished_whole prior entered within).imp (List.mem_append_left _) ?_
  rintro ⟨started, signalled⟩
  exact ⟨List.mem_append_left _ started,
    signalled.imp (List.mem_append_left _) (List.mem_append_left _)⟩

end Completion

/-- Two middlewares, the first of which signals at once, and the second from a
thread of its own. -/
theorem continues_whole_two_positions :
    ∃ reached, replay (Program.overriding fun mw handle =>
          if mw = 0 then .signal handle .Continue else .ret true)
        (System.Guard.of continuesAtEnd) (.plain [0, 1])
        (alone (.request ()) 16 ++ .spawn (.invoke (.next ⟨0, 1⟩) (.orThrow (.ret true))) ::
          List.replicate 7 (.thread 1)) = some reached ∧
      .unregistered 0 (some (.Continue, "")) ∈ reached.1 ∧ ContinuesWhole reached.1 :=
  replay_reaches rfl fun run => ⟨by decide, continues_whole run⟩

/-- A middleware which passes the run on twice over one which keeps it. -/
theorem continue_before_second_signals :
    ∃ reached, replay (Program.overriding fun mw handle =>
          if mw = 0 then .nextThenContinue handle else .ret true)
        System.anyMove (.plain [0, 1]) (alone (.request ()) 20) = some reached ∧
      ¬ ContinuesWhole reached.1 := by
  refine ⟨_, rfl, fun whole => ?_⟩
  have passed := whole
    [.registered 0 .async 2, .claimed 0 0, .started 0 0, .signalled 0 0 .next, .claimed 0 1,
      .started 0 1, .signalled 0 0 (.callback .Continue), .finished 0 (some (.Continue, ""))]
    0 "" [] rfl .async 2 (by decide) 1 (by omega)
  exact absurd passed (by decide)

end Foxhttp.Middleware
