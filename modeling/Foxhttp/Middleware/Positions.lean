import Foxhttp.Middleware.Refinement

/-!
# Every position is claimed and started once

The ledger balances: a claimed position is exactly one of started, skipped,
refused or still unsettled, and an unclaimed one is none of them. Claims come
in pipeline order because each takes the index the one before it left.
-/

namespace Foxhttp.Middleware

open Foxhttp.Library

/-- The position an event claims for a call. -/
def Event.claims (call : CallId) : Event → Option Nat
  | .claimed other position => if other = call then some position else none
  | _ => none

/-- The positions claimed for a call, in order. -/
def claimedPositions (call : CallId) (events : List Event) : List Nat :=
  events.filterMap (Event.claims call)

/-- How often the step of a position was settled, in any of the three ways. -/
def settledCount (call : CallId) (position : Nat) (events : List Event) : Nat :=
  events.count (.started call position) + events.count (.skipped call position) +
    events.count (.refused call position)

/-- How far a call has claimed its snapshot. -/
def Ledger.index (ledger : Ledger) (call : CallId) : Nat :=
  match ledger.runs call with
  | some view => view.currentIndex
  | none => 0

/-- The balance of the position ledger after some events. -/
structure Balanced (events : List Event) (ledger : Ledger) : Prop where
  claims : ∀ call, claimedPositions call events = List.range (ledger.index call)
  balance : ∀ call position,
    ledger.evaluating call position + settledCount call position events =
      if position < ledger.index call then 1 else 0

/-- A change of a view that keeps its index keeps every index. -/
theorem Ledger.index_modify (ledger : Ledger) (call other : CallId)
    {change : RunView → RunView} (same : ∀ view, (change view).currentIndex = view.currentIndex) :
    (ledger.modify call change).index other = ledger.index other := by
  simp only [Ledger.index, Ledger.modify]
  by_cases equal : other = call
  · subst equal
    cases ledger.runs other <;> simp [same]
  · simp [equal]

/-- An event that neither claims nor settles, and keeps every index, keeps the
balance. -/
theorem Balanced.other {events : List Event} {ledger : Ledger} {event : Event}
    (balanced : Balanced events ledger) {after : Ledger}
    (claims : ∀ call, event.claims call = none)
    (settles : ∀ call position, settledCount call position [event] = 0)
    (index : ∀ call, after.index call = ledger.index call)
    (evaluating : after.evaluating = ledger.evaluating) :
    Balanced (events ++ [event]) after where
  claims call := by
    rw [index, ← balanced.claims call, claimedPositions, List.filterMap_append]
    simp [claimedPositions, claims]
  balance call position := by
    have settled := settles call position
    have balance := balanced.balance call position
    simp only [settledCount, List.count_append] at settled balance ⊢
    rw [index, evaluating]
    omega

/-- Settling an unsettled step moves it to the other side of the balance. -/
theorem Balanced.settle {events : List Event} {ledger : Ledger} {event : Event}
    (balanced : Balanced events ledger) {call : CallId} {position : Nat}
    (unsettled : 0 < ledger.evaluating call position)
    (claims : ∀ other, event.claims other = none)
    (settles : ∀ other index, settledCount other index [event] =
      if other = call ∧ index = position then 1 else 0) :
    Balanced (events ++ [event]) (ledger.countAt call position (· - 1)) where
  claims other := by
    have same : (ledger.countAt call position (· - 1)).index other = ledger.index other := rfl
    rw [same, ← balanced.claims other, claimedPositions, List.filterMap_append]
    simp [claimedPositions, claims]
  balance other index := by
    have settled := settles other index
    have balance := balanced.balance other index
    have same : (ledger.countAt call position (· - 1)).index other = ledger.index other := rfl
    simp only [settledCount, List.count_append] at settled balance ⊢
    rw [same]
    by_cases equal : other = call ∧ index = position
    · obtain ⟨rfl, rfl⟩ := equal
      simp only [Ledger.countAt, and_self, if_true] at settled ⊢
      omega
    · simp only [Ledger.countAt, if_neg equal] at settled ⊢
      omega

/-- Claiming the next position adds one unsettled step at it. -/
theorem Balanced.claim {events : List Event} {ledger : Ledger} {call : CallId} {view : RunView}
    (balanced : Balanced events ledger) (found : ledger.runs call = some view) :
    Balanced (events ++ [.claimed call view.currentIndex])
      (ledger.apply (.claimed call view.currentIndex)) := by
  have index : ledger.index call = view.currentIndex := by simp [Ledger.index, found]
  have next : ∀ other, (ledger.apply (.claimed call view.currentIndex)).index other =
      if other = call then view.currentIndex + 1 else ledger.index other := by
    intro other
    by_cases equal : other = call
    · subst equal
      simp [Ledger.apply, Ledger.countAt, Ledger.modify, Ledger.index, found]
    · simp [Ledger.apply, Ledger.countAt, Ledger.modify, Ledger.index, equal]
  refine ⟨?_, ?_⟩
  · intro other
    have claims := balanced.claims other
    rw [next, claimedPositions, List.filterMap_append]
    by_cases equal : other = call
    · subst equal
      rw [index, claimedPositions] at claims
      simp [Event.claims, claims, List.range_succ]
    · have different : ¬ call = other := fun same => equal same.symm
      rw [claimedPositions] at claims
      simp [Event.claims, claims, equal, different]
  · intro other position
    have balance := balanced.balance other position
    have unsettled : settledCount other position (events ++ [.claimed call view.currentIndex]) =
        settledCount other position events := by
      simp [settledCount, List.count_append]
    have after : (ledger.apply (.claimed call view.currentIndex)).evaluating other position =
        if other = call ∧ position = view.currentIndex then
          ledger.evaluating call view.currentIndex + 1
        else ledger.evaluating other position := rfl
    rw [next, unsettled, after]
    by_cases same : other = call
    · subst same
      rw [index] at balance
      by_cases equal : position = view.currentIndex
      · subst equal
        simp only [and_self, if_true, Nat.lt_irrefl, if_false, Nat.lt_succ_self] at balance ⊢
        omega
      · simp only [equal, and_false, if_false, if_true, balance]
        split <;> split <;> omega
    · simp only [same, false_and, if_false]
      exact balance

/-- The ledger balances in every state of every trace. -/
theorem trace_balanced {guard : List Event → Ledger → Event → Prop} {events : List Event}
    {ledger : Ledger} (trace : ledgerSystem.Trace guard events ledger) :
    Balanced events ledger := by
  refine trace.invariant ?_ ?_
  · rintro ledger ⟨runs, -, -, evaluating, -⟩
    exact ⟨fun call => by simp [claimedPositions, Ledger.index, runs],
      fun call position => by simp [settledCount, Ledger.index, runs, evaluating]⟩
  · intro events ledger event prior balanced enabled _
    have entered := trace_entered prior
    cases event with
    | claimed call position =>
        obtain ⟨view, found, -, rfl⟩ := enabled
        exact balanced.claim found
    | started call position | skipped call position | refused call position =>
        refine balanced.settle enabled (fun _ => rfl) fun other index => ?_
        by_cases equal : other = call ∧ index = position
        · obtain ⟨rfl, rfl⟩ := equal
          simp [settledCount]
        · have different : ¬ (call = other ∧ position = index) :=
            fun same => equal ⟨same.1.symm, same.2.symm⟩
          simp [settledCount, equal, different]
    | registered call mode size =>
        obtain ⟨rfl, -⟩ := enabled
        refine balanced.other (fun _ => rfl) (fun _ _ => by simp [settledCount]) ?_ rfl
        intro other
        by_cases equal : other = ledger.count
        · subst equal
          simp [ledgerSystem, Ledger.apply, Ledger.index, RunView.entered,
            entered.fresh _ (Nat.le_refl _)]
        · simp [ledgerSystem, Ledger.apply, Ledger.index, equal]
    | timedOut call timer | cancelled call | finished call completion =>
        exact balanced.other (fun _ => rfl) (fun _ _ => by simp [settledCount])
          (fun other => ledger.index_modify call other fun _ => rfl) rfl
    | passed _ _ | unregistered _ _ | signalled _ _ _ | overtaken _ | paused _
    | errorHandled _ _ | timeoutHandled _ | responded _ =>
        exact balanced.other (fun _ => rfl) (fun _ _ => by simp [settledCount])
          (fun _ => rfl) rfl

/-- The books of every run balance. -/
theorem run_balanced {γ : Type} {program : Program γ} {guard : System.Guard (World γ) Event}
    {events : List Event} {world : World γ} (run : (system program).Runs guard events world) :
    Balanced events world.ledger :=
  trace_balanced (run_trace run)

/-- An unsettled step is an activation inside `should_execute` on some thread. -/
theorem exists_select {γ : Type} {world : World γ} {call : CallId} {position : Nat}
    (unsettled : 0 < world.evaluating call position) :
    ∃ thread ∈ world.threads, ∃ frame ∈ thread.stack, frame.selects call position = true := by
  obtain ⟨frame, member, selects⟩ := List.countP_pos_iff.mp unsettled
  obtain ⟨thread, inside, waiting⟩ := List.mem_flatMap.mp member
  exact ⟨thread, inside, frame, waiting, selects⟩

/-- **No position runs twice.** In every run, a snapshot position of a call is
started at most once, positions are claimed in pipeline order, and each position
below `current_index` was started, was skipped or refused by `should_execute`,
or is inside `should_execute` on some thread. -/
theorem positions_settled_once {γ : Type} {program : Program γ} {events : List Event}
    {world : World γ} (run : (system program).Runs System.anyMove events world)
    (call : CallId) (entered : Run) (found : world.chain.run? call = some entered) :
    (∀ position, events.count (.started call position) ≤ 1) ∧
    claimedPositions call events = List.range entered.state.currentIndex ∧
    (claimedPositions call events).Pairwise (· < ·) ∧
    ∀ position < entered.state.currentIndex,
      .started call position ∈ events ∨ .skipped call position ∈ events ∨
      .refused call position ∈ events ∨
      ∃ thread ∈ world.threads, ∃ frame ∈ thread.stack,
        frame.selects call position = true := by
  have balanced := run_balanced run
  have index : world.ledger.index call = entered.state.currentIndex := by
    simp [Ledger.index, World.ledger, Chain.ledger, found, Run.view]
  have claims := balanced.claims call
  rw [index] at claims
  refine ⟨fun position => ?_, claims, ?_, fun position below => ?_⟩
  · have balance := balanced.balance call position
    simp only [settledCount] at balance
    split at balance <;> omega
  · rw [claims]
    exact List.pairwise_lt_range
  · have balance := balanced.balance call position
    rw [index, if_pos below] at balance
    by_cases unsettled : 0 < world.evaluating call position
    · exact .inr (.inr (.inr (exists_select unsettled)))
    · have settled : 0 < settledCount call position events := by
        have zero : world.ledger.evaluating call position = 0 := by
          simpa [World.ledger, Chain.ledger] using unsettled
        omega
      simp only [settledCount] at settled
      by_cases started : .started call position ∈ events
      · exact .inl started
      · by_cases skipped : .skipped call position ∈ events
        · exact .inr (.inl skipped)
        · rw [List.count_eq_zero.mpr started, List.count_eq_zero.mpr skipped] at settled
          exact .inr (.inr (.inl (List.count_pos_iff.mp (by omega))))

/-- Four signals for two positions, each of which starts once. -/
theorem positions_settled_once_two_loggers :
    ∃ reached, replay (Program.overriding fun _ => .nextThenContinue) System.anyMove (.plain [0, 1])
        (alone (.request ()) 20) = some reached ∧
      reached.1.count (.started 0 1) = 1 ∧
      (∀ position, reached.1.count (.started 0 position) ≤ 1) ∧
      claimedPositions 0 reached.1 = [0, 1] :=
  replay_reaches rfl fun run => ⟨rfl, (positions_settled_once run 0 _ rfl).1, rfl⟩

end Foxhttp.Middleware
