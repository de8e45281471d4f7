import Foxhttp.Library.Transition

/-!
# Loops around a timer

A loop waits for a timer, makes a pass over something else and waits again, as long as
it is switched on. To wait cancels the wait before. A handler of a wait which is over
may run late, and behind a stop or a restart. The loop is never without a wait or a
handler while it is on, and makes no pass while it is off.
-/

namespace Foxhttp.Library

universe u v w

/-- A loop, over something else which it passes over. -/
structure Periodic (Rest : Type u) where
  rest : Rest
  now : Nat := 0
  running : Bool := false
  /-- When the pending wait is over. -/
  wait : Option Nat := none
  /-- When the waits were over whose handlers are still to run. -/
  due : List Nat := []

/-- What happens to a loop. -/
inductive PeriodicChoice (Act : Type v) (Input : Type w) where
  | tick (elapsed : Nat)
  /-- Something else happens to what the loop passes over. -/
  | act (act : Act)
  | start
  | stop
  /-- The wait is over, and its handler is queued. -/
  | expire
  /-- A handler runs, and reads an input. -/
  | handle (input : Input)

/-- What is seen of a loop. -/
inductive PeriodicEvent (Act : Type v) (Input : Type w) where
  | acted (act : Act)
  | started (now : Nat)
  | stopped
  | passed (now : Nat) (input : Input)

namespace Periodic

variable {Rest : Type u} {Act : Type v} {Input : Type w}

section Machine

variable (interval : Rest → Nat) (act : Rest → Act → Rest) (pass : Rest → Input → Rest)

/-- Wait for an interval. -/
def arm (loop : Periodic Rest) : Periodic Rest :=
  { loop with wait := some (loop.now + interval loop.rest) }

/-- What a loop makes of what happens to it. -/
def step (loop : Periodic Rest) :
    PeriodicChoice Act Input → Option (Option (PeriodicEvent Act Input) × Periodic Rest)
  | .tick elapsed => some (none, { loop with now := loop.now + elapsed })
  | .act request => some (some (.acted request), { loop with rest := act loop.rest request })
  | .start =>
      if loop.running then some (none, loop)
      else some (some (.started loop.now), arm interval { loop with running := true })
  | .stop =>
      if loop.running then some (some .stopped, { loop with running := false, wait := none })
      else some (none, loop)
  | .expire =>
      match loop.wait with
      | some deadline =>
          if deadline ≤ loop.now then
            some (none, { loop with wait := none, due := loop.due ++ [deadline] })
          else none
      | none => none
  | .handle input =>
      match loop.due with
      | _ :: due =>
          if loop.running then
            some (some (.passed loop.now input),
              arm interval { loop with rest := pass loop.rest input, due := due })
          else some (none, { loop with due := due })
      | [] => none

/-- Loops over what there is at first. -/
def system (Initially : Rest → Prop) :
    System (Periodic Rest) (PeriodicChoice Act Input) (PeriodicEvent Act Input) where
  Initial loop := ∃ rest, Initially rest ∧ loop = { rest := rest }
  step := step interval act pass

end Machine

/-- When the waits are over whose handlers have not run. -/
def deadlines (loop : Periodic Rest) : List Nat :=
  loop.due ++ loop.wait.toList

/-- No handler runs later than it may. -/
def OnTime (slack : Nat) (loop : Periodic Rest) : Prop :=
  ∀ deadline ∈ loop.deadlines, loop.now ≤ deadline + slack

instance (slack : Nat) (loop : Periodic Rest) : Decidable (loop.OnTime slack) :=
  inferInstanceAs (Decidable (∀ deadline ∈ loop.deadlines, loop.now ≤ deadline + slack))

/-- When the loop was started or passed last. -/
def lastTurn (events : List (PeriodicEvent Act Input)) : Option Nat :=
  (events.filterMap fun
    | .started now | .passed now _ => some now
    | .acted _ | .stopped => none).getLast?

/-- The last pass. -/
def lastPass (events : List (PeriodicEvent Act Input)) : Option (Nat × Input) :=
  (events.filterMap fun
    | .passed now input => some (now, input)
    | .started _ | .acted _ | .stopped => none).getLast?

/-- Whether the loop was started last, and not stopped. -/
def switchedOn (events : List (PeriodicEvent Act Input)) : Bool :=
  ((events.filterMap fun
    | .started _ => some true
    | .stopped => some false
    | .acted _ | .passed _ _ => none).getLast?).getD false

section Lemmas

variable (events : List (PeriodicEvent Act Input)) (now : Nat) (input : Input) (request : Act)

@[simp]
theorem lastTurn_started : lastTurn (events ++ [.started now]) = some now := by
  simp [lastTurn]

@[simp]
theorem lastTurn_passed : lastTurn (events ++ [.passed now input]) = some now := by
  simp [lastTurn]

@[simp]
theorem lastTurn_acted : lastTurn (events ++ [.acted request]) = lastTurn events := by
  simp [lastTurn]

@[simp]
theorem lastTurn_stopped : lastTurn (events ++ [.stopped]) = lastTurn events := by
  simp [lastTurn]

@[simp]
theorem lastPass_passed : lastPass (events ++ [.passed now input]) = some (now, input) := by
  simp [lastPass]

@[simp]
theorem lastPass_started : lastPass (events ++ [.started now]) = lastPass events := by
  simp [lastPass]

@[simp]
theorem lastPass_acted : lastPass (events ++ [.acted request]) = lastPass events := by
  simp [lastPass]

@[simp]
theorem lastPass_stopped : lastPass (events ++ [.stopped]) = lastPass events := by
  simp [lastPass]

@[simp]
theorem switchedOn_started : switchedOn (events ++ [.started now]) = true := by
  simp [switchedOn]

@[simp]
theorem switchedOn_stopped : switchedOn (events ++ [.stopped]) = false := by
  simp [switchedOn]

@[simp]
theorem switchedOn_acted : switchedOn (events ++ [.acted request]) = switchedOn events := by
  simp [switchedOn]

@[simp]
theorem switchedOn_passed : switchedOn (events ++ [.passed now input]) = switchedOn events := by
  simp [switchedOn]

end Lemmas

variable {interval : Rest → Nat} {act : Rest → Act → Rest} {pass : Rest → Input → Rest}
  {Initially : Rest → Prop} {most slack : Nat} {loop next : Periodic Rest}
  {event : Option (PeriodicEvent Act Input)} {events : List (PeriodicEvent Act Input)}
  {guard : System.Guard (Periodic Rest) (PeriodicEvent Act Input)}

/-! ## What a loop keeps -/

theorem running_step (switched : loop.running = switchedOn events)
    {choice : PeriodicChoice Act Input}
    (stepped : loop.step interval act pass choice = some (event, next)) :
    next.running = switchedOn (events ++ event.toList) := by
  cases choice with
  | tick elapsed =>
      cases stepped
      simpa using switched
  | act request =>
      cases stepped
      simpa using switched
  | start =>
      simp only [step] at stepped
      split at stepped <;> cases stepped
      · simpa using switched
      · simp [arm]
  | stop =>
      simp only [step] at stepped
      split at stepped <;> cases stepped
      · simp
      · simpa using switched
  | expire =>
      simp only [step] at stepped
      split at stepped
      · cases (Option.ite_none_right_eq_some.mp stepped).2
        simpa using switched
      · cases stepped
  | handle input =>
      simp only [step] at stepped
      split at stepped
      · split at stepped <;> cases stepped
        · simpa [arm] using switched
        · simpa using switched
      · cases stepped

theorem running_runs (run : (system interval act pass Initially).Runs guard events loop) :
    loop.running = switchedOn events := by
  induction run with
  | initial isInitial =>
      obtain ⟨rest, -, rfl⟩ := isInitial
      rfl
  | move _ stepped _ inductionHypothesis => exact running_step inductionHypothesis stepped

/-- **A loop which is off makes no pass**. -/
theorem switchedOn_of_pass {before after : List (PeriodicEvent Act Input)} {now : Nat}
    {input : Input} (run : (system interval act pass Initially).Runs guard
      (before ++ .passed now input :: after) loop) : switchedOn before = true := by
  obtain ⟨middle, choice, next, prior, stepped, -⟩ := run.split
  rw [← running_runs prior]
  cases choice with
  | tick | act => cases stepped
  | start | stop =>
      simp only [system, step] at stepped
      split at stepped <;> cases stepped
  | expire =>
      simp only [system, step] at stepped
      split at stepped
      · cases (Option.ite_none_right_eq_some.mp stepped).2
      · cases stepped
  | handle input =>
      simp only [system, step] at stepped
      split at stepped
      · split at stepped
        · assumption
        · cases stepped
      · cases stepped

/-- While the loop is on, a handler will run, at most an interval behind the last turn. -/
def GoesOn (most : Nat) (events : List (PeriodicEvent Act Input)) (loop : Periodic Rest) : Prop :=
  loop.running = true → ∃ turn, lastTurn events = some turn ∧
    ∃ deadline ∈ loop.deadlines, deadline ≤ turn + most

theorem GoesOn.step (goesOn : GoesOn most events loop) (here : interval loop.rest ≤ most)
    (kept : ∀ rest input, interval (pass rest input) = interval rest)
    {choice : PeriodicChoice Act Input}
    (stepped : loop.step interval act pass choice = some (event, next)) :
    GoesOn most (events ++ event.toList) next := by
  cases choice with
  | tick elapsed =>
      cases stepped
      rw [Option.toList_none, List.append_nil]
      exact goesOn
  | act request =>
      cases stepped
      intro running
      rw [Option.toList_some, lastTurn_acted]
      exact goesOn running
  | start =>
      simp only [Periodic.step] at stepped
      split at stepped <;> cases stepped
      · rw [Option.toList_none, List.append_nil]
        exact goesOn
      · intro _
        rw [Option.toList_some]
        exact ⟨loop.now, lastTurn_started _ _, _,
          List.mem_append_right _ (List.mem_singleton_self _), Nat.add_le_add_left here loop.now⟩
  | stop =>
      simp only [Periodic.step] at stepped
      split at stepped <;> cases stepped
      · exact fun running => by cases running
      · rw [Option.toList_none, List.append_nil]
        exact goesOn
  | expire =>
      simp only [Periodic.step] at stepped
      split at stepped
      · rename_i deadline waits
        cases (Option.ite_none_right_eq_some.mp stepped).2
        rw [Option.toList_none, List.append_nil]
        intro running
        obtain ⟨turn, isLast, other, isDeadline, atMost⟩ := goesOn running
        refine ⟨turn, isLast, other, ?_, atMost⟩
        simpa [deadlines, waits] using isDeadline
      · cases stepped
  | handle input =>
      simp only [Periodic.step] at stepped
      split at stepped
      · split at stepped <;> cases stepped
        · intro _
          rw [Option.toList_some]
          refine ⟨loop.now, lastTurn_passed _ _ _, _,
            List.mem_append_right _ (List.mem_singleton_self _), Nat.add_le_add_left ?_ loop.now⟩
          exact (kept loop.rest input).symm ▸ here
        · rename_i stopped
          exact fun running => absurd running stopped
      · cases stepped

/-- **A loop on time passes in time**: while it is on, its last turn is at most the
interval and the slack ago. -/
theorem turn_in_time (kept : ∀ rest input, interval (pass rest input) = interval rest)
    (short : ∀ events loop event, guard events loop event → interval loop.rest ≤ most)
    (run : (system interval act pass Initially).Runs guard events loop)
    (onTime : loop.OnTime slack) (running : loop.running = true) :
    ∃ turn, lastTurn events = some turn ∧ loop.now ≤ turn + most + slack := by
  have goesOn : GoesOn most events loop := by
    clear onTime running
    induction run with
    | initial isInitial =>
        obtain ⟨rest, -, rfl⟩ := isInitial
        exact fun running => by cases running
    | move _ stepped allowed inductionHypothesis =>
        exact inductionHypothesis.step (short _ _ _ allowed) kept stepped
  obtain ⟨turn, isLast, deadline, isDeadline, atMost⟩ := goesOn running
  have late := onTime deadline isDeadline
  exact ⟨turn, isLast, by omega⟩

end Periodic

end Foxhttp.Library
