/-!
# Labelled systems, guarded runs and refinement

A `System` moves by choices and may report one event for each move. `Runs`
collects the reported events and admits a guard on the moves, so a property of
all runs and a property of the runs whose moves meet a condition are the same
statement at two guards. An `EventSystem` is the abstract counterpart: its
moves are its events. `Refinement.trace` maps the runs of one to the traces of
the other.
-/

namespace Foxhttp.Library

universe u v w x y

/-- A system which moves by choices and reports at most one event for a move. -/
structure System (State : Type u) (Choice : Type v) (Event : Type w) where
  Initial : State → Prop
  step : State → Choice → Option (Option Event × State)

namespace System

variable {State : Type u} {Choice : Type v} {Event : Type w}

/-- A condition on a move: the events so far, the state before it and its event. -/
abbrev Guard (State : Type u) (Event : Type w) := List Event → State → Option Event → Prop

/-- The guard of an unconditional run. -/
def anyMove : Guard State Event := fun _ _ _ => True

instance (events : List Event) (state : State) (event : Option Event) :
    Decidable (anyMove events state event) :=
  inferInstanceAs (Decidable True)

/-- The guard a test decides. -/
def Guard.of (test : List Event → State → Option Event → Bool) : Guard State Event :=
  fun events state event => test events state event = true

instance (test : List Event → State → Option Event → Bool) (events : List Event) (state : State)
    (event : Option Event) : Decidable (Guard.of test events state event) :=
  inferInstanceAs (Decidable (test events state event = true))

/-- The finite runs from an initial state whose moves all meet `guard`, with
the events they reported. -/
inductive Runs (system : System State Choice Event) (guard : Guard State Event) :
    List Event → State → Prop where
  | initial {state} (valid : system.Initial state) : Runs system guard [] state
  | move {events state choice event next} (prior : Runs system guard events state)
      (transition : system.step state choice = some (event, next))
      (allowed : guard events state event) :
      Runs system guard (events ++ event.toList) next

variable {system : System State Choice Event} {guard : Guard State Event}

/-- What the initial states have and every allowed move preserves, every state
of a guarded run has. -/
theorem Runs.invariant {Inv : List Event → State → Prop}
    (initial : ∀ state, system.Initial state → Inv [] state)
    (preserved : ∀ {events state choice event next}, system.Runs guard events state →
      Inv events state → system.step state choice = some (event, next) →
      guard events state event → Inv (events ++ event.toList) next)
    {events : List Event} {state : State} (run : system.Runs guard events state) :
    Inv events state := by
  induction run with
  | initial valid => exact initial _ valid
  | move prior transition allowed inductionHypothesis =>
      exact preserved prior inductionHypothesis transition allowed

/-- A guarded run passes through every earlier event with the guard met there. -/
theorem Runs.split {before after : List Event} {event : Event} {state : State}
    (run : system.Runs guard (before ++ event :: after) state) :
    ∃ middle choice next, system.Runs guard before middle ∧
      system.step middle choice = some (some event, next) ∧ guard before middle (some event) := by
  generalize whole : before ++ event :: after = events at run
  induction run generalizing after with
  | initial valid => simp at whole
  | @move events current choice reported next prior transition allowed inductionHypothesis =>
      cases reported with
      | none => exact inductionHypothesis (by simpa using whole)
      | some last =>
          rcases List.eq_nil_or_concat after with rfl | ⟨front, final, rfl⟩
          · obtain ⟨rfl, tail⟩ := List.append_inj' whole rfl
            obtain rfl : event = last := by simpa using tail
            exact ⟨current, choice, next, prior, transition, allowed⟩
          · have shape : (before ++ event :: front) ++ [final] = events ++ [last] := by
              simpa [List.append_assoc] using whole
            exact inductionHypothesis (List.append_inj' shape rfl).1

/-- A guarded run is a run. -/
theorem Runs.unguarded {events : List Event} {state : State}
    (run : system.Runs guard events state) : system.Runs anyMove events state := by
  induction run with
  | initial valid => exact .initial valid
  | move _ transition _ inductionHypothesis => exact .move inductionHypothesis transition trivial

/-- Follow a list of choices while the guard is met, collecting the events. -/
def follow (system : System State Choice Event) (guard : Guard State Event)
    [∀ events state event, Decidable (guard events state event)] :
    List Event → State → List Choice → Option (List Event × State)
  | events, state, [] => some (events, state)
  | events, state, choice :: rest =>
      match system.step state choice with
      | some (event, next) =>
          if guard events state event then
            follow system guard (events ++ event.toList) next rest
          else none
      | none => none

theorem follow_cons [∀ events state event, Decidable (guard events state event)]
    {events : List Event} {state next : State} {choice : Choice} {event : Option Event}
    (transition : system.step state choice = some (event, next))
    (allowed : guard events state event) (rest : List Choice) :
    system.follow guard events state (choice :: rest) =
      system.follow guard (events ++ event.toList) next rest := by
  simp only [System.follow, transition, if_pos allowed]

/-- What `follow` computes from a run is a run. -/
theorem Runs.follow [∀ events state event, Decidable (guard events state event)]
    {events : List Event} {state : State} (run : system.Runs guard events state)
    {choices : List Choice} {reached : List Event × State}
    (ends : system.follow guard events state choices = some reached) :
    system.Runs guard reached.1 reached.2 := by
  induction choices generalizing events state with
  | nil =>
      cases ends
      exact run
  | cons choice rest inductionHypothesis =>
      simp only [System.follow] at ends
      split at ends
      · rename_i event next transition
        split at ends
        · rename_i allowed
          exact inductionHypothesis (.move run transition allowed) ends
        · cases ends
      · cases ends

/-- Show something of where choices lead from the run to there. -/
theorem Runs.reaches [∀ events state event, Decidable (guard events state event)]
    {events : List Event} {state : State} (run : system.Runs guard events state)
    {choices : List Choice} {reached : List Event × State}
    {property : List Event × State → Prop}
    (ends : system.follow guard events state choices = some reached)
    (holds : system.Runs guard reached.1 reached.2 → property reached) :
    ∃ reached, system.follow guard events state choices = some reached ∧ property reached :=
  ⟨reached, ends, holds (run.follow ends)⟩

/-- What holds right behind an event and is preserved by every move, holds of all
that follows the event. -/
theorem Runs.behind {mark : Event} {before : List Event} {Inv : List Event → State → Prop}
    (marked : ∀ {state choice next}, system.Runs guard before state →
      system.step state choice = some (some mark, next) → Inv [] next)
    (preserved : ∀ {after state choice event next}, Inv after state →
      system.step state choice = some (event, next) → Inv (after ++ event.toList) next)
    {after : List Event} {state : State}
    (run : system.Runs guard (before ++ mark :: after) state) : Inv after state := by
  generalize whole : before ++ mark :: after = events at run
  induction run generalizing after with
  | initial valid => simp at whole
  | @move events current choice event next prior transition allowed inductionHypothesis =>
      cases event with
      | none =>
          have kept := preserved (inductionHypothesis (by simpa using whole)) transition
          simpa using kept
      | some last =>
          rcases List.eq_nil_or_concat after with rfl | ⟨front, final, rfl⟩
          · obtain ⟨rfl, isLast⟩ := List.append_inj' whole rfl
            cases List.singleton_inj.mp isLast
            exact marked prior transition
          · have shape : (before ++ mark :: front) ++ [final] = events ++ [last] := by
              simpa [List.append_assoc] using whole
            obtain ⟨same, isLast⟩ := List.append_inj' shape rfl
            cases List.singleton_inj.mp isLast
            rw [List.concat_eq_append]
            exact preserved (inductionHypothesis same) transition

/-- A relation in which every move is matched by one with the same event, or
reports nothing and needs no match, takes runs to runs with the same events. -/
theorem Runs.simulated {Other : Type x} {Move : Type y} {abstract : System Other Move Event}
    {related : State → Other → Prop}
    (initial : ∀ state, system.Initial state →
      ∃ other, abstract.Initial other ∧ related state other)
    (matched : ∀ {state other choice event next}, related state other →
      system.step state choice = some (event, next) →
      (event = none ∧ related next other) ∨
        ∃ move after, abstract.step other move = some (event, after) ∧ related next after)
    {events : List Event} {state : State} (run : system.Runs guard events state) :
    ∃ other, abstract.Runs anyMove events other ∧ related state other := by
  induction run with
  | initial valid =>
      obtain ⟨other, isInitial, relates⟩ := initial _ valid
      exact ⟨other, .initial isInitial, relates⟩
  | move _ transition _ inductionHypothesis =>
      obtain ⟨other, run, relates⟩ := inductionHypothesis
      rcases matched relates transition with ⟨rfl, still⟩ | ⟨move, after, moves, still⟩
      · exact ⟨other, by simpa using run, still⟩
      · exact ⟨after, .move run moves trivial, still⟩

/-! ### Recorded runs -/

/-- A move with the states around it. -/
structure Moved (State : Type u) (Choice : Type v) (Event : Type w) where
  before : State
  choice : Choice
  event : Option Event
  after : State

/-- The system which reports each of its moves. -/
def recorded (system : System State Choice Event) :
    System State Choice (Moved State Choice Event) where
  Initial := system.Initial
  step state choice :=
    (system.step state choice).map fun taken => (some ⟨state, choice, taken.1, taken.2⟩, taken.2)

theorem recorded_step {state next : State} {choice : Choice}
    {moved : Option (Moved State Choice Event)}
    (transition : system.recorded.step state choice = some (moved, next)) :
    ∃ event, system.step state choice = some (event, next) ∧
      moved = some ⟨state, choice, event, next⟩ := by
  obtain ⟨⟨event, after⟩, taken, same⟩ := Option.map_eq_some_iff.mp transition
  cases same
  exact ⟨event, taken, rfl⟩

/-- What a recorded run reports are moves of the system. -/
theorem Runs.of_mem {guard : Guard State (Moved State Choice Event)}
    {history : List (Moved State Choice Event)} {state : State}
    (run : system.recorded.Runs guard history state) {moved : Moved State Choice Event}
    (member : moved ∈ history) :
    system.step moved.before moved.choice = some (moved.event, moved.after) := by
  induction run with
  | initial _ => cases member
  | move _ transition _ inductionHypothesis =>
      obtain ⟨event, taken, rfl⟩ := recorded_step transition
      rcases List.mem_append.mp member with earlier | isLast
      · exact inductionHypothesis earlier
      · cases List.mem_singleton.mp isLast
        exact taken

/-- A recorded run is a run with the events its moves reported. -/
theorem Runs.reported {guard : Guard State (Moved State Choice Event)}
    {history : List (Moved State Choice Event)} {state : State}
    (run : system.recorded.Runs guard history state) :
    system.Runs anyMove (history.filterMap (·.event)) state := by
  induction run with
  | initial valid => exact .initial valid
  | @move history state choice moved next _ transition _ inductionHypothesis =>
      obtain ⟨event, taken, rfl⟩ := recorded_step transition
      have same : (history ++ [(⟨state, choice, event, next⟩ : Moved State Choice Event)]).filterMap
          (·.event) = history.filterMap (·.event) ++ event.toList := by
        cases event <;> simp
      exact same ▸ .move inductionHypothesis taken trivial

/-- A recorded run is a run. -/
theorem Runs.unrecorded {guard : Guard State (Moved State Choice Event)}
    {history : List (Moved State Choice Event)} {state : State}
    (run : system.recorded.Runs guard history state) :
    ∃ events, system.Runs anyMove events state :=
  ⟨_, run.reported⟩

end System

/-! ## A deterministic machine on its own -/

/-- The finite walks of a deterministic machine, with the events they report. -/
inductive Walk {State : Type u} {Event : Type w} (step : State → Option (Option Event × State)) :
    State → List Event → State → Prop where
  | done {state} : Walk step state [] state
  | move {state event middle events last} (moved : step state = some (event, middle))
      (rest : Walk step middle events last) : Walk step state (event.toList ++ events) last

namespace Walk

variable {State : Type u} {Event : Type w} {step : State → Option (Option Event × State)}

theorem trans {start middle last : State} {events more : List Event}
    (first : Walk step start events middle) (second : Walk step middle more last) :
    Walk step start (events ++ more) last := by
  induction first with
  | done => exact second
  | move moved _ inductionHypothesis =>
      rw [List.append_assoc]
      exact .move moved (inductionHypothesis second)

theorem silent {start middle last : State} {events : List Event}
    (moved : step start = some (none, middle)) (rest : Walk step middle events last) :
    Walk step start events last :=
  .move moved rest

/-- All walks to a state without a move report the same events and end in the
same state. -/
theorem end_unique {start last other : State} {events others : List Event}
    (one : Walk step start events last) (two : Walk step start others other)
    (stopped : step last = none) (halted : step other = none) :
    events = others ∧ last = other := by
  induction one generalizing others with
  | done =>
      cases two with
      | done => exact ⟨rfl, rfl⟩
      | move moved _ =>
          rw [stopped] at moved
          cases moved
  | move moved _ inductionHypothesis =>
      cases two with
      | done =>
          rw [halted] at moved
          cases moved
      | move again rest =>
          rw [moved] at again
          cases again
          obtain ⟨rfl, same⟩ := inductionHypothesis rest stopped
          exact ⟨rfl, same⟩

end Walk

/-- A system whose moves are its events. -/
structure EventSystem (State : Type u) (Event : Type w) where
  Initial : State → Prop
  Enabled : State → Event → Prop
  apply : State → Event → State

namespace EventSystem

variable {State : Type u} {Event : Type w}

/-- The finite traces of an event system, from an initial state. A `guard`
constrains each event by the events and the state before it. -/
inductive Trace (system : EventSystem State Event) (guard : List Event → State → Event → Prop) :
    List Event → State → Prop where
  | initial {state} (valid : system.Initial state) : Trace system guard [] state
  | event {events state event} (prior : Trace system guard events state)
      (enabled : system.Enabled state event) (allowed : guard events state event) :
      Trace system guard (events ++ [event]) (system.apply state event)

variable {system : EventSystem State Event} {guard : List Event → State → Event → Prop}

/-- What the initial states have and every allowed event preserves, every
state of a trace has. -/
theorem Trace.invariant {Inv : List Event → State → Prop}
    (initial : ∀ state, system.Initial state → Inv [] state)
    (preserved : ∀ {events state event}, system.Trace guard events state →
      Inv events state → system.Enabled state event → guard events state event →
      Inv (events ++ [event]) (system.apply state event))
    {events : List Event} {state : State} (trace : system.Trace guard events state) :
    Inv events state := by
  induction trace with
  | initial valid => exact initial _ valid
  | event prior enabled allowed inductionHypothesis =>
      exact preserved prior inductionHypothesis enabled allowed

/-- A guarded trace passes through every earlier event with the guard met
there. -/
theorem Trace.split {before after : List Event} {event : Event} {state : State}
    (trace : system.Trace guard (before ++ event :: after) state) :
    ∃ middle, system.Trace guard before middle ∧ system.Enabled middle event ∧
      guard before middle event := by
  generalize whole : before ++ event :: after = events at trace
  induction trace generalizing after with
  | initial valid => simp at whole
  | @event events current last prior enabled allowed inductionHypothesis =>
      rcases List.eq_nil_or_concat after with rfl | ⟨front, final, rfl⟩
      · have same := List.append_inj' whole rfl
        obtain ⟨rfl, tail⟩ := same
        obtain rfl : event = last := by simpa using tail
        exact ⟨current, prior, enabled, allowed⟩
      · have shape : (before ++ event :: front) ++ [final] = events ++ [last] := by
          simpa [List.append_assoc] using whole
        exact inductionHypothesis (List.append_inj' shape rfl).1

end EventSystem

/-- A concrete system refines an event system through `view`: a silent move
keeps the view, a reported event is enabled and moves the view. -/
structure Refinement {State : Type u} {Choice : Type v} {Event : Type w} {Abstract : Type x}
    (concrete : System State Choice Event) (abstract : EventSystem Abstract Event)
    (view : State → Abstract) : Prop where
  initial : ∀ state, concrete.Initial state → abstract.Initial (view state)
  silent : ∀ {state choice next}, concrete.step state choice = some (none, next) →
    view next = view state
  event : ∀ {state choice event next}, concrete.step state choice = some (some event, next) →
    abstract.Enabled (view state) event ∧ view next = abstract.apply (view state) event

/-- Every guarded run of a refining system is a trace of the abstract one,
under every abstract guard which the concrete one implies. -/
theorem Refinement.trace {State : Type u} {Choice : Type v} {Event : Type w} {Abstract : Type x}
    {concrete : System State Choice Event} {abstract : EventSystem Abstract Event}
    {view : State → Abstract} (refinement : Refinement concrete abstract view)
    {guard : System.Guard State Event} {abstractGuard : List Event → Abstract → Event → Prop}
    (implies : ∀ events state event, guard events state (some event) →
      abstractGuard events (view state) event)
    {events : List Event} {state : State} (run : concrete.Runs guard events state) :
    abstract.Trace abstractGuard events (view state) := by
  induction run with
  | initial valid => exact .initial (refinement.initial _ valid)
  | @move events state choice event next prior transition allowed inductionHypothesis =>
      cases event with
      | none =>
          rw [refinement.silent transition]
          simpa using inductionHypothesis
      | some event =>
          obtain ⟨enabled, moved⟩ := refinement.event transition
          rw [moved]
          exact .event inductionHypothesis enabled (implies _ _ _ allowed)

end Foxhttp.Library
