import Foxhttp.Middleware.Chain

/-!
# The position ledger

What the chain keeps books on, apart from what its middlewares do: which runs
are active, how far each has claimed its snapshot, which flags are set, how many
steps are between claiming a position and settling it, and how many threads are
between finishing a run and unregistering it. The ledger moves by
the events of the chain alone; `refines` shows that every run of the machine is
a trace of it, so what holds of all ledger traces holds of the code under every
program, thread schedule and timer order.
-/

namespace Foxhttp.Middleware

open Foxhttp.Library

/-- The part of a run the books are about. -/
@[ext]
structure RunView where
  mode : Mode
  size : Nat
  currentIndex : Nat
  cancelled : Bool
  timedOut : Bool
  finished : Bool
  deriving DecidableEq, Repr

/-- The view of a run that was just entered. -/
def RunView.entered (mode : Mode) (size : Nat) : RunView where
  mode := mode
  size := size
  currentIndex := 0
  cancelled := false
  timedOut := false
  finished := false

/-- A run as the ledger sees it. -/
def Run.view (run : Run) : RunView where
  mode := run.mode
  size := run.pipeline.length
  currentIndex := run.state.currentIndex
  cancelled := run.state.cancelled
  timedOut := run.state.timedOut
  finished := run.state.finished

/-- What threads are in the middle of. -/
structure Unsettled where
  /-- How many steps have claimed this position and not settled it. -/
  evaluating : CallId → Nat → Nat
  /-- How many threads have finished this run and not unregistered it. -/
  finishing : CallId → Nat

/-- The books of a chain. -/
@[ext]
structure Ledger where
  runs : CallId → Option RunView
  count : Nat
  paused : Bool
  activeRuns : List CallId
  evaluating : CallId → Nat → Nat
  finishing : CallId → Nat

namespace Ledger

/-- A run the guard of either driver would let go on. -/
def Open (ledger : Ledger) (view : RunView) : Prop :=
  view.cancelled = false ∧ view.timedOut = false ∧ ledger.paused = false ∧
    view.currentIndex < view.size

/-- Change the view of one run. -/
def modify (ledger : Ledger) (call : CallId) (change : RunView → RunView) : Ledger :=
  { ledger with runs := fun other =>
      if other = call then (ledger.runs call).map change else ledger.runs other }

/-- Change the number of unsettled steps at one position. -/
def countAt (ledger : Ledger) (call : CallId) (position : Nat) (change : Nat → Nat) : Ledger :=
  { ledger with evaluating := fun other index =>
      if other = call ∧ index = position then change (ledger.evaluating call position)
      else ledger.evaluating other index }

/-- Change the number of threads which are finishing one run. -/
def countFinishing (ledger : Ledger) (call : CallId) (change : Nat → Nat) : Ledger :=
  { ledger with finishing := fun other =>
      if other = call then change (ledger.finishing call) else ledger.finishing other }

/-- When an event can happen. -/
def Enabled (ledger : Ledger) : Event → Prop
  | .registered call _ size => call = ledger.count ∧ 0 < size
  | .passed call _ => call = ledger.count
  | .claimed call position =>
      ∃ view, ledger.runs call = some view ∧ ledger.Open view ∧ position = view.currentIndex
  | .skipped call position => 0 < ledger.evaluating call position
  | .refused call position => 0 < ledger.evaluating call position
  | .started call position => 0 < ledger.evaluating call position
  | .timedOut call _ => ∃ view, ledger.runs call = some view ∧ view.timedOut = false
  | .finished call _ => ∃ view, ledger.runs call = some view ∧ view.finished = false
  | .unregistered call _ => 0 < ledger.finishing call
  | _ => True

/-- What an event does to the books. -/
def apply (ledger : Ledger) : Event → Ledger
  | .registered call mode size =>
      { ledger with
        runs := fun other =>
          if other = call then some (.entered mode size) else ledger.runs other
        count := ledger.count + 1
        activeRuns := ledger.activeRuns ++ [call] }
  | .passed _ _ => { ledger with count := ledger.count + 1 }
  | .claimed call position =>
      (ledger.modify call fun view => { view with currentIndex := view.currentIndex + 1 }).countAt
        call position (· + 1)
  | .skipped call position => ledger.countAt call position (· - 1)
  | .refused call position => ledger.countAt call position (· - 1)
  | .started call position => ledger.countAt call position (· - 1)
  | .timedOut call _ => ledger.modify call fun view => { view with timedOut := true }
  | .cancelled call => ledger.modify call fun view => { view with cancelled := true }
  | .finished call _ =>
      (ledger.modify call fun view => { view with finished := true }).countFinishing call (· + 1)
  | .unregistered call _ =>
      { ledger.countFinishing call (· - 1) with
        activeRuns := ledger.activeRuns.filter (· != call) }
  | .paused value => { ledger with paused := value }
  | _ => ledger

/-- Count what further threads are in the middle of on top of a ledger. -/
def plus (ledger : Ledger) (more : Unsettled) : Ledger :=
  { ledger with
    evaluating := fun call position =>
      ledger.evaluating call position + more.evaluating call position
    finishing := fun call => ledger.finishing call + more.finishing call }

/-- An event stays enabled when other threads are in the middle of something too. -/
theorem Enabled.plus {ledger : Ledger} {event : Event} (enabled : ledger.Enabled event)
    (more : Unsettled) : (ledger.plus more).Enabled event := by
  cases event <;> simp only [Enabled, Ledger.plus, Open] at enabled ⊢ <;>
    first
      | exact enabled
      | exact Nat.lt_of_lt_of_le enabled (Nat.le_add_right _ _)

/-- What other threads are in the middle of does not matter to what an event
changes. -/
theorem apply_plus {ledger : Ledger} {event : Event} (enabled : ledger.Enabled event)
    (more : Unsettled) :
    (ledger.plus more).apply event = (ledger.apply event).plus more := by
  cases event <;> simp only [apply, Ledger.plus, modify, countAt, countFinishing,
    Ledger.mk.injEq, true_and, and_true, Enabled] at enabled ⊢
  case finished | unregistered =>
    funext call
    split
    · rename_i same
      subst same
      omega
    · rfl
  all_goals
    funext call position
    split
    · rename_i same
      obtain ⟨rfl, rfl⟩ := same
      omega
    · rfl

end Ledger

/-- The position ledger as an event system. -/
def ledgerSystem : EventSystem Ledger Event where
  Initial ledger :=
    (∀ call, ledger.runs call = none) ∧ ledger.count = 0 ∧ ledger.activeRuns = [] ∧
      (∀ call position, ledger.evaluating call position = 0) ∧
      ∀ call, ledger.finishing call = 0
  Enabled := Ledger.Enabled
  apply := Ledger.apply

/-! ## What an event can do to a run -/

/-- How the view of a run may move: its snapshot is fixed, its index and its
flags only go up. -/
structure RunView.Grows (before after : RunView) : Prop where
  mode : after.mode = before.mode
  size : after.size = before.size
  currentIndex : before.currentIndex ≤ after.currentIndex
  cancelled : before.cancelled = true → after.cancelled = true
  timedOut : before.timedOut = true → after.timedOut = true
  finished : before.finished = true → after.finished = true

theorem RunView.Grows.refl (view : RunView) : view.Grows view :=
  ⟨rfl, rfl, Nat.le_refl _, id, id, id⟩

/-- What an event does to the view of a run that is there already. -/
def Event.onView (call : CallId) : Event → RunView → RunView
  | .claimed other _, view =>
      if call = other then { view with currentIndex := view.currentIndex + 1 } else view
  | .timedOut other _, view => if call = other then { view with timedOut := true } else view
  | .cancelled other, view => if call = other then { view with cancelled := true } else view
  | .finished other _, view => if call = other then { view with finished := true } else view
  | _, view => view

theorem Event.onView_grows (event : Event) (call : CallId) (view : RunView) :
    view.Grows (event.onView call view) := by
  cases event with
  | claimed other _ | timedOut other _ | cancelled other | finished other _ =>
      simp only [Event.onView]
      split
      · exact ⟨rfl, rfl, by simp, by simp, by simp, by simp⟩
      · exact .refl view
  | _ => exact .refl view

namespace Ledger

/-- The runs after a change of one run's view. -/
theorem runs_modify (ledger : Ledger) (call : CallId) (change : RunView → RunView)
    (other : CallId) :
    (ledger.modify call change).runs other =
      (ledger.runs other).map fun view => if other = call then change view else view := by
  unfold modify
  by_cases equal : other = call
  · subst equal
    simp
  · simp [equal]

/-- An event that registers nothing updates the views. -/
theorem runs_apply_of_not_registered (ledger : Ledger) {event : Event} {call : CallId}
    (other : ∀ mode size, event ≠ .registered call mode size) :
    (ledger.apply event).runs call = (ledger.runs call).map (event.onView call) := by
  cases event with
  | registered target mode size =>
      have different : ¬ call = target := fun equal => other mode size (equal ▸ rfl)
      simp only [apply, if_neg different]
      exact Option.map_id'.symm
  | claimed target _ | timedOut target _ | cancelled target | finished target _ =>
      exact ledger.runs_modify target _ call
  | _ => exact Option.map_id'.symm

/-- After an event, a run is an earlier one updated, or it was just registered. -/
theorem runs_apply {ledger : Ledger} {event : Event} {call : CallId} {after : RunView}
    (found : (ledger.apply event).runs call = some after) :
    (∃ before, ledger.runs call = some before ∧ after = event.onView call before) ∨
      ∃ mode size, event = .registered call mode size ∧ after = .entered mode size := by
  by_cases enters : ∃ mode size, event = .registered call mode size
  · obtain ⟨mode, size, rfl⟩ := enters
    simp only [apply, if_true, Option.some.injEq] at found
    exact .inr ⟨mode, size, rfl, found.symm⟩
  · have other : ∀ mode size, event ≠ .registered call mode size :=
      fun mode size equal => enters ⟨mode, size, equal⟩
    rw [ledger.runs_apply_of_not_registered other] at found
    obtain ⟨before, earlier, rfl⟩ := Option.map_eq_some_iff.mp found
    exact .inl ⟨before, earlier, rfl⟩

/-- Only a claim adds an unsettled step. -/
theorem evaluating_apply {ledger : Ledger} {event : Event} {call : CallId} {position : Nat}
    (other : ∀ index, event ≠ .claimed call index) :
    (ledger.apply event).evaluating call position ≤ ledger.evaluating call position := by
  cases event with
  | claimed target index =>
      have different : ¬ call = target := fun equal => other index (equal ▸ rfl)
      simp [apply, countAt, modify, different]
  | started target index | skipped target index | refused target index =>
      simp only [apply, countAt]
      split
      · rename_i same
        rw [same.1, same.2]
        exact Nat.sub_le _ _
      · exact Nat.le_refl _
  | _ => exact Nat.le_refl _

/-- Only the finish of a run adds a thread which is about to unregister it. -/
theorem finishing_apply {ledger : Ledger} {event : Event} {call : CallId}
    (other : ∀ completion, event ≠ .finished call completion) :
    (ledger.apply event).finishing call ≤ ledger.finishing call := by
  cases event with
  | finished target completion =>
      have different : ¬ call = target := fun equal => other completion (equal ▸ rfl)
      simp [apply, countFinishing, modify, different]
  | unregistered target completion =>
      simp only [apply, countFinishing]
      split
      · rename_i same
        rw [same]
        exact Nat.sub_le _ _
      · exact Nat.le_refl _
  | _ => exact Nat.le_refl _

end Ledger

/-- What every trace keeps: calls are numbered in order, and the runs are the
registered ones, with the mode and the size they were registered with. -/
structure Entered (events : List Event) (ledger : Ledger) : Prop where
  fresh : ∀ call, ledger.count ≤ call → ledger.runs call = none
  registered : ∀ call view, ledger.runs call = some view →
    .registered call view.mode view.size ∈ events
  found : ∀ call mode size, .registered call mode size ∈ events →
    ∃ view, ledger.runs call = some view ∧ view.mode = mode ∧ view.size = size

/-- A call with a run has been numbered. -/
theorem Entered.known {events : List Event} {ledger : Ledger} (entered : Entered events ledger)
    {call : CallId} {view : RunView} (found : ledger.runs call = some view) :
    call < ledger.count := by
  rcases Nat.lt_or_ge call ledger.count with known | beyond
  · exact known
  · rw [entered.fresh call beyond] at found
    cases found

/-- A call is registered in one mode. -/
theorem Entered.mode_unique {events : List Event} {ledger : Ledger}
    (entered : Entered events ledger) {call : CallId} {mode other : Mode} {size length : Nat}
    (registered : .registered call mode size ∈ events)
    (again : .registered call other length ∈ events) : mode = other := by
  obtain ⟨view, found, rfl, -⟩ := entered.found call mode size registered
  obtain ⟨same, present, rfl, -⟩ := entered.found call other length again
  rw [found] at present
  cases present
  rfl

/-- A run survives every event, updated. -/
theorem Entered.survives {events : List Event} {ledger : Ledger} {event : Event}
    (entered : Entered events ledger) (enabled : ledger.Enabled event) {call : CallId}
    {view : RunView} (found : ledger.runs call = some view) :
    (ledger.apply event).runs call = some (event.onView call view) := by
  rw [ledger.runs_apply_of_not_registered, found, Option.map_some]
  rintro mode size rfl
  obtain ⟨rfl, -⟩ := enabled
  exact Nat.lt_irrefl _ (entered.known found)

/-- An event numbers no call ahead of the count. -/
theorem Entered.fresh_apply {events : List Event} {ledger : Ledger} {event : Event}
    (entered : Entered events ledger) (enabled : ledger.Enabled event) {call : CallId}
    (beyond : (ledger.apply event).count ≤ call) :
    ledger.count ≤ call ∧ (ledger.apply event).runs call = none := by
  have below : ledger.count ≤ call := by
    cases event with
    | registered other mode size | passed other completion =>
        exact Nat.le_trans (Nat.le_succ _) beyond
    | _ => exact beyond
  refine ⟨below, ?_⟩
  cases found : (ledger.apply event).runs call with
  | none => rfl
  | some after =>
      exfalso
      rcases Ledger.runs_apply found with ⟨before, earlier, -⟩ | ⟨mode, size, rfl, -⟩
      · rw [entered.fresh call below] at earlier
        cases earlier
      · obtain ⟨rfl, -⟩ := enabled
        exact Nat.not_succ_le_self _ beyond

theorem trace_entered {guard : List Event → Ledger → Event → Prop} {events : List Event}
    {ledger : Ledger} (trace : ledgerSystem.Trace guard events ledger) :
    Entered events ledger := by
  refine trace.invariant ?_ ?_
  · rintro ledger ⟨runs, -, -, -⟩
    exact ⟨fun call _ => runs call, fun call view found => by simp [runs] at found,
      fun _ _ _ member => by simp at member⟩
  · intro events ledger event _ entered enabled _
    refine ⟨fun call beyond => (entered.fresh_apply enabled beyond).2, ?_, ?_⟩
    · intro call view found
      rcases Ledger.runs_apply found with ⟨before, earlier, rfl⟩ | ⟨mode, size, rfl, rfl⟩
      · have grows := event.onView_grows call before
        rw [grows.mode, grows.size]
        exact List.mem_append_left _ (entered.registered call before earlier)
      · exact List.mem_append_right _ (List.mem_singleton.mpr rfl)
    · intro call mode size member
      rcases List.mem_append.mp member with earlier | last
      · obtain ⟨before, found, rfl, rfl⟩ := entered.found call mode size earlier
        have grows := event.onView_grows call before
        exact ⟨_, entered.survives enabled found, grows.mode, grows.size⟩
      · obtain rfl := List.mem_singleton.mp last
        exact ⟨.entered mode size, by simp [ledgerSystem, Ledger.apply], rfl, rfl⟩

/-! ## The books of the machine -/

variable {γ : Type}

/-- The books of a chain whose threads are in the middle of this. -/
def Chain.ledger (chain : Chain γ) (unsettled : Unsettled) : Ledger where
  runs call := (chain.run? call).map Run.view
  count := chain.calls.length
  paused := chain.paused
  activeRuns := chain.activeRuns
  evaluating := unsettled.evaluating
  finishing := unsettled.finishing

/-- An activation inside `should_execute` of a position. -/
def Frame.selects (call : CallId) (position : Nat) : Frame γ → Bool
  | .asyncSelect other index => other == call && index == position
  | .syncSelect other index => other == call && index == position
  | _ => false

/-- The unsettled steps of a stack. -/
def evaluatingOn (stack : List (Frame γ)) (call : CallId) (position : Nat) : Nat :=
  stack.countP (Frame.selects call position)

/-- The run which a thread has finished and is about to unregister. -/
def Control.finishes? : Control γ → Option CallId
  | .finishing _ call _ _ => some call
  | _ => none

/-- What a thread is in the middle of. -/
def Thread.unsettled (thread : Thread γ) : Unsettled where
  evaluating := evaluatingOn thread.stack
  finishing call := if thread.control.finishes? = some call then 1 else 0

/-- The unsettled steps of all threads. -/
def World.evaluating (world : World γ) (call : CallId) (position : Nat) : Nat :=
  evaluatingOn (world.threads.flatMap Thread.stack) call position

/-- How many threads are about to unregister this run. -/
def World.finishing (world : World γ) (call : CallId) : Nat :=
  world.threads.countP fun thread => decide (thread.control.finishes? = some call)

/-- The books of a world. -/
def World.ledger (world : World γ) : Ledger :=
  world.chain.ledger ⟨world.evaluating, world.finishing⟩

theorem World.ledger_runs {world : World γ} {call : CallId} {run : Run}
    (found : world.chain.run? call = some run) : world.ledger.runs call = some run.view :=
  congrArg (Option.map Run.view) found

namespace Chain

variable (chain : Chain γ) (unsettled : Unsettled)

theorem run?_modifyRun (call other : CallId) (change : Run → Run) :
    (chain.modifyRun call change).run? other =
      if other = call then (chain.run? other).map change else chain.run? other := by
  unfold run? modifyRun
  rw [List.getElem?_modify]
  by_cases same : call = other
  · subst same
    cases chain.calls[call]? <;> simp
  · have different : ¬ other = call := fun equal => same equal.symm
    cases chain.calls[other]? <;> simp [same, different]

/-- A change of a run that keeps its view keeps the books. -/
theorem ledger_modifyRun (call : CallId) {change : Run → Run}
    (same : ∀ run, (change run).view = run.view) :
    (chain.modifyRun call change).ledger unsettled = chain.ledger unsettled := by
  refine Ledger.ext ?_ ?_ rfl rfl rfl rfl
  · funext other
    simp only [ledger, run?_modifyRun]
    split
    · cases chain.run? other <;> simp [same]
    · rfl
  · simp [ledger, modifyRun]

/-- A change of a run's state is a change of its view. -/
theorem ledger_modifyState (call : CallId)
    (change : PipelineExecutionState → PipelineExecutionState) (changeView : RunView → RunView)
    (same : ∀ run : Run,
      ({ run with state := change run.state } : Run).view = changeView run.view) :
    (chain.modifyState call change).ledger unsettled =
      (chain.ledger unsettled).modify call changeView := by
  refine Ledger.ext ?_ ?_ rfl rfl rfl rfl
  · funext other
    simp only [ledger, modifyState, run?_modifyRun, Ledger.modify]
    by_cases equal : other = call
    · subst equal
      cases chain.run? other <;> simp [same]
    · simp [equal]
  · simp [ledger, modifyState, modifyRun, Ledger.modify]

@[simp] theorem ledger_calls_modify (call : CallId) {change : Call γ → Call γ}
    (same : ∀ entry, (change entry).run = entry.run) :
    ({ chain with calls := chain.calls.modify call change } : Chain γ).ledger unsettled =
      chain.ledger unsettled := by
  refine Ledger.ext ?_ ?_ rfl rfl rfl rfl
  · funext other
    simp only [ledger, run?, List.getElem?_modify]
    cases chain.calls[other]? with
    | none => rfl
    | some entry => by_cases equal : call = other <;> simp [equal, same]
  · simp [ledger]

@[simp] theorem ledger_setMessage (call : CallId) (ctx : γ) (res : Response) :
    (chain.setMessage call ctx res).ledger unsettled = chain.ledger unsettled :=
  chain.ledger_calls_modify unsettled call fun _ => rfl

@[simp] theorem ledger_respond (call : CallId) (answer : Response → Response) :
    (chain.respond call answer).ledger unsettled = chain.ledger unsettled :=
  chain.ledger_calls_modify unsettled call fun _ => rfl

@[simp] theorem ledger_modifyStats (mw : MiddlewareId)
    (change : MiddlewareStats → MiddlewareStats) :
    (chain.modifyStats mw change).ledger unsettled = chain.ledger unsettled := rfl

@[simp] theorem ledger_cancelTimer (timer : Option TimerId) :
    (chain.cancelTimer timer).ledger unsettled = chain.ledger unsettled := by
  cases timer <;> rfl

@[simp] theorem ledger_setTimerStatus (timer : TimerId) (status : TimerStatus) :
    (chain.setTimerStatus timer status).ledger unsettled = chain.ledger unsettled := rfl

@[simp] theorem ledger_addTimer (call : CallId) (position : Option Nat) (timeout : Nat) :
    (chain.addTimer call position timeout).ledger unsettled = chain.ledger unsettled := rfl

/-- A change of a run's state that keeps the view keeps the books. -/
theorem ledger_modifyState_same (call : CallId)
    {change : PipelineExecutionState → PipelineExecutionState}
    (same : ∀ run : Run, ({ run with state := change run.state } : Run).view = run.view) :
    (chain.modifyState call change).ledger unsettled = chain.ledger unsettled :=
  chain.ledger_modifyRun unsettled call same

@[simp] theorem ledger_disarm (call : CallId) :
    (chain.disarm call).ledger unsettled = chain.ledger unsettled := by
  unfold disarm
  split
  · rfl
  · rw [ledger_modifyState_same _ _ _ fun _ => rfl, ledger_cancelTimer]

@[simp] theorem ledger_setupMiddlewareTimeout (call : CallId) (position timeout : Nat) :
    (chain.setupMiddlewareTimeout call position timeout).ledger unsettled =
      chain.ledger unsettled := by
  unfold setupMiddlewareTimeout
  split
  · rw [ledger_modifyState_same _ _ _ fun _ => rfl, ledger_addTimer, ledger_disarm]
  · rfl

@[simp] theorem ledger_setupGlobalTimeout (call : CallId) :
    (chain.setupGlobalTimeout call).ledger unsettled = chain.ledger unsettled := by
  unfold setupGlobalTimeout
  split
  · rw [ledger_modifyState_same _ _ _ fun _ => rfl, ledger_addTimer]
  · rfl

@[simp] theorem ledger_addClosure (call : CallId) (position : Nat) :
    (chain.addClosure call position).ledger unsettled = chain.ledger unsettled :=
  chain.ledger_modifyRun unsettled call fun _ => rfl

@[simp] theorem ledger_countExecution (run : Run) (position : Nat) :
    (chain.countExecution run position).ledger unsettled = chain.ledger unsettled := by
  unfold countExecution
  split <;> rfl

@[simp] theorem ledger_countError (run : Run) (position : Nat) :
    (chain.countError run position).ledger unsettled = chain.ledger unsettled := by
  unfold countError
  split <;> rfl

@[simp] theorem ledger_countTimeout (run : Run) (position : Nat) :
    (chain.countTimeout run position).ledger unsettled = chain.ledger unsettled := by
  unfold countTimeout
  split <;> rfl

@[simp] theorem ledger_countResult (run : Run) (position : Nat) (result : MiddlewareResult) :
    (chain.countResult run position result).ledger unsettled = chain.ledger unsettled := by
  cases result <;> simp [countResult]

end Chain

end Foxhttp.Middleware
