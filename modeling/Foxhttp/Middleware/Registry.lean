import Foxhttp.Middleware.Refinement

/-!
# At most one completion and the registry of runs

Every way to end a call goes through one exchange of its `finished` flag, and
the thread which wins it unregisters the run three moves later. The registry
therefore holds the unfinished runs and those which a thread has just finished,
and a call is ended, and its completion callback invoked, at most once.
-/

namespace Foxhttp.Middleware

open Foxhttp.Library

/-- The events that end a call: its run is unregistered, or it had none. -/
def Event.ends (call : CallId) : Event → Bool
  | .unregistered other _ => other == call
  | .passed other _ => other == call
  | _ => false

/-- The events that invoke the completion callback of a call. -/
def Event.completes (call : CallId) : Event → Bool
  | .unregistered other (some _) => other == call
  | .passed other (some _) => other == call
  | _ => false

/-- How often the completion callback of a call was invoked. -/
def completionCount (call : CallId) (events : List Event) : Nat :=
  events.countP (Event.completes call)

/-- A completion ends its call. -/
theorem Event.ends_of_completes {call : CallId} {event : Event}
    (completes : event.completes call = true) : event.ends call = true := by
  cases event with
  | unregistered other completion | passed other completion =>
      cases completion with
      | none => cases completes
      | some arguments => exact completes
  | _ => cases completes

/-- A call is completed at most as often as it is ended. -/
theorem completionCount_le (call : CallId) (events : List Event) :
    completionCount call events ≤ events.countP (Event.ends call) :=
  List.countP_mono_left fun _ _ => Event.ends_of_completes

namespace Ledger

/-- A run which the chain has entered and not finished. -/
def Unfinished (ledger : Ledger) (call : CallId) : Prop :=
  ∃ view, ledger.runs call = some view ∧ view.finished = false

/-- A run which the chain has entered and finished. -/
def Finished (ledger : Ledger) (call : CallId) : Prop :=
  ∃ view, ledger.runs call = some view ∧ view.finished = true

theorem not_finished {ledger : Ledger} {call : CallId} {view : RunView}
    (found : ledger.runs call = some view) (down : view.finished = false) :
    ¬ ledger.Finished call := by
  rintro ⟨other, same, up⟩
  rw [found] at same
  cases same
  exact Bool.false_ne_true (down.symm.trans up)

end Ledger

/-- What the registry keeps. -/
structure Registered (events : List Event) (ledger : Ledger) : Prop where
  fresh : ∀ call, ledger.count ≤ call →
    ledger.finishing call = 0 ∧ events.countP (Event.ends call) = 0
  nodup : ledger.activeRuns.Nodup
  active : ∀ call, call ∈ ledger.activeRuns ↔
    ledger.Unfinished call ∨ 0 < ledger.finishing call
  running : ∀ call, ledger.Unfinished call →
    ledger.finishing call = 0 ∧ events.countP (Event.ends call) = 0
  once : ∀ call, ledger.finishing call + events.countP (Event.ends call) ≤ 1

/-- A call is ended at most once. -/
theorem Registered.ends_le_one {events : List Event} {ledger : Ledger}
    (registered : Registered events ledger) (call : CallId) :
    events.countP (Event.ends call) ≤ 1 :=
  Nat.le_trans (Nat.le_add_left _ _) (registered.once call)

/-- An event that neither enters nor ends a call, and changes no `finished`
flag, keeps the registry. -/
theorem Registered.other {events : List Event} {ledger : Ledger} {event : Event}
    (registered : Registered events ledger)
    (ends : ∀ call, event.ends call = false)
    {after : Ledger} (count : after.count = ledger.count)
    (unfinished : ∀ call, after.Unfinished call ↔ ledger.Unfinished call)
    (active : after.activeRuns = ledger.activeRuns)
    (finishing : after.finishing = ledger.finishing) :
    Registered (events ++ [event]) after := by
  have same : ∀ call, (events ++ [event]).countP (Event.ends call) =
      events.countP (Event.ends call) := by
    intro call
    simp [List.countP_append, ends]
  refine ⟨?_, ?_, ?_, ?_, ?_⟩
  · intro call beyond
    rw [same, finishing]
    exact registered.fresh call (count ▸ beyond)
  · rw [active]
    exact registered.nodup
  · intro call
    rw [active, unfinished, finishing]
    exact registered.active call
  · intro call still
    rw [same, finishing]
    exact registered.running call ((unfinished call).mp still)
  · intro call
    rw [same, finishing]
    exact registered.once call

/-- A change of a view that keeps its flag keeps what is unfinished. -/
theorem Ledger.unfinished_modify (ledger : Ledger) (call other : CallId)
    {change : RunView → RunView} (same : ∀ view, (change view).finished = view.finished) :
    (ledger.modify call change).Unfinished other ↔ ledger.Unfinished other := by
  unfold Ledger.Unfinished Ledger.modify
  by_cases equal : other = call
  · subst equal
    simp only [if_true]
    cases ledger.runs other <;> simp [same]
  · simp [equal]

/-- Entering a run registers it. -/
theorem Registered.enter {events : List Event} {ledger : Ledger}
    (registered : Registered events ledger) (absent : ledger.runs ledger.count = none)
    (mode : Mode) (size : Nat) :
    Registered (events ++ [.registered ledger.count mode size])
      (ledger.apply (.registered ledger.count mode size)) := by
  obtain ⟨unclaimed, unended⟩ := registered.fresh ledger.count (Nat.le_refl _)
  have idle : ledger.count ∉ ledger.activeRuns := by
    rw [registered.active, unclaimed]
    rintro (⟨view, found, -⟩ | positive)
    · rw [absent] at found
      cases found
    · exact Nat.lt_irrefl 0 positive
  have same : ∀ call,
      (events ++ [Event.registered ledger.count mode size]).countP (Event.ends call) =
        events.countP (Event.ends call) := by
    intro call
    simp [List.countP_append, Event.ends]
  have unfinished : ∀ call, (ledger.apply (.registered ledger.count mode size)).Unfinished call ↔
      call = ledger.count ∨ ledger.Unfinished call := by
    intro call
    unfold Ledger.Unfinished Ledger.apply
    by_cases equal : call = ledger.count <;> simp [equal, RunView.entered]
  refine ⟨?_, ?_, ?_, ?_, ?_⟩
  · intro call beyond
    rw [same]
    exact registered.fresh call (Nat.le_of_succ_le beyond)
  · simp only [Ledger.apply]
    refine List.nodup_append.mpr ⟨registered.nodup, by simp, ?_⟩
    intro call member other last equal
    rw [List.mem_singleton.mp last] at equal
    exact idle (equal ▸ member)
  · intro call
    rw [unfinished, or_assoc, show (ledger.apply _).finishing = ledger.finishing from rfl,
      ← registered.active]
    simp [Ledger.apply, or_comm]
  · intro call still
    rw [same]
    rcases (unfinished call).mp still with rfl | earlier
    · exact ⟨unclaimed, unended⟩
    · exact registered.running call earlier
  · intro call
    rw [same]
    exact registered.once call

/-- Ending one call adds one to its count alone. -/
private theorem ends_append (events : List Event) (event : Event) (call : CallId)
    (ends : ∀ other, event.ends other = (call == other)) (other : CallId) :
    (events ++ [event]).countP (Event.ends other) =
      events.countP (Event.ends other) + if call = other then 1 else 0 := by
  rw [List.countP_append]
  by_cases equal : call = other <;> simp [ends, equal]

/-- A call on an empty chain is ended at once and registers nothing. -/
theorem Registered.pass {events : List Event} {ledger : Ledger}
    (registered : Registered events ledger) (absent : ledger.runs ledger.count = none)
    (completion : Option (MiddlewareResult × String)) :
    Registered (events ++ [.passed ledger.count completion])
      (ledger.apply (.passed ledger.count completion)) := by
  obtain ⟨unclaimed, unended⟩ := registered.fresh ledger.count (Nat.le_refl _)
  have count := ends_append events (.passed ledger.count completion) ledger.count fun _ => rfl
  have finishing : (ledger.apply (.passed ledger.count completion)).finishing =
      ledger.finishing := rfl
  refine ⟨?_, registered.nodup, registered.active, ?_, ?_⟩
  · intro call beyond
    have beyond : ledger.count + 1 ≤ call := beyond
    have different : ¬ ledger.count = call := by omega
    rw [count, if_neg different]
    exact registered.fresh call (by omega)
  · intro call still
    have different : ¬ ledger.count = call := by
      rintro rfl
      obtain ⟨view, found, -⟩ := still
      rw [show (ledger.apply _).runs = ledger.runs from rfl, absent] at found
      cases found
    rw [count, if_neg different]
    exact registered.running call still
  · intro call
    rw [count, finishing]
    by_cases equal : ledger.count = call
    · subst equal
      simp [unended, unclaimed]
    · simpa [equal] using registered.once call

/-- Finishing an unfinished run leaves it in the registry. -/
theorem Registered.finish {events : List Event} {ledger : Ledger} {call : CallId}
    (registered : Registered events ledger) (known : call < ledger.count)
    (unfinished : ledger.Unfinished call) (completion : Option (MiddlewareResult × String)) :
    Registered (events ++ [.finished call completion])
      (ledger.apply (.finished call completion)) := by
  have same : ∀ other, (events ++ [Event.finished call completion]).countP (Event.ends other) =
      events.countP (Event.ends other) := by
    intro other
    simp [List.countP_append, Event.ends]
  have still : ∀ other, (ledger.apply (.finished call completion)).Unfinished other ↔
      other ≠ call ∧ ledger.Unfinished other := by
    intro other
    unfold Ledger.Unfinished Ledger.apply Ledger.countFinishing Ledger.modify
    by_cases equal : other = call
    · subst equal
      cases ledger.runs other <;> simp
    · simp [equal]
  have finishing : ∀ other, (ledger.apply (.finished call completion)).finishing other =
      if other = call then ledger.finishing call + 1 else ledger.finishing other := fun _ => rfl
  obtain ⟨unclaimed, unended⟩ := registered.running call unfinished
  refine ⟨?_, registered.nodup, ?_, ?_, ?_⟩
  · intro other beyond
    have beyond : ledger.count ≤ other := beyond
    have different : ¬ other = call := Nat.ne_of_gt (Nat.lt_of_lt_of_le known beyond)
    rw [same, finishing, if_neg different]
    exact registered.fresh other beyond
  · intro other
    rw [still, finishing, show (ledger.apply _).activeRuns = ledger.activeRuns from rfl,
      registered.active]
    by_cases equal : other = call
    · subst equal
      simp [unfinished]
    · simp [equal]
  · intro other left
    obtain ⟨different, before⟩ := (still other).mp left
    rw [same, finishing, if_neg different]
    exact registered.running other before
  · intro other
    rw [same, finishing]
    split
    · rename_i equal
      simp [equal, unclaimed, unended]
    · exact registered.once other

/-- A thread which is finishing a run takes it out of the registry and ends its
call for the first time. -/
theorem Registered.unregister {events : List Event} {ledger : Ledger} {call : CallId}
    (registered : Registered events ledger) (leaving : 0 < ledger.finishing call)
    (completion : Option (MiddlewareResult × String)) :
    Registered (events ++ [.unregistered call completion])
      (ledger.apply (.unregistered call completion)) := by
  have count := ends_append events (.unregistered call completion) call fun _ => rfl
  have finishing : ∀ other, (ledger.apply (.unregistered call completion)).finishing other =
      if other = call then ledger.finishing call - 1 else ledger.finishing other := fun _ => rfl
  have once := registered.once call
  have done : ¬ ledger.Unfinished call := by
    intro still
    have unclaimed := (registered.running call still).1
    omega
  refine ⟨?_, registered.nodup.filter _, ?_, ?_, ?_⟩
  · intro other beyond
    obtain ⟨unclaimed, unended⟩ := registered.fresh other beyond
    have different : ¬ other = call := by
      rintro rfl
      omega
    rw [count, finishing, if_neg different, if_neg fun equal => different equal.symm]
    exact ⟨unclaimed, unended⟩
  · intro other
    have unfinished : (ledger.apply (.unregistered call completion)).Unfinished other ↔
        ledger.Unfinished other := Iff.rfl
    rw [finishing, unfinished]
    by_cases equal : other = call
    · subst equal
      have last : ledger.finishing other - 1 = 0 := by omega
      simp [Ledger.apply, done, last]
    · simp [Ledger.apply, equal, registered.active]
  · intro other still
    have still : ledger.Unfinished other := still
    have different : ¬ other = call := fun equal => done (equal ▸ still)
    rw [count, finishing, if_neg different, if_neg fun equal => different equal.symm]
    exact registered.running other still
  · intro other
    rw [count, finishing]
    by_cases equal : other = call
    · subst equal
      simp only [if_true]
      omega
    · rw [if_neg equal, if_neg fun same => equal same.symm]
      exact registered.once other

/-- The registry is kept in every state of every trace. -/
theorem trace_registered {guard : List Event → Ledger → Event → Prop} {events : List Event}
    {ledger : Ledger} (trace : ledgerSystem.Trace guard events ledger) :
    Registered events ledger := by
  refine trace.invariant ?_ ?_
  · rintro ledger ⟨runs, count, active, -, finishing⟩
    have idle : ∀ call, ¬ ledger.Unfinished call := by
      rintro call ⟨view, found, -⟩
      rw [runs] at found
      cases found
    exact ⟨fun call _ => ⟨finishing call, rfl⟩, by simp [active],
      fun call => by simp [active, idle, finishing], fun call _ => ⟨finishing call, rfl⟩,
      fun call => by simp [finishing]⟩
  · intro events ledger event prior registered enabled _
    have entered := trace_entered prior
    have absent := entered.fresh ledger.count (Nat.le_refl _)
    cases event with
    | registered call mode size =>
        obtain ⟨rfl, -⟩ := enabled
        exact registered.enter absent mode size
    | passed call completion =>
        obtain rfl : call = ledger.count := enabled
        exact registered.pass absent completion
    | finished call completion =>
        obtain ⟨view, found, down⟩ := enabled
        exact registered.finish (entered.known found) ⟨view, found, down⟩ completion
    | unregistered call completion => exact registered.unregister enabled completion
    | claimed call position | timedOut call timer | cancelled call =>
        exact registered.other (fun _ => rfl) rfl
          (fun other => ledger.unfinished_modify call other fun _ => rfl) rfl rfl
    | started _ _ | skipped _ _ | refused _ _ | signalled _ _ _ | overtaken _ | paused _
    | errorHandled _ _ | timeoutHandled _ | responded _ =>
        exact registered.other (fun _ => rfl) rfl (fun _ => Iff.rfl) rfl rfl

/-- A run which a thread is about to unregister is finished. -/
theorem trace_finishing {guard : List Event → Ledger → Event → Prop} {events : List Event}
    {ledger : Ledger} (trace : ledgerSystem.Trace guard events ledger) {call : CallId}
    (leaving : 0 < ledger.finishing call) : ledger.Finished call := by
  induction trace with
  | initial valid =>
      obtain ⟨-, -, -, -, finishing⟩ := valid
      rw [finishing] at leaving
      cases leaving
  | @event events ledger event prior enabled _ inductionHypothesis =>
      have entered := trace_entered prior
      by_cases ends : ∃ completion, event = .finished call completion
      · obtain ⟨completion, rfl⟩ := ends
        have known : ledger.Enabled (.finished call completion) := enabled
        obtain ⟨view, found, -⟩ := enabled
        exact ⟨_, entered.survives known found, by simp [Event.onView]⟩
      · have below : (ledger.apply event).finishing call ≤ ledger.finishing call :=
          Ledger.finishing_apply fun completion equal => ends ⟨completion, equal⟩
        obtain ⟨view, found, up⟩ := inductionHypothesis (Nat.lt_of_lt_of_le leaving below)
        exact ⟨_, entered.survives enabled found, (event.onView_grows call view).finished up⟩

/-! ## On the machine -/

variable {γ : Type}

/-- The ledger's unfinished runs are those whose flag is down. -/
theorem unfinished_iff (world : World γ) (call : CallId) :
    world.ledger.Unfinished call ↔
      ∃ entered, world.chain.run? call = some entered ∧ entered.state.finished = false := by
  constructor
  · rintro ⟨view, found, down⟩
    obtain ⟨entered, inside, rfl⟩ := Option.map_eq_some_iff.mp found
    exact ⟨entered, inside, down⟩
  · rintro ⟨entered, found, down⟩
    exact ⟨entered.view, World.ledger_runs found, down⟩

/-- The ledger's finished runs are those whose flag is up. -/
theorem finished_iff (world : World γ) (call : CallId) :
    world.ledger.Finished call ↔
      ∃ run, world.chain.run? call = some run ∧ run.state.finished = true := by
  constructor
  · rintro ⟨view, found, up⟩
    obtain ⟨run, inside, rfl⟩ := Option.map_eq_some_iff.mp found
    exact ⟨run, inside, up⟩
  · rintro ⟨run, found, up⟩
    exact ⟨run.view, World.ledger_runs found, up⟩

/-- Some thread has won the exchange for this run and is about to unregister it. -/
def World.Finishing (world : World γ) (call : CallId) : Prop :=
  ∃ thread ∈ world.threads, thread.control.finishes? = some call

theorem finishing_pos_iff {world : World γ} {call : CallId} :
    0 < world.ledger.finishing call ↔ world.Finishing call := by
  refine List.countP_pos_iff.trans ?_
  simp only [decide_eq_true_eq]
  rfl

/-- A thread stays in `try_finish_run` until it unregisters its run. -/
theorem finishing_moves {program : Program γ} {chain : Chain γ} {thread : Thread γ}
    {move : Move γ} {stage : FinishStage} {call : CallId}
    {completion : Option (MiddlewareResult × String)} {after : Code γ}
    (advanced : advance program chain thread = some move)
    (control : thread.control = .finishing stage call completion after) :
    (∃ next, move.thread.control = .finishing next call completion after) ∨
      move.event = some (.unregistered call completion) := by
  obtain ⟨now, stack⟩ := thread
  obtain rfl : now = .finishing stage call completion after := control
  obtain ⟨run, -, rfl⟩ := Option.map_eq_some_iff.mp advanced
  cases stage with
  | cancelGlobal | cancelMiddleware => exact .inl ⟨_, rfl⟩
  | unregister => exact .inr rfl

section Run

variable {program : Program γ} {guard : System.Guard (World γ) Event} {events : List Event}
  {world : World γ} {call : CallId}

theorem run_registered (run : (system program).Runs guard events world) :
    Registered events world.ledger :=
  trace_registered (run_trace run)

/-- Only a run which is unfinished, or which a thread is finishing, is registered. -/
theorem active_iff (run : (system program).Runs guard events world) :
    call ∈ world.chain.activeRuns ↔ world.ledger.Unfinished call ∨ world.Finishing call :=
  ((run_registered run).active call).trans (or_congr_right finishing_pos_iff)

theorem finished_of_finishing (run : (system program).Runs guard events world)
    (finishing : world.Finishing call) : world.ledger.Finished call :=
  trace_finishing (run_trace run) (finishing_pos_iff.mpr finishing)

/-- A finished run is registered only while a thread is finishing it. -/
theorem finishing_of_active (run : (system program).Runs guard events world)
    (finished : world.ledger.Finished call) (active : call ∈ world.chain.activeRuns) :
    world.Finishing call := by
  refine ((active_iff run).mp active).resolve_left ?_
  rintro ⟨view, found, down⟩
  exact Ledger.not_finished found down finished

/-- A run which was finished is being finished still, or its completion callback
was invoked as announced. -/
theorem run_invokes (run : (system program).Runs guard events world)
    {completion : Option (MiddlewareResult × String)}
    (finished : .finished call completion ∈ events) :
    world.Finishing call ∨ .unregistered call completion ∈ events := by
  suffices known : (∃ thread ∈ world.threads, ∃ stage after,
      thread.control = .finishing stage call completion after) ∨
        .unregistered call completion ∈ events by
    refine known.imp_left ?_
    rintro ⟨thread, member, stage, after, control⟩
    exact ⟨thread, member, by rw [control]; rfl⟩
  induction run with
  | initial _ => simp at finished
  | @move events world choice event next prior moved _ inductionHypothesis =>
      rcases List.mem_append.mp finished with old | new
      · rcases inductionHypothesis old with ⟨thread, member, stage, after, control⟩ | done
        · obtain ⟨place, found⟩ := List.mem_iff_getElem?.mp member
          by_cases own : choice = .thread place
          · subst own
            obtain ⟨mover, move, isMover, advanced, rfl, rfl⟩ := step_thread program moved
            obtain rfl : mover = thread := Option.some.inj (isMover.symm.trans found)
            have within := (List.getElem?_eq_some_iff.mp found).1
            rcases finishing_moves advanced control with ⟨later, still⟩ | unregisters
            · exact .inl ⟨move.thread, List.mem_set within _, later, after, still⟩
            · exact .inr (List.mem_append_right _ (by simp [unregisters]))
          · have stays := List.mem_of_getElem? (step_other moved found own)
            exact .inl ⟨thread, stays, stage, after, control⟩
        · exact .inr (List.mem_append_left _ done)
      · obtain rfl : event = some (.finished call completion) := by simpa using new
        obtain ⟨index, thread, move, rfl, found, advanced, reported, rfl⟩ :=
          step_reports program moved
        have within := (List.getElem?_eq_some_iff.mp found).1
        have booked := advance_booked advanced
        rw [Booked, reported] at booked
        obtain ⟨-, -, after, control⟩ := booked
        exact .inl ⟨move.thread, List.mem_set within _, _, after, control⟩

/-- **At most one completion, and a registry of the runs which are not over.** In
every run, under every program and interleaving, the completion callback of a
call is invoked at most once, `active_runs_` holds exactly the registered runs
whose `finished` flag is down or which a thread has just finished and is about
to unregister, each once, and `is_running()` says whether there is one. -/
theorem completion_once_and_registry_kept
    (run : (system program).Runs System.anyMove events world) :
    (∀ call, completionCount call events ≤ 1) ∧
    world.chain.activeRuns.Nodup ∧
    (∀ call, call ∈ world.chain.activeRuns ↔
      (∃ mode size, .registered call mode size ∈ events) ∧
        ∃ entered, world.chain.run? call = some entered ∧
          (entered.state.finished = false ∨ world.Finishing call)) ∧
    (world.chain.isRunning = true ↔
      ∃ call entered, world.chain.run? call = some entered ∧
        (entered.state.finished = false ∨ world.Finishing call)) := by
  have registered := run_registered run
  have active : ∀ call, call ∈ world.chain.activeRuns ↔
      ∃ entered, world.chain.run? call = some entered ∧
        (entered.state.finished = false ∨ world.Finishing call) := by
    intro call
    rw [active_iff run, unfinished_iff]
    constructor
    · rintro (⟨entered, found, down⟩ | finishing)
      · exact ⟨entered, found, .inl down⟩
      · have finished := finished_of_finishing run finishing
        obtain ⟨entered, found, -⟩ := (finished_iff world call).mp finished
        exact ⟨entered, found, .inr finishing⟩
    · rintro ⟨entered, found, down | finishing⟩
      · exact .inl ⟨entered, found, down⟩
      · exact .inr finishing
  refine ⟨fun call => Nat.le_trans (completionCount_le call events) (registered.ends_le_one call),
    registered.nodup, fun call => ?_, ?_⟩
  · rw [active]
    constructor
    · rintro ⟨entered, found, left⟩
      have viewed := World.ledger_runs found
      exact ⟨⟨_, _, (run_entered run).registered call _ viewed⟩, entered, found, left⟩
    · exact And.right
  · have some_active : world.chain.isRunning = true ↔ ∃ call, call ∈ world.chain.activeRuns := by
      cases inside : world.chain.activeRuns with
      | nil => simp [Chain.isRunning, inside]
      | cons call rest =>
          simp only [Chain.isRunning, inside, List.isEmpty_cons, Bool.not_false, true_iff]
          exact ⟨call, List.mem_cons_self⟩
    rw [some_active]
    exact exists_congr active

end Run

/-- Two middlewares which signal twice each: one completion, and an idle chain. -/
theorem completion_once_two_loggers :
    ∃ reached, replay (Program.overriding fun _ => .nextThenContinue) System.anyMove (.plain [0, 1])
        (alone (.request ()) 23) = some reached ∧
      completionCount 0 reached.1 = 1 ∧ (∀ call, completionCount call reached.1 ≤ 1) ∧
      reached.2.chain.isRunning = false :=
  replay_reaches rfl fun run => ⟨rfl, (completion_once_and_registry_kept run).1, rfl⟩

/-- `active_runs_` holds exactly the runs whose `finished` flag is down. -/
def RegistryExact (chain : Chain γ) : Prop :=
  ∀ call, call ∈ chain.activeRuns ↔
    ∃ entered, chain.run? call = some entered ∧ entered.state.finished = false

/-- A thread which has won the exchange and has not unregistered its run yet: the
chain is running, and every run of it is finished. -/
theorem registry_lags :
    ∃ reached, replay (Program.overriding fun _ handle => .signal handle .Stop) System.anyMove
        (.plain [0]) (alone (.request ()) 9) = some reached ∧
      reached.2.chain.isRunning = true ∧ reached.2.chain.unfinished 0 = false ∧
      ¬ RegistryExact reached.2.chain := by
  refine ⟨_, rfl, rfl, rfl, fun exact => ?_⟩
  obtain ⟨entered, found, down⟩ := (exact 0).mp (by decide)
  cases found
  cases down

end Foxhttp.Middleware
