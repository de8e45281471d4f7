import Foxhttp.Middleware.Exceptions
import Foxhttp.Middleware.Moves

/-!
# A middleware's own timeout

All middlewares of a run share the slot `middleware_timeout_timer`. Starting one
with a timeout arms a timer in the slot, and every `next` and every callback of
the run cancels whatever timer the slot holds, whoever armed it. A started
middleware keeps its own timer exactly as far as no other middleware of the run
signals, or starts with a timeout, while that timer is armed in the slot.
-/

namespace Foxhttp.Middleware

open Foxhttp.Library

variable {γ : Type}

/-- The run of this call is not finished, cancelled or timed out. -/
def Chain.live (chain : Chain γ) (call : CallId) : Bool :=
  (chain.run? call).any fun run =>
    !run.state.finished && !run.state.cancelled && !run.state.timedOut

/-- The timer is armed, or its wait has succeeded and its handler is on its way. -/
def TimerStatus.pending : TimerStatus → Bool
  | .armed | .expired _ | .handling _ => true
  | .cancelled | .returned _ | .threw _ => false

/-- The move starts a middleware of an asynchronous run, with this timeout and on
a chain with an `io_context`. -/
def StartsUnder (program : Program γ) (call : CallId) (position timeout : Nat)
    (moved : ChainMove γ) : Prop :=
  moved.event = some (.started call position) ∧
    moved.before.chain.settings.ioContext = true ∧ 0 < timeout ∧
      ∃ run mw, moved.before.chain.run? call = some run ∧ run.mode = .async ∧
        run.pipeline[position]? = some mw ∧ program.timeout mw = timeout

/-- A timer of the position is pending, and expires a timeout after the start. -/
def Chain.Keeps (chain : Chain γ) (call : CallId) (position expiry : Nat) : Prop :=
  ∃ (timer : TimerId) (entry : Timer), chain.timers[timer]? = some entry ∧ entry.call = call ∧
    entry.position = some position ∧ entry.expiry = expiry ∧ entry.status.pending = true

/-- Every started middleware which has not signalled keeps its own timer while
its run is live. -/
def KeepsTimeouts (program : Program γ) (history : List (ChainMove γ)) (world : World γ) : Prop :=
  ∀ call position timeout, ∀ taken ∈ history, StartsUnder program call position timeout taken →
    (∀ moved ∈ history, ∀ signal, moved.event ≠ some (.signalled call position signal)) →
    world.chain.live call = true →
    world.chain.Keeps call position (taken.before.chain.now + timeout)

/-- Starting this position arms a timer. -/
def Chain.arms (program : Program γ) (chain : Chain γ) (call : CallId) (position : Nat) : Bool :=
  chain.settings.ioContext && (chain.run? call).any fun run =>
    (run.pipeline[position]?).any fun mw => decide (0 < program.timeout mw)

/-- The slot of this run holds a timer which another position has armed. -/
def Chain.holdsOther (chain : Chain γ) (call : CallId) (position : Nat) : Bool :=
  (chain.run? call).any fun run => (run.state.middlewareTimeoutTimer).any fun timer =>
    (chain.timers[timer]?).any fun entry =>
      decide (entry.status = .armed) && decide (entry.position ≠ some position)

/-- No middleware of a live run signals, and none starts with a timeout, while the
slot of the run holds the armed timer of another. -/
def slotIsOwn (program : Program γ) (_ : List (ChainMove γ)) (world : World γ) :
    Option (ChainMove γ) → Bool
  | none => true
  | some moved =>
      match moved.event with
      | some (.signalled call position _) =>
          !(world.chain.live call && world.chain.holdsOther call position)
      | some (.started call position) =>
          !(world.chain.live call && world.chain.arms program call position &&
            world.chain.holdsOther call position)
      | _ => true

/-! ## Timers keep their identity -/

/-- The run holds this timer, as its global timer or in the slot. -/
def Run.HoldsTimer (run : Run) (timer : TimerId) : Prop :=
  run.state.globalTimeoutTimer = some timer ∨ run.state.middlewareTimeoutTimer = some timer

theorem Run.timers_of_fixed {run next : Run} (same : run.fixed = next.fixed) :
    run.state.globalTimeoutTimer = next.state.globalTimeoutTimer ∧
      run.state.middlewareTimeoutTimer = next.state.middlewareTimeoutTimer := by
  have globals : run.fixed.state.globalTimeoutTimer = next.fixed.state.globalTimeoutTimer := by
    rw [same]
  have slots : run.fixed.state.middlewareTimeoutTimer =
      next.fixed.state.middlewareTimeoutTimer := by
    rw [same]
  exact ⟨globals, slots⟩

/-- Every timer which a run holds was armed for the run. -/
def Chain.Owned (chain : Chain γ) : Prop :=
  ∀ call run, chain.run? call = some run → ∀ timer, run.HoldsTimer timer →
    ∃ entry, chain.timers[timer]? = some entry ∧ entry.call = call

/-- Timers change nothing but their statuses, and a run takes hold of no timer but
one of its own. -/
structure Chain.Timed (chain after : Chain γ) : Prop where
  lasts : ∀ (timer : TimerId) (entry : Timer), chain.timers[timer]? = some entry →
    ∃ status, after.timers[timer]? = some { entry with status := status }
  held : ∀ call run, after.run? call = some run → ∀ timer, run.HoldsTimer timer →
    (∃ before, chain.run? call = some before ∧ before.HoldsTimer timer) ∨
      ∃ entry, after.timers[timer]? = some entry ∧ entry.call = call

namespace Chain

theorem Owned.timed {chain after : Chain γ} (owned : chain.Owned) (timed : chain.Timed after) :
    after.Owned := by
  intro call run found timer holds
  rcases timed.held call run found timer holds with ⟨before, known, held⟩ | own
  · obtain ⟨entry, present, isCall⟩ := owned call before known timer held
    obtain ⟨status, later⟩ := timed.lasts timer entry present
    exact ⟨_, later, isCall⟩
  · exact own

namespace Timed

variable {chain middle after : Chain γ}

theorem trans (first : chain.Timed middle) (second : middle.Timed after) : chain.Timed after where
  lasts timer entry found := by
    obtain ⟨status, present⟩ := first.lasts timer entry found
    obtain ⟨final, later⟩ := second.lasts timer _ present
    exact ⟨final, later⟩
  held call run found timer holds := by
    rcases second.held call run found timer holds with ⟨before, known, held⟩ | own
    · rcases first.held call before known timer held with earlier | ⟨entry, present, isCall⟩
      · exact .inl earlier
      · obtain ⟨status, later⟩ := second.lasts timer entry present
        exact .inr ⟨_, later, isCall⟩
    · exact .inr own

/-- The timers last, and no run takes hold of another. -/
theorem of_runs
    (lasts : ∀ (timer : TimerId) (entry : Timer), chain.timers[timer]? = some entry →
      ∃ status, after.timers[timer]? = some { entry with status := status })
    (runs : ∀ call run, after.run? call = some run → ∃ before, chain.run? call = some before ∧
      ∀ timer, run.HoldsTimer timer → before.HoldsTimer timer) : chain.Timed after where
  lasts := lasts
  held call run found timer holds := by
    obtain ⟨before, known, held⟩ := runs call run found
    exact .inl ⟨before, known, held timer holds⟩

theorem alike (alike : chain.Alike after) : chain.Timed after := by
  refine of_runs (fun timer entry found => ⟨entry.status, alike.timers ▸ found⟩) ?_
  intro call run found
  have same := alike.runs call
  rw [found] at same
  obtain ⟨before, known, equal⟩ := Option.map_eq_some_iff.mp same.symm
  refine ⟨before, known, fun timer holds => ?_⟩
  obtain ⟨globals, slots⟩ := Run.timers_of_fixed equal
  exact holds.imp globals.trans slots.trans

/-- A change of one run which takes hold of no timer but one of its own. -/
theorem modifyRun (chain : Chain γ) (call : CallId) {change : Run → Run}
    (own : ∀ run timer, (change run).HoldsTimer timer → run.HoldsTimer timer ∨
      ∃ entry, chain.timers[timer]? = some entry ∧ entry.call = call) :
    chain.Timed (chain.modifyRun call change) where
  lasts _ entry found := ⟨entry.status, found⟩
  held other run found timer holds := by
    rw [run?_modifyRun] at found
    split at found
    · rename_i same
      subst same
      obtain ⟨before, known, rfl⟩ := Option.map_eq_some_iff.mp found
      exact (own before timer holds).imp_left fun held => ⟨before, known, held⟩
    · exact .inl ⟨run, found, holds⟩

/-- New statuses of the timers, and nothing else. -/
theorem statuses {timers : List Timer} (lasts : ∀ (timer : TimerId) (entry : Timer),
      chain.timers[timer]? = some entry →
        ∃ status, timers[timer]? = some { entry with status := status }) :
    chain.Timed { chain with timers := timers } :=
  of_runs lasts fun _ run found => ⟨run, found, fun _ => id⟩

theorem cancelTimer (chain : Chain γ) (timer : Option TimerId) :
    chain.Timed (chain.cancelTimer timer) := by
  cases timer with
  | none => exact .alike (.refl chain)
  | some timer =>
      refine statuses fun other entry found => ?_
      simp only [List.getElem?_modify, found, Option.map_eq_map, Option.map_some]
      split
      · unfold Timer.cancel
        split
        · exact ⟨.cancelled, rfl⟩
        · exact ⟨entry.status, rfl⟩
      · exact ⟨entry.status, rfl⟩

theorem setTimerStatus (chain : Chain γ) (timer : TimerId) (status : TimerStatus) :
    chain.Timed (chain.setTimerStatus timer status) := by
  refine statuses fun other entry found => ?_
  simp only [List.getElem?_modify, found, Option.map_eq_map, Option.map_some]
  split
  · exact ⟨status, rfl⟩
  · exact ⟨entry.status, rfl⟩

theorem addTimer (chain : Chain γ) (call : CallId) (position : Option Nat) (timeout : Nat) :
    chain.Timed (chain.addTimer call position timeout) := by
  refine statuses fun other entry found => ⟨entry.status, ?_⟩
  rw [List.getElem?_append_left (List.getElem?_eq_some_iff.mp found).1]
  exact found

theorem disarm (chain : Chain γ) (call : CallId) : chain.Timed (chain.disarm call) := by
  unfold Chain.disarm
  split
  · exact .alike (.refl chain)
  · refine (cancelTimer chain _).trans (modifyRun _ call fun run timer holds => .inl ?_)
    exact holds.elim .inl fun none => by cases none

theorem timers_addTimer (chain : Chain γ) (call : CallId) (position : Option Nat)
    (timeout : Nat) :
    (chain.addTimer call position timeout).timers[chain.timers.length]? =
      some ⟨call, position, chain.now + timeout, .armed⟩ :=
  List.getElem?_concat_length

/-- A run takes hold of the timer which was just armed for it. -/
theorem arm (chain : Chain γ) (call : CallId) (position : Option Nat) (timeout : Nat)
    {change : PipelineExecutionState → PipelineExecutionState}
    (new : ∀ (run : Run) timer, ({ run with state := change run.state } : Run).HoldsTimer timer →
      run.HoldsTimer timer ∨ timer = chain.timers.length) :
    chain.Timed ((chain.addTimer call position timeout).modifyState call change) := by
  refine (addTimer chain call position timeout).trans (modifyRun _ call fun run timer holds => ?_)
  rcases new run timer holds with held | rfl
  · exact .inl held
  · exact .inr ⟨_, timers_addTimer chain call position timeout, rfl⟩

end Timed

theorem timers_length_disarm (chain : Chain γ) (call : CallId) :
    (chain.disarm call).timers.length = chain.timers.length := by
  unfold Chain.disarm
  split
  · rfl
  · rename_i run _
    cases slot : run.state.middlewareTimeoutTimer with
    | none => rfl
    | some timer => exact List.length_modify ..

namespace Timed

theorem setupMiddlewareTimeout (chain : Chain γ) (call : CallId) (position timeout : Nat) :
    chain.Timed (chain.setupMiddlewareTimeout call position timeout) := by
  unfold Chain.setupMiddlewareTimeout
  split
  · refine (disarm chain call).trans (arm _ call _ timeout fun run timer holds => ?_)
    rw [timers_length_disarm]
    exact holds.imp .inl fun slot => (Option.some.inj slot).symm
  · exact .alike (.refl chain)

theorem setupGlobalTimeout (chain : Chain γ) (call : CallId) :
    chain.Timed (chain.setupGlobalTimeout call) := by
  unfold Chain.setupGlobalTimeout
  split
  · refine arm chain call _ _ fun run timer holds => ?_
    exact holds.symm.imp .inr fun slot => (Option.some.inj slot).symm
  · exact .alike (.refl chain)

/-- A run which is entered holds no timer. -/
theorem enter (chain : Chain γ) (mode : Mode) (ctx : γ) (res : Response)
    (callback : Option CallbackId) : chain.Timed (chain.enter mode ctx res callback) where
  lasts _ entry found := ⟨entry.status, found⟩
  held call run found timer holds := by
    simp only [Chain.enter, run?_append] at found
    split at found
    · split at found
      · cases found
      · cases found
        exact holds.elim (fun none => by cases none) fun none => by cases none
    · exact .inl ⟨run, found, holds⟩

theorem cancelRun (chain : Chain γ) (call : CallId) : chain.Timed (chain.cancelRun call) := by
  unfold Chain.cancelRun
  split
  · exact .alike (.refl chain)
  · exact (alike (.modifyState chain call fun _ => rfl)).trans
      ((cancelTimer _ _).trans (cancelTimer _ _))

theorem addClosure (chain : Chain γ) (call : CallId) (position : Nat) :
    chain.Timed (chain.addClosure call position) :=
  modifyRun chain call fun _ _ => .inl

end Timed

/-! ## Whose timers a move touches -/

/-- The timers of this call and its slot are left as they are. -/
structure Spares (chain : Chain γ) (call : CallId) (after : Chain γ) : Prop where
  timers : ∀ (timer : TimerId) (entry : Timer), chain.timers[timer]? = some entry →
    entry.call = call → after.timers[timer]? = some entry
  slot : ∀ run, chain.run? call = some run → ∃ next, after.run? call = some next ∧
    next.state.middlewareTimeoutTimer = run.state.middlewareTimeoutTimer

namespace Spares

variable {chain middle after : Chain γ} {call other : CallId}

theorem trans (first : chain.Spares call middle) (second : middle.Spares call after) :
    chain.Spares call after where
  timers timer entry found isCall :=
    second.timers timer entry (first.timers timer entry found isCall) isCall
  slot run found := by
    obtain ⟨next, present, same⟩ := first.slot run found
    obtain ⟨last, later, equal⟩ := second.slot next present
    exact ⟨last, later, equal.trans same⟩

theorem same (timers : after.timers = chain.timers) (runs : after.run? call = chain.run? call) :
    chain.Spares call after where
  timers _ _ found _ := timers ▸ found
  slot run found := ⟨run, runs.trans found, rfl⟩

theorem alike (alike : chain.Alike after) : chain.Spares call after where
  timers _ _ found _ := alike.timers ▸ found
  slot run found := by
    have same := alike.runs call
    rw [found, Option.map_some] at same
    obtain ⟨next, present, equal⟩ := Option.map_eq_some_iff.mp same
    exact ⟨next, present, (Run.timers_of_fixed equal).2⟩

/-- The run of another call changes, or not its slot. -/
theorem modifyRun (chain : Chain γ) {change : Run → Run}
    (kept : other ≠ call ∨ ∀ run, (change run).state.middlewareTimeoutTimer =
      run.state.middlewareTimeoutTimer) : chain.Spares call (chain.modifyRun other change) where
  timers _ _ found _ := found
  slot run found := by
    rw [run?_modifyRun]
    split
    · rename_i equal
      rw [found]
      exact ⟨change run, rfl, (kept.resolve_left fun different => different equal.symm) run⟩
    · exact ⟨run, found, rfl⟩

/-- The timer of another call is cancelled. -/
theorem cancelTimer {timer : Option TimerId} (foreign : ∀ target ∈ timer,
    ∃ entry, chain.timers[target]? = some entry ∧ entry.call ≠ call) :
    chain.Spares call (chain.cancelTimer timer) := by
  cases timer with
  | none => exact .alike (.refl chain)
  | some target =>
      refine ⟨fun timer entry found isCall => ?_, fun run found => ⟨run, found, rfl⟩⟩
      have different : target ≠ timer := by
        rintro rfl
        obtain ⟨owner, present, notCall⟩ := foreign target rfl
        cases found.symm.trans present
        exact notCall isCall
      simpa [Chain.cancelTimer, List.getElem?_modify, different] using found

theorem addTimer (chain : Chain γ) (position : Option Nat) (timeout : Nat) :
    chain.Spares call (chain.addTimer other position timeout) := by
  refine ⟨fun timer entry found _ => ?_, fun run found => ⟨run, found, rfl⟩⟩
  exact (List.getElem?_append_left (List.getElem?_eq_some_iff.mp found).1).trans found

/-- The timers which the run of another call holds are none of this call's. -/
theorem foreign {run : Run} (owned : chain.Owned) (different : other ≠ call)
    (found : chain.run? other = some run) {timer : TimerId} (holds : run.HoldsTimer timer) :
    ∃ entry, chain.timers[timer]? = some entry ∧ entry.call ≠ call := by
  obtain ⟨entry, present, isOther⟩ := owned other run found timer holds
  exact ⟨entry, present, isOther ▸ different⟩

theorem disarm (owned : chain.Owned) (different : other ≠ call) :
    chain.Spares call (chain.disarm other) := by
  unfold Chain.disarm
  split
  · exact .alike (.refl chain)
  · rename_i run found
    refine (cancelTimer fun target slot => ?_).trans (modifyRun _ (.inl different))
    exact foreign owned different found (.inr slot)

/-- Both timers of another call's run are cancelled. -/
theorem cancelBoth {run : Run} (owned : chain.Owned) (different : other ≠ call)
    (found : chain.run? other = some run) (runs : after.run? call = chain.run? call)
    (same : after.timers = chain.timers) :
    chain.Spares call ((after.cancelTimer run.state.globalTimeoutTimer).cancelTimer
      run.state.middlewareTimeoutTimer) := by
  refine (Spares.same same runs).trans (.trans (cancelTimer fun target isGlobal => ?_)
    (cancelTimer fun target slot => ?_))
  · rw [same]
    exact foreign owned different found (.inl isGlobal)
  · obtain ⟨entry, present, notCall⟩ := foreign owned different found (.inr slot)
    obtain ⟨status, later⟩ :=
      (Timed.cancelTimer after run.state.globalTimeoutTimer).lasts target entry (same ▸ present)
    exact ⟨_, later, notCall⟩

theorem cancelRun (owned : chain.Owned) (different : other ≠ call) :
    chain.Spares call (chain.cancelRun other) := by
  unfold Chain.cancelRun
  split
  · exact .alike (.refl chain)
  · rename_i run found
    refine cancelBoth owned different found ?_ rfl
    rw [Chain.modifyState, run?_modifyRun, if_neg different.symm]

theorem setupMiddlewareTimeout (owned : chain.Owned) (different : other ≠ call)
    (position timeout : Nat) :
    chain.Spares call (chain.setupMiddlewareTimeout other position timeout) := by
  unfold Chain.setupMiddlewareTimeout
  split
  · exact ((disarm owned different).trans (addTimer _ _ _)).trans (modifyRun _ (.inl different))
  · exact .alike (.refl chain)

theorem setupGlobalTimeout (chain : Chain γ) (other : CallId) :
    chain.Spares call (chain.setupGlobalTimeout other) := by
  unfold Chain.setupGlobalTimeout
  split
  · exact (addTimer chain _ _).trans (modifyRun _ (.inr fun _ => rfl))
  · exact .alike (.refl chain)

theorem enter (chain : Chain γ) (mode : Mode) (ctx : γ) (res : Response)
    (callback : Option CallbackId) : chain.Spares call (chain.enter mode ctx res callback) where
  timers _ _ found _ := found
  slot run found := ⟨run, run?_enter found mode ctx res callback, rfl⟩

theorem addClosure (chain : Chain γ) (other : CallId) (position : Nat) :
    chain.Spares call (chain.addClosure other position) :=
  modifyRun chain (.inr fun _ => rfl)

end Spares

end Chain

section Account

variable {program : Program γ} {chain after : Chain γ} {thread : Thread γ}
  {event : Option Event} {call : CallId}

/-- The event arms, disarms or ends the timers of a call. -/
def Event.touches (program : Program γ) (chain : Chain γ) (call : CallId) : Event → Bool
  | .started other position => other == call && chain.arms program other position
  | .signalled other _ _ => other == call
  | .cancelled other => other == call
  | _ => false

theorem Effect.timed (effect : Effect program chain thread after event) : chain.Timed after := by
  cases event with
  | none =>
      rcases effect with alike | ⟨timer, live, -, -, rfl | rfl⟩ | ⟨_, _, -, -, rfl | rfl⟩
      · exact .alike alike
      · exact .setTimerStatus chain timer _
      · exact .setTimerStatus chain timer _
      · exact .cancelTimer chain _
      · exact .cancelTimer chain _
  | some event =>
      cases event with
      | registered other mode size =>
          have registered : ∀ before : Chain γ, before.Timed (before.registerRun other) :=
            fun _ => .alike (.same rfl rfl)
          obtain ⟨-, ctx, res, callback, ⟨-, rfl⟩ | ⟨-, rfl⟩⟩ := effect
          · exact (Chain.Timed.enter chain .sync ctx res callback).trans (registered _)
          · exact ((Chain.Timed.enter chain .async ctx res callback).trans (registered _)).trans
              (.setupGlobalTimeout _ _)
      | started other position =>
          have closed := Chain.Timed.addClosure chain other position
          obtain ⟨run, mw, -, -, ⟨-, rfl⟩ | ⟨-, rfl⟩⟩ := effect
          · exact closed.trans (.setupMiddlewareTimeout _ _ _ _)
          · exact closed
      | signalled other position signal =>
          exact (Chain.Timed.disarm chain other).trans (.alike effect)
      | cancelled other =>
          obtain rfl : after = chain.cancelRun other := effect
          exact .cancelRun chain other
      | passed _ _ | finished _ _ | unregistered _ _ | claimed _ _ | skipped _ _ | refused _ _
      | timedOut _ _ | overtaken _ | paused _ | errorHandled _ _ | timeoutHandled _
      | responded _ => exact .alike effect

/-- A start without a timer. -/
theorem setupMiddlewareTimeout_of_not_arms {run : Run} {mw : MiddlewareId} {position : Nat}
    (found : chain.run? call = some run) (isPosition : run.pipeline[position]? = some mw)
    (unarmed : chain.arms program call position = false) :
    (chain.addClosure call position).setupMiddlewareTimeout call position (program.timeout mw) =
      chain.addClosure call position := by
  refine if_neg fun both => ?_
  obtain ⟨positive, withLoop⟩ := Bool.and_eq_true_iff.mp both
  have loop : chain.settings.ioContext = true := withLoop
  simp [Chain.arms, found, isPosition, loop, of_decide_eq_true positive] at unarmed

/-- A move spares the timers of a call which it does not touch, unless it leaves a
timer's handler or finishes the call. -/
theorem Effect.spares (effect : Effect program chain thread after event) (owned : chain.Owned)
    (call : CallId) :
    chain.Spares call after ∨
      (∃ touching, event = some touching ∧ touching.touches program chain call = true) ∨
      (event = none ∧ ∃ timer status, .timerDone timer ∈ thread.stack.head? ∧
        thread.control ≠ .timerHandler timer ∧ after = chain.setTimerStatus timer status) ∨
      thread.control.finishes? = some call := by
  cases event with
  | none =>
      rcases effect with alike | ⟨timer, live, top, leaving, outcome⟩ |
        ⟨other, run, finishes, found, outcome⟩
      · exact .inl (.alike alike)
      · have other : thread.control ≠ .timerHandler timer := by
          rcases leaving with ⟨verdict, control⟩ | ⟨e, control⟩ <;> rw [control] <;> simp
        rcases outcome with rfl | rfl
        · exact .inr (.inr (.inl ⟨rfl, timer, _, top, other, rfl⟩))
        · exact .inr (.inr (.inl ⟨rfl, timer, _, top, other, rfl⟩))
      · by_cases same : other = call
        · exact .inr (.inr (.inr (same ▸ finishes)))
        · refine .inl ?_
          rcases outcome with rfl | rfl
          · exact .cancelTimer fun _ isGlobal =>
              Chain.Spares.foreign owned same found (.inl isGlobal)
          · exact .cancelTimer fun _ slot => Chain.Spares.foreign owned same found (.inr slot)
  | some event =>
      cases touches : event.touches program chain call with
      | true => exact .inr (.inl ⟨event, rfl, touches⟩)
      | false =>
          refine .inl ?_
          cases event with
          | registered other mode size =>
              have registered : ∀ before : Chain γ,
                  before.Spares call (before.registerRun other) := fun _ => .same rfl rfl
              obtain ⟨-, ctx, res, callback, ⟨-, rfl⟩ | ⟨-, rfl⟩⟩ := effect
              · exact (Chain.Spares.enter chain .sync ctx res callback).trans (registered _)
              · exact ((Chain.Spares.enter chain .async ctx res callback).trans
                  (registered _)).trans (.setupGlobalTimeout _ _)
          | started other position =>
              have closed : chain.Spares call (chain.addClosure other position) :=
                .addClosure chain other position
              obtain ⟨run, mw, found, isPosition, ⟨-, rfl⟩ | ⟨-, rfl⟩⟩ := effect
              · by_cases same : other = call
                · subst same
                  have unarmed : chain.arms program other position = false := by
                    simpa [Event.touches] using touches
                  rwa [setupMiddlewareTimeout_of_not_arms found isPosition unarmed]
                · exact closed.trans (.setupMiddlewareTimeout
                    (owned.timed (.addClosure chain other position)) same _ _)
              · exact closed
          | signalled other position signal =>
              have different : other ≠ call := by simpa [Event.touches] using touches
              exact (Chain.Spares.disarm owned different).trans (.alike effect)
          | cancelled other =>
              have different : other ≠ call := by simpa [Event.touches] using touches
              obtain rfl : after = chain.cancelRun other := effect
              exact .cancelRun owned different
          | passed _ _ | finished _ _ | unregistered _ _ | claimed _ _ | skipped _ _
          | refused _ _ | timedOut _ _ | overtaken _ | paused _ | errorHandled _ _
          | timeoutHandled _ | responded _ => exact .alike effect

end Account

/-! ## Live runs -/

/-- A run which the chain has entered, and not finished, cancelled or timed out. -/
def Ledger.Live (ledger : Ledger) (call : CallId) : Prop :=
  ∃ view, ledger.runs call = some view ∧ view.finished = false ∧ view.cancelled = false ∧
    view.timedOut = false

/-- A run which the chain has entered and timed out. -/
def Ledger.TimedOut (ledger : Ledger) (call : CallId) : Prop :=
  ∃ view, ledger.runs call = some view ∧ view.timedOut = true

/-- The ledger's live runs are those whose flags are down. -/
theorem live_iff (world : World γ) (call : CallId) :
    world.chain.live call = true ↔ world.ledger.Live call := by
  have books : world.ledger.runs call = (world.chain.run? call).map Run.view := rfl
  unfold Ledger.Live Chain.live
  rw [books]
  cases world.chain.run? call with
  | none => simp
  | some run => simp [Run.view, and_assoc]

theorem Ledger.Live.not_timedOut {ledger : Ledger} {call : CallId} (live : ledger.Live call) :
    ¬ ledger.TimedOut call := by
  obtain ⟨view, found, -, -, down⟩ := live
  rintro ⟨other, same, up⟩
  cases found.symm.trans same
  rw [down] at up
  cases up

theorem Ledger.Live.not_finished {ledger : Ledger} {call : CallId} (live : ledger.Live call) :
    ¬ ledger.Finished call := by
  obtain ⟨view, found, down, -⟩ := live
  exact Ledger.not_finished found down

section Step

variable {program : Program γ} {guard : System.Guard (World γ) Event} {events : List Event}
  {world after : World γ} {choice : Choice γ} {event : Option Event} {call : CallId}

/-- A run which is live after a move was live before it. -/
theorem step_live (run : (system program).Runs guard events world)
    (moved : step program world choice = some (event, after)) {view : RunView}
    (known : world.ledger.runs call = some view) (live : after.ledger.Live call) :
    world.ledger.Live call := by
  obtain ⟨next, present, grows⟩ := step_grows run moved known
  obtain ⟨last, same, finished, cancelled, timedOut⟩ := live
  cases present.symm.trans same
  refine ⟨view, known, ?_, ?_, ?_⟩
  · exact Bool.eq_false_iff.mpr fun up => Bool.eq_false_iff.mp finished (grows.finished up)
  · exact Bool.eq_false_iff.mpr fun up => Bool.eq_false_iff.mp cancelled (grows.cancelled up)
  · exact Bool.eq_false_iff.mpr fun up => Bool.eq_false_iff.mp timedOut (grows.timedOut up)

theorem step_timedOut (run : (system program).Runs guard events world)
    (moved : step program world choice = some (event, after))
    (timedOut : world.ledger.TimedOut call) : after.ledger.TimedOut call := by
  obtain ⟨view, found, up⟩ := timedOut
  obtain ⟨next, present, grows⟩ := step_grows run moved found
  exact ⟨next, present, grows.timedOut up⟩

/-- Cancelling a run ends its life. -/
theorem not_live_of_cancelled
    (moved : step program world choice = some (some (.cancelled call), after)) :
    ¬ after.ledger.Live call := by
  rintro ⟨view, found, -, cancelled, -⟩
  rw [step_runs call moved fun mode size => by simp] at found
  obtain ⟨before, -, rfl⟩ := Option.map_eq_some_iff.mp found
  simp [Event.onView] at cancelled

/-- The run which a timeout marks is timed out. -/
theorem timedOut_of_mark {timer : Option TimerId}
    (moved : step program world choice = some (some (.timedOut call timer), after)) :
    after.ledger.TimedOut call := by
  obtain ⟨⟨view, found, -⟩, -⟩ := (refines program).event moved
  have marked := step_runs call moved fun mode size => by simp
  rw [found, Option.map_some] at marked
  exact ⟨_, marked, by simp [Event.onView]⟩

/-! ## The timers in a step -/

/-- What a move of the environment makes of the timers. -/
theorem environment_timers (moved : step program world choice = some (event, after))
    (environment : ∀ index, choice ≠ .thread index) :
    world.chain.Alike after.chain ∨
      ∃ timer entry status, world.chain.timers[timer]? = some entry ∧
        after.chain = world.chain.setTimerStatus timer status ∧
        (entry.status = .armed ∧ (∃ live, status = .expired live) ∨
          ∃ live, entry.status = .expired live ∧
            (status = .handling live ∨
              status = .returned live ∧ entry.call ∉ world.chain.activeRuns)) := by
  cases choice with
  | thread index => exact absurd rfl (environment index)
  | spawn code =>
      cases moved
      exact .inl (.refl _)
  | tick duration =>
      cases moved
      exact .inl (.same rfl rfl)
  | expire timer =>
      simp only [step] at moved
      split at moved
      · rename_i found
        split at moved
        · cases moved
          exact .inr ⟨timer, _, _, found, rfl, .inl ⟨rfl, _, rfl⟩⟩
        · cases moved
      · cases moved
  | dispatch timer alive =>
      simp only [step] at moved
      split at moved
      · rename_i live found
        split at moved
        · cases moved
          exact .inr ⟨timer, _, _, found, rfl, .inr ⟨live, rfl, .inl rfl⟩⟩
        · split at moved
          · cases moved
          · rename_i unregistered
            cases moved
            exact .inr ⟨timer, _, _, found, rfl, .inr ⟨live, rfl, .inr ⟨rfl, unregistered⟩⟩⟩
      · cases moved

/-- In every move timers keep their identity. -/
theorem step_timed (moved : step program world choice = some (event, after)) :
    world.chain.Timed after.chain := by
  by_cases own : ∃ index, choice = .thread index
  · obtain ⟨index, rfl⟩ := own
    obtain ⟨thread, move, -, advanced, -, rfl⟩ := step_thread program moved
    exact (advance_traced advanced).effect.timed
  · rcases environment_timers moved (not_exists.mp own) with alike | ⟨timer, _, status, -, same, -⟩
    · exact .alike alike
    · rw [same]
      exact .setTimerStatus world.chain timer status

/-- The run of this timer is timed out. -/
def Chain.Late (chain : Chain γ) (ledger : Ledger) (timer : TimerId) : Prop :=
  ∃ entry, chain.timers[timer]? = some entry ∧ ledger.TimedOut entry.call

/-- Whoever is in a timer's handler has just begun it, or its run is timed out. -/
def HandlersMark (world : World γ) : Prop :=
  ∀ thread ∈ world.threads, ∀ timer, .timerDone timer ∈ thread.stack →
    thread = ⟨.timerHandler timer, [.timerDone timer]⟩ ∨ world.chain.Late world.ledger timer

/-- The first move of a timer's handler finds its run timed out, or marks it. -/
theorem handler_marks {thread : Thread γ} {move : Move γ} {timer : TimerId}
    (begun : thread = ⟨.timerHandler timer, [.timerDone timer]⟩)
    (run : (system program).Runs guard events world)
    (advanced : advance program world.chain thread = some move)
    (moved : step program world choice = some (move.event, after)) :
    world.chain.Late after.ledger timer := by
  subst begun
  simp only [advance, timerHandler] at advanced
  split at advanced
  · cases advanced
  · rename_i entry found
    split at advanced
    · cases advanced
    · rename_i entered inside
      refine ⟨entry, found, ?_⟩
      split at advanced
      · rename_i up
        exact step_timedOut run moved ⟨entered.view, World.ledger_runs inside, up⟩
      · split at advanced
        · cases advanced
          exact timedOut_of_mark moved
        · cases advanced
          exact timedOut_of_mark moved

theorem HandlersMark.step (handlers : HandlersMark world)
    (run : (system program).Runs guard events world)
    (moved : step program world choice = some (event, after)) : HandlersMark after := by
  -- a timer whose run is timed out stays one
  have kept : ∀ timer, world.chain.Late after.ledger timer →
      after.chain.Late after.ledger timer := by
    rintro timer ⟨entry, found, timedOut⟩
    obtain ⟨status, later⟩ := (step_timed moved).lasts timer entry found
    exact ⟨_, later, timedOut⟩
  have others : ∀ thread ∈ world.threads, ∀ timer, .timerDone timer ∈ thread.stack →
      thread = ⟨.timerHandler timer, [.timerDone timer]⟩ ∨
        after.chain.Late after.ledger timer := by
    intro thread member timer waits
    rcases handlers thread member timer waits with begun | ⟨entry, found, timedOut⟩
    · exact .inl begun
    · exact .inr (kept timer ⟨entry, found, step_timedOut run moved timedOut⟩)
  by_cases own : ∃ index, choice = .thread index
  · obtain ⟨index, rfl⟩ := own
    obtain ⟨thread, move, found, advanced, rfl, rfl⟩ := step_thread program moved
    intro other isOther timer waits
    rcases List.mem_or_eq_of_mem_set isOther with old | rfl
    · exact others other old timer waits
    · refine .inr (kept timer ?_)
      have member := List.mem_of_getElem? found
      rcases handlers thread member timer (timerDone_before advanced waits) with
        begun | ⟨entry, isTimer, timedOut⟩
      · exact handler_marks begun run advanced moved
      · exact ⟨entry, isTimer, step_timedOut run moved timedOut⟩
  · obtain ⟨-, -, threads⟩ := environment_moves moved (not_exists.mp own)
    intro other isOther timer waits
    rcases threads with same | ⟨new, grown, begun⟩
    · exact others other (same ▸ isOther) timer waits
    · rw [grown] at isOther
      rcases List.mem_append.mp isOther with old | last
      · exact others other old timer waits
      · obtain rfl := List.mem_singleton.mp last
        rcases begun with ⟨code, rfl⟩ | ⟨target, rfl⟩
        · cases waits
        · obtain rfl : timer = target := by simpa using waits
          exact .inl rfl

/-! ## The timer of a position in a step -/

/-- A timer of the position is pending, in the slot of its run as long as it is
armed. -/
def Chain.Standing (chain : Chain γ) (call : CallId) (position expiry : Nat) : Prop :=
  ∃ (timer : TimerId) (entry : Timer), chain.timers[timer]? = some entry ∧ entry.call = call ∧
    entry.position = some position ∧ entry.expiry = expiry ∧ entry.status.pending = true ∧
    (entry.status = .armed → ∃ run, chain.run? call = some run ∧
      run.state.middlewareTimeoutTimer = some timer)

section Standing

variable {chain next : Chain γ} {position expiry : Nat}

theorem Chain.Standing.keeps (standing : chain.Standing call position expiry) :
    chain.Keeps call position expiry := by
  obtain ⟨timer, entry, found, isCall, isPosition, isExpiry, pending, -⟩ := standing
  exact ⟨timer, entry, found, isCall, isPosition, isExpiry, pending⟩

theorem Chain.Standing.spared (standing : chain.Standing call position expiry)
    (spares : chain.Spares call next) : next.Standing call position expiry := by
  obtain ⟨timer, entry, found, isCall, isPosition, isExpiry, pending, slot⟩ := standing
  refine ⟨timer, entry, spares.timers timer entry found isCall, isCall, isPosition, isExpiry,
    pending, fun armed => ?_⟩
  obtain ⟨run, inside, isSlot⟩ := slot armed
  obtain ⟨after, later, same⟩ := spares.slot run inside
  exact ⟨after, later, same.trans isSlot⟩

/-- A new status of another timer, or a new one of this which is pending still. -/
theorem Chain.Standing.setTimerStatus (standing : chain.Standing call position expiry)
    {timer : TimerId} {status : TimerStatus}
    (passes : ∀ entry, chain.timers[timer]? = some entry → entry.call = call →
      entry.status.pending = true → status.pending = true ∧ status ≠ .armed) :
    (chain.setTimerStatus timer status).Standing call position expiry := by
  obtain ⟨own, entry, found, isCall, isPosition, isExpiry, pending, slot⟩ := standing
  by_cases same : timer = own
  · subst same
    obtain ⟨still, notArmed⟩ := passes entry found isCall pending
    refine ⟨timer, { entry with status := status }, ?_, isCall, isPosition, isExpiry, still,
      fun armed => absurd armed notArmed⟩
    simp [Chain.setTimerStatus, found]
  · refine ⟨own, entry, ?_, isCall, isPosition, isExpiry, pending, slot⟩
    simpa [Chain.setTimerStatus, List.getElem?_modify, same] using found

/-- Another position cancels no armed timer of this one, where the slot of the run
holds none. -/
theorem Chain.Standing.passed (standing : chain.Standing call position expiry)
    {other : Nat} (different : other ≠ position)
    (free : chain.holdsOther call other = false) (kept : chain.Kept next) :
    next.Standing call position expiry := by
  obtain ⟨timer, entry, found, isCall, isPosition, isExpiry, pending, slot⟩ := standing
  have notArmed : entry.status ≠ .armed := by
    intro armed
    obtain ⟨run, inside, isSlot⟩ := slot armed
    have holds : chain.holdsOther call other = true := by
      simp [Chain.holdsOther, inside, isSlot, found, armed, isPosition, different.symm]
    rw [free] at holds
    cases holds
  exact ⟨timer, entry, kept.settled timer entry found notArmed, isCall, isPosition, isExpiry,
    pending, fun armed => absurd armed notArmed⟩

/-- Starting a position with a timeout arms a timer for it in the slot. -/
theorem standing_of_setup {timeout : Nat} {run : Run} (found : chain.run? call = some run)
    (positive : 0 < timeout) (withLoop : chain.settings.ioContext = true) :
    (chain.setupMiddlewareTimeout call position timeout).Standing call position
      (chain.now + timeout) := by
  have now : (chain.disarm call).now = chain.now := by
    unfold Chain.disarm
    split
    · rfl
    · rename_i run _
      cases run.state.middlewareTimeoutTimer <;> rfl
  obtain ⟨state, inside⟩ := (Chain.SameRuns.disarm chain call).kept found
  unfold Chain.setupMiddlewareTimeout
  rw [if_pos (by simp [positive, withLoop])]
  refine ⟨chain.timers.length, ⟨call, some position, chain.now + timeout, .armed⟩, ?_, rfl, rfl,
    rfl, rfl, fun _ => ?_⟩
  · rw [← now, ← Chain.timers_length_disarm chain call]
    exact Chain.Timed.timers_addTimer _ _ _ _
  · have added : ((chain.disarm call).addTimer call (some position) timeout).run? call =
        some { run with state := state } := inside
    refine ⟨{ run with state := { state with
      middlewareTimeoutTimer := some chain.timers.length } }, ?_, rfl⟩
    rw [Chain.modifyState, Chain.run?_modifyRun, if_pos rfl, added]
    rfl

end Standing

/-- A position of a call is started once. -/
theorem started_once {position : Nat} (run : (system program).Runs guard events world)
    (moved : step program world choice = some (some (.started call position), after)) :
    .started call position ∉ events := by
  have unsettled : 0 < world.ledger.evaluating call position := ((refines program).event moved).1
  have balance := (run_balanced run).balance call position
  have below : settledCount call position events = 0 := by
    split at balance <;> omega
  simp only [settledCount] at below
  exact List.count_eq_zero.mp (by omega)

/-- The position which a move starts under a timeout has its timer. -/
theorem standing_of_start {position timeout : Nat}
    (run : (system program).Runs guard events world)
    (moved : step program world choice = some (event, after))
    (starts : StartsUnder program call position timeout ⟨world, choice, event, after⟩) :
    after.chain.Standing call position (world.chain.now + timeout) := by
  obtain ⟨isStart, withLoop, positive, entered, mw, found, async, isPosition, isTimeout⟩ := starts
  obtain rfl : event = some (.started call position) := isStart
  obtain ⟨index, thread, move, rfl, isThread, advanced, reported, rfl⟩ :=
    step_reports program moved
  have effect := (advance_traced advanced).effect
  rw [reported] at effect
  obtain ⟨same, other, again, isOther, ⟨-, grown⟩ | ⟨top, -⟩⟩ := effect
  · cases found.symm.trans again
    cases isPosition.symm.trans isOther
    have closed : (world.chain.addClosure call position).run? call =
        some { entered with closures := (position, world.chain.now) :: entered.closures } := by
      rw [Chain.addClosure, Chain.run?_modifyRun, if_pos rfl, found]
      rfl
    rw [grown, isTimeout]
    exact standing_of_setup closed positive withLoop
  · -- the driver of a synchronous run starts no asynchronous one
    obtain ⟨view, known, isSync⟩ := run_driven run thread (List.mem_of_getElem? isThread)
      (call, .sync) (.frame (List.mem_of_mem_head? top) rfl)
    cases (World.ledger_runs found).symm.trans known
    cases async.symm.trans isSync

/-- What the guard says of an event which touches a live run. -/
theorem slot_free {history : List (ChainMove γ)} {touching : Event}
    (allowed : slotIsOwn program history world (some ⟨world, choice, event, after⟩) = true)
    (reported : event = some touching)
    (touches : touching.touches program world.chain call = true)
    (live : world.chain.live call = true) :
    (∃ position, ((∃ signal, touching = .signalled call position signal) ∨
        touching = .started call position) ∧ world.chain.holdsOther call position = false) ∨
      touching = .cancelled call := by
  subst reported
  cases touching with
  | started other position =>
      obtain ⟨same, arms⟩ := Bool.and_eq_true_iff.mp touches
      obtain rfl : other = call := eq_of_beq same
      refine .inl ⟨position, .inr rfl, ?_⟩
      simpa [slotIsOwn, live, arms] using allowed
  | signalled other position signal =>
      obtain rfl : other = call := eq_of_beq touches
      refine .inl ⟨position, .inl ⟨signal, rfl⟩, ?_⟩
      simpa [slotIsOwn, live] using allowed
  | cancelled other =>
      obtain rfl : other = call := eq_of_beq touches
      exact .inr rfl
  | _ => cases touches

/-- The environment lets the wait of a timer succeed and calls its handler, and
drops the handler of no live run. -/
theorem Chain.Standing.environment {position expiry : Nat}
    (standing : world.chain.Standing call position expiry)
    (run : (system program).Runs guard events world)
    (moved : Middleware.step program world choice = some (event, after))
    (environment : ∀ index, choice ≠ .thread index) (live : world.ledger.Live call) :
    after.chain.Standing call position expiry := by
  rcases environment_timers moved environment with
    alike | ⟨timer, entry, status, found, same, outcome⟩
  · exact standing.spared (.alike alike)
  · rw [same]
    refine standing.setTimerStatus fun again isTimer isCall _ => ?_
    cases found.symm.trans isTimer
    rcases outcome with ⟨-, alive, rfl⟩ | ⟨alive, -, rfl | ⟨-, unregistered⟩⟩
    · exact ⟨rfl, by simp⟩
    · exact ⟨rfl, by simp⟩
    · obtain ⟨view, known, down, -⟩ := live
      rw [isCall] at unregistered
      exact absurd ((active_iff run).mpr (.inl ⟨view, known, down⟩)) unregistered

/-- The timer of a position stands as long as its run is live and it has not signalled. -/
theorem Chain.Standing.step {history : List (ChainMove γ)} {position expiry : Nat}
    (standing : world.chain.Standing call position expiry) (owned : world.chain.Owned)
    (handlers : HandlersMark world) (run : (system program).Runs guard events world)
    (moved : Middleware.step program world choice = some (event, after))
    (allowed : slotIsOwn program history world (some ⟨world, choice, event, after⟩) = true)
    (unsignalled : ∀ signal, event ≠ some (.signalled call position signal))
    (unstarted : event ≠ some (.started call position))
    (live : world.ledger.Live call) (still : after.ledger.Live call) :
    after.chain.Standing call position expiry := by
  by_cases own : ∃ index, choice = .thread index
  · obtain ⟨index, rfl⟩ := own
    obtain ⟨thread, move, found, advanced, rfl, rfl⟩ := step_thread program moved
    rcases (advance_traced advanced).effect.spares owned call with
      spares | ⟨touching, reported, touches⟩ | ⟨-, timer, status, top, notBegun, same⟩ |
        finishes
    · exact standing.spared spares
    · have inside : ¬ thread.leavesTimer := by
        rintro ⟨timer, below, shape, leaving⟩
        obtain ⟨control, stack⟩ := thread
        obtain rfl : stack = .timerDone timer :: below := shape
        obtain ⟨-, -, -, -, silent, -⟩ := advance_leavesTimer leaving advanced
        rw [reported] at silent
        cases silent
      rcases slot_free allowed reported touches ((live_iff world call).mpr live) with
        ⟨other, isOther, free⟩ | rfl
      · have different : other ≠ position := by
          rintro rfl
          rcases isOther with ⟨signal, rfl⟩ | rfl
          · exact unsignalled signal reported
          · exact unstarted reported
        exact standing.passed different free (advance_framed advanced inside).kept
      · exact absurd still (not_live_of_cancelled (reported ▸ moved))
    · -- the handler which returns has found or left its run timed out
      change move.chain.Standing call position expiry
      rw [same]
      refine standing.setTimerStatus fun entry isTimer isCall _ => ?_
      rcases handlers thread (List.mem_of_getElem? found) timer (List.mem_of_mem_head? top) with
        begun | ⟨other, again, timedOut⟩
      · exact absurd (congrArg Thread.control begun) notBegun
      · cases isTimer.symm.trans again
        exact absurd (isCall ▸ timedOut) live.not_timedOut
    · -- a run which is being finished is not live
      have finishing : world.Finishing call := ⟨thread, List.mem_of_getElem? found, finishes⟩
      exact absurd (finished_of_finishing run finishing) live.not_finished
  · exact standing.environment run moved (not_exists.mp own) live

end Step

/-! ## Along a run -/

/-- What the timers of a world are after a history. -/
structure Watched (program : Program γ) (history : List (ChainMove γ)) (world : World γ) :
    Prop where
  owned : world.chain.Owned
  handlers : HandlersMark world
  entered : ∀ call position timeout, ∀ taken ∈ history,
    StartsUnder program call position timeout taken → ∃ view, world.ledger.runs call = some view
  standing : ∀ call position timeout, ∀ taken ∈ history,
    StartsUnder program call position timeout taken →
    (∀ moved ∈ history, ∀ signal, moved.event ≠ some (.signalled call position signal)) →
    world.ledger.Live call → world.chain.Standing call position (taken.before.chain.now + timeout)

section Run

variable {program : Program γ} {guard : System.Guard (World γ) (ChainMove γ)}
  {history : List (ChainMove γ)} {world after : World γ} {choice : Choice γ}
  {event : Option Event}

theorem Watched.step (watched : Watched program history world)
    (prior : (system program).recorded.Runs guard history world)
    (moved : Middleware.step program world choice = some (event, after))
    (allowed : slotIsOwn program history world (some ⟨world, choice, event, after⟩) = true) :
    Watched program (history ++ [⟨world, choice, event, after⟩]) after := by
  have run := prior.reported
  refine ⟨watched.owned.timed (step_timed moved), watched.handlers.step run moved, ?_, ?_⟩
  · intro call position timeout taken member starts
    have before : ∃ view, world.ledger.runs call = some view := by
      rcases List.mem_append.mp member with old | new
      · exact watched.entered call position timeout taken old starts
      · obtain rfl := List.mem_singleton.mp new
        obtain ⟨-, -, -, entered, -, found, -⟩ := starts
        exact ⟨entered.view, World.ledger_runs found⟩
    obtain ⟨view, known⟩ := before
    obtain ⟨next, present, -⟩ := step_grows run moved known
    exact ⟨next, present⟩
  · intro call position timeout taken member starts unsignalled live
    rcases List.mem_append.mp member with old | new
    · obtain ⟨view, known⟩ := watched.entered call position timeout taken old starts
      have alive := step_live run moved known live
      have quiet : ∀ signal, event ≠ some (.signalled call position signal) :=
        unsignalled ⟨world, choice, event, after⟩ (by simp)
      have unstarted : event ≠ some (.started call position) := by
        rintro rfl
        exact started_once run moved (List.mem_filterMap.mpr ⟨taken, old, starts.1⟩)
      have standing := watched.standing call position timeout taken old starts
        (fun moved member => unsignalled moved (List.mem_append_left _ member)) alive
      exact standing.step watched.owned watched.handlers run moved allowed quiet unstarted alive
        live
    · obtain rfl := List.mem_singleton.mp new
      exact standing_of_start run moved starts

theorem run_watched
    (run : (system program).recorded.Runs (System.Guard.of (slotIsOwn program)) history world) :
    Watched program history world := by
  induction run with
  | initial valid =>
      obtain ⟨settings, stats, now, rfl⟩ := valid
      refine ⟨fun call run found => ?_, fun thread member => ?_, fun _ _ _ taken member => ?_,
        fun _ _ _ taken member => ?_⟩
      · simp [Chain.run?, Chain.fresh] at found
      · cases member
      · cases member
      · cases member
  | move prior transition allowed inductionHypothesis =>
      obtain ⟨event, moved, rfl⟩ := System.recorded_step transition
      exact inductionHypothesis.step prior moved allowed

/-- **A started middleware keeps its own timeout** in every run of the machine,
under every program and interleaving, in which no middleware of a live run
signals, and none starts with a timeout, while the slot of the run holds the
armed timer of another. -/
theorem keeps_timeouts
    (run : (system program).recorded.Runs (System.Guard.of (slotIsOwn program)) history world) :
    KeepsTimeouts program history world := by
  intro call position timeout taken member starts unsignalled live
  exact ((run_watched run).standing call position timeout taken member starts unsignalled
    ((live_iff world call).mp live)).keeps

end Run

/-- The first middleware runs this code, and the others return without a signal. -/
def Program.waiting (first : Handle → Code γ) (timeout : MiddlewareId → Nat) : Program γ :=
  { Program.overriding fun mw handle => if mw = 0 then first handle else .ret true with
    timeout := timeout }

/-- Two middlewares with a timeout, the first of which signals in time. -/
theorem keeps_timeouts_two_positions :
    ∃ reached : List (ChainMove Unit) × World Unit,
      (system (Program.waiting (.signal · .Continue) fun _ => 10)).recorded.follow
          (System.Guard.of (slotIsOwn (Program.waiting (.signal · .Continue) fun _ => 10))) []
          ⟨.fresh (Settings.plain [0, 1]) (fun _ => ⟨0, 0, 0, 0⟩) 0, []⟩
          (alone (.request ()) 17) = some reached ∧
        reached.2.chain.timers.map Timer.status = [.cancelled, .armed] ∧
        KeepsTimeouts (Program.waiting (.signal · .Continue) fun _ => 10) reached.1 reached.2 := by
  have start : (system (Program.waiting (.signal · .Continue) fun _ => 10)).recorded.Runs
      (System.Guard.of (slotIsOwn (Program.waiting (.signal · .Continue) fun _ => 10)))
      ([] : List (ChainMove Unit))
      ⟨.fresh (Settings.plain [0, 1]) (fun _ => ⟨0, 0, 0, 0⟩) 0, []⟩ :=
    .initial ⟨_, _, _, rfl⟩
  exact start.reaches rfl fun run => ⟨rfl, keeps_timeouts run⟩

/-- Is the move a signal of this position? -/
def signals (call : CallId) (position : Nat) (moved : ChainMove γ) : Bool :=
  match moved.event with
  | some (.signalled other index _) => other == call && index == position
  | _ => false

/-- Is this a pending timer of this position? -/
def Timer.watches (call : CallId) (position : Nat) (timer : Timer) : Bool :=
  timer.call == call && timer.position == some position && timer.status.pending

/-- A middleware of a live run which has not signalled and whose timer is gone. -/
theorem not_keepsTimeouts {program : Program γ} {history : List (ChainMove γ)} {world : World γ}
    (index : Nat) (call : CallId) (position : Nat) {timeout : Nat} {taken : ChainMove γ}
    (found : history[index]? = some taken)
    (starts : StartsUnder program call position timeout taken)
    (quiet : history.any (signals call position) = false) (live : world.chain.live call = true)
    (gone : world.chain.timers.any (Timer.watches call position) = false) :
    ¬ KeepsTimeouts program history world := by
  intro keeps
  have unsignalled : ∀ moved ∈ history, ∀ signal,
      moved.event ≠ some (.signalled call position signal) := by
    intro moved member signal reported
    have signalled := List.any_eq_false.mp quiet moved member
    simp [signals, reported] at signalled
  obtain ⟨timer, entry, isTimer, isCall, isPosition, -, pending⟩ :=
    keeps call position timeout taken (List.mem_of_getElem? found) starts unsignalled live
  have watched := List.any_eq_false.mp gone entry (List.mem_of_getElem? isTimer)
  simp [Timer.watches, isCall, isPosition, pending] at watched

/-- The late `callback` of the first middleware cancels the timer of the second,
which never signals, and starts the third. -/
theorem callback_cancels_other_timer :
    ∃ reached : List (ChainMove Unit) × World Unit,
      (system (Program.waiting .nextThenContinue fun mw =>
            if mw = 1 then 10 else 0)).recorded.follow
          System.anyMove [] ⟨.fresh (Settings.plain [0, 1, 2]) (fun _ => ⟨0, 0, 0, 0⟩) 0, []⟩
          (alone (.request ()) 24) = some reached ∧
        ¬ KeepsTimeouts (Program.waiting .nextThenContinue fun mw => if mw = 1 then 10 else 0)
          reached.1 reached.2 :=
  ⟨_, rfl, not_keepsTimeouts 8 0 1 rfl
    ⟨rfl, rfl, Nat.succ_pos 9, _, _, rfl, rfl, rfl, rfl⟩ rfl rfl rfl⟩

end Foxhttp.Middleware
