import Mathlib.Data.List.Perm.Basic
import Foxhttp.Library.Transition

/-!
# Signals and their handlers

`SignalSet` waits for a signal, runs the handlers of it on a strand and waits again,
until it is stopped. A signal which comes while nobody waits is kept for the next wait.
The test of `stopped_` and the wait behind it are apart, and a stop may come between.
-/

namespace Foxhttp.Server

open Foxhttp.Library

/-- Where the handler on the strand is. -/
inductive SignalPhase where
  /-- No handler runs. -/
  | idle
  /-- `handle_signal` has returned. -/
  | handled
  /-- `stopped_` was not set, and the next wait is to be made. -/
  | passed
deriving DecidableEq

/-- `SignalSet`, with the `signal_set`. -/
structure SignalSet where
  /-- `signal_handlers_`, by signal in the order of their registration. -/
  signalHandlers : List (Int × Nat) := []
  errorHandler : Bool := false
  stopped : Bool := false
  /-- Calls of `start` which have passed the test. -/
  starting : Nat := 0
  /-- Waits which are not complete. -/
  waits : Nat := 0
  /-- Signals kept for the next wait. -/
  undelivered : List Int := []
  /-- Completed waits whose handlers are to run on the strand: a signal, or an error. -/
  ready : List (Option Int) := []
  phase : SignalPhase := .idle
deriving DecidableEq

/-- What happens to a signal set. -/
inductive SignalChoice where
  | registerHandler (signal : Int) (handler : Nat)
  | setErrorHandler
  /-- `start` tests `stopped_`. -/
  | start
  /-- `start` goes on to wait; the next wait takes any of the signals kept. -/
  | startWait (which : Nat)
  /-- `stop` stores `stopped_`. -/
  | storeStopped
  /-- `stop` goes on to cancel. -/
  | cancel
  | raise (signal : Int)
  /-- The next completed wait is handled. -/
  | handle
  /-- The handler tests `stopped_`. -/
  | test
  /-- The handler goes on to wait. -/
  | waitAgain (which : Nat)
deriving DecidableEq

/-- What is seen of a signal set. -/
inductive SignalEvent where
  | registered (signal : Int) (handler : Nat)
  | started
  | stopped
  | raised (signal : Int)
  /-- The handlers which are called with a signal. -/
  | dispatched (signal : Int) (handlers : List Nat)
  /-- The error handler is called. -/
  | failed
deriving DecidableEq

namespace SignalSet

/-- The handlers of a signal. -/
def handlersOf (set : SignalSet) (signal : Int) : List Nat :=
  (set.signalHandlers.filter fun entry => entry.1 == signal).map Prod.snd

/-- `do_async_wait`. -/
def doAsyncWait (set : SignalSet) (which : Nat) : Option SignalSet :=
  if set.undelivered = [] then some { set with waits := set.waits + 1 }
  else
    set.undelivered[which]?.map fun signal =>
      { set with
        undelivered := set.undelivered.eraseIdx which
        ready := set.ready ++ [some signal] }

/-- A signal comes: it completes the waits, or it is kept. -/
def deliver (set : SignalSet) (signal : Int) : SignalSet :=
  if set.waits = 0 then { set with undelivered := set.undelivered ++ [signal] }
  else
    { set with waits := 0, ready := set.ready ++ List.replicate set.waits (some signal) }

/-- What a signal set makes of what happens to it. -/
def step (set : SignalSet) : SignalChoice → Option (Option SignalEvent × SignalSet)
  | .registerHandler signal handler =>
      some (some (.registered signal handler),
        { set with signalHandlers := set.signalHandlers ++ [(signal, handler)] })
  | .setErrorHandler => some (none, { set with errorHandler := true })
  | .start =>
      if set.stopped then some (none, set)
      else some (some .started, { set with starting := set.starting + 1 })
  | .startWait which =>
      if set.starting = 0 then none
      else (doAsyncWait { set with starting := set.starting - 1 } which).map fun set => (none, set)
  | .storeStopped => some (some .stopped, { set with stopped := true })
  | .cancel =>
      if set.stopped then
        some (none,
          { set with waits := 0, ready := set.ready ++ List.replicate set.waits none })
      else none
  | .raise signal =>
      -- A signal without a handler does not reach the set.
      if set.handlersOf signal = [] then some (none, set)
      else some (some (.raised signal), set.deliver signal)
  | .handle =>
      if set.phase = .idle then
        match set.ready with
        | [] => none
        | none :: ready =>
            some (if set.errorHandler then some .failed else none, { set with ready })
        | some signal :: ready =>
            some (some (.dispatched signal (set.handlersOf signal)),
              { set with ready, phase := .handled })
      else none
  | .test =>
      if set.phase = .handled then
        some (none, { set with phase := if set.stopped then .idle else .passed })
      else none
  | .waitAgain which =>
      if set.phase = .passed then
        (doAsyncWait { set with phase := .idle } which).map fun set => (none, set)
      else none

/-- Signal sets. -/
def system : System SignalSet SignalChoice SignalEvent where
  Initial set := set = {}
  step := step

/-- What a move can do. -/
inductive Moved (set : SignalSet) : SignalChoice → Option SignalEvent → SignalSet → Prop
  | registered (signal : Int) (handler : Nat) :
      Moved set (.registerHandler signal handler) (some (.registered signal handler))
        { set with signalHandlers := set.signalHandlers ++ [(signal, handler)] }
  | errorHandlerSet : Moved set .setErrorHandler none { set with errorHandler := true }
  | stoppedBefore (stopped : set.stopped = true) : Moved set .start none set
  | started (running : set.stopped = false) :
      Moved set .start (some .started) { set with starting := set.starting + 1 }
  | firstWait {which : Nat} {next : SignalSet} (starting : set.starting ≠ 0)
      (waits : doAsyncWait { set with starting := set.starting - 1 } which = some next) :
      Moved set (.startWait which) none next
  | stopped : Moved set .storeStopped (some .stopped) { set with stopped := true }
  | cancelled (stopped : set.stopped = true) :
      Moved set .cancel none
        { set with waits := 0, ready := set.ready ++ List.replicate set.waits none }
  | ignored {signal : Int} (noHandler : set.handlersOf signal = []) :
      Moved set (.raise signal) none set
  | raised {signal : Int} (handlers : set.handlersOf signal ≠ []) :
      Moved set (.raise signal) (some (.raised signal)) (set.deliver signal)
  | failed {ready : List (Option Int)} (isIdle : set.phase = .idle)
      (isReady : set.ready = none :: ready) (handler : set.errorHandler = true) :
      Moved set .handle (some .failed) { set with ready }
  | dropped {ready : List (Option Int)} (isIdle : set.phase = .idle)
      (isReady : set.ready = none :: ready) (noHandler : set.errorHandler = false) :
      Moved set .handle none { set with ready }
  | dispatched {signal : Int} {ready : List (Option Int)} (isIdle : set.phase = .idle)
      (isReady : set.ready = some signal :: ready) :
      Moved set .handle (some (.dispatched signal (set.handlersOf signal)))
        { set with ready, phase := .handled }
  | ended (isHandled : set.phase = .handled) (stopped : set.stopped = true) :
      Moved set .test none { set with phase := .idle }
  | passed (isHandled : set.phase = .handled) (running : set.stopped = false) :
      Moved set .test none { set with phase := .passed }
  | nextWait {which : Nat} {next : SignalSet} (isPassed : set.phase = .passed)
      (waits : doAsyncWait { set with phase := .idle } which = some next) :
      Moved set (.waitAgain which) none next

theorem moved_of_step {set next : SignalSet} {choice : SignalChoice} {event : Option SignalEvent}
    (stepped : set.step choice = some (event, next)) : Moved set choice event next := by
  cases choice with
  | registerHandler signal handler =>
      cases stepped
      exact .registered signal handler
  | setErrorHandler =>
      cases stepped
      exact .errorHandlerSet
  | start =>
      simp only [step] at stepped
      split at stepped
      · rename_i stopped
        cases stepped
        exact .stoppedBefore stopped
      · rename_i running
        cases stepped
        exact .started (Bool.eq_false_iff.mpr running)
  | startWait which =>
      simp only [step] at stepped
      split at stepped
      · cases stepped
      · rename_i starting
        obtain ⟨_, waits, outcome⟩ := Option.map_eq_some_iff.mp stepped
        cases outcome
        exact .firstWait starting waits
  | storeStopped =>
      cases stepped
      exact .stopped
  | cancel =>
      obtain ⟨stopped, outcome⟩ := Option.ite_none_right_eq_some.mp stepped
      cases outcome
      exact .cancelled stopped
  | raise signal =>
      simp only [step] at stepped
      split at stepped
      · rename_i noHandler
        cases stepped
        exact .ignored noHandler
      · rename_i handlers
        cases stepped
        exact .raised handlers
  | handle =>
      obtain ⟨isIdle, outcome⟩ := Option.ite_none_right_eq_some.mp stepped
      split at outcome
      · cases outcome
      · rename_i ready isReady
        split at outcome
        · rename_i handler
          cases outcome
          exact .failed isIdle isReady handler
        · rename_i noHandler
          cases outcome
          exact .dropped isIdle isReady (Bool.eq_false_iff.mpr noHandler)
      · rename_i signal ready isReady
        cases outcome
        exact .dispatched isIdle isReady
  | test =>
      obtain ⟨isHandled, outcome⟩ := Option.ite_none_right_eq_some.mp stepped
      split at outcome
      · rename_i stopped
        cases outcome
        exact .ended isHandled stopped
      · rename_i running
        cases outcome
        exact .passed isHandled (Bool.eq_false_iff.mpr running)
  | waitAgain which =>
      obtain ⟨isPassed, taken⟩ := Option.ite_none_right_eq_some.mp stepped
      obtain ⟨_, waits, outcome⟩ := Option.map_eq_some_iff.mp taken
      cases outcome
      exact .nextWait isPassed waits

/-! ## Waits -/

/-- What will wait, waits or has waited and is not handled to its end. -/
def inHand (set : SignalSet) : Nat :=
  set.starting + set.waits + set.ready.length + if set.phase = .idle then 0 else 1

/-- The signals which came and are not handled. -/
def pending (set : SignalSet) : List Int :=
  set.undelivered ++ set.ready.filterMap id

/-- How often the set was started. -/
def starts (events : List SignalEvent) : Nat :=
  events.countP fun
    | .started => true
    | _ => false

/-- How often signals and errors were dispatched to their handlers. -/
def calls (events : List SignalEvent) : Nat :=
  events.countP fun
    | .dispatched _ _ | .failed => true
    | _ => false

/-- How often a signal came. -/
def raisedCount (signal : Int) (events : List SignalEvent) : Nat :=
  events.count (.raised signal)

/-- How often a signal was dispatched. -/
def dispatchedCount (signal : Int) (events : List SignalEvent) : Nat :=
  events.countP fun
    | .dispatched other _ => other == signal
    | _ => false

/-- The handlers registered for a signal. -/
def registeredFor (signal : Int) (events : List SignalEvent) : List Nat :=
  events.filterMap fun
    | .registered other handler => if other = signal then some handler else none
    | _ => none

section Counts

variable (events more : List SignalEvent) (signal : Int)

@[simp] theorem starts_append : starts (events ++ more) = starts events + starts more :=
  List.countP_append

@[simp] theorem calls_append : calls (events ++ more) = calls events + calls more :=
  List.countP_append

@[simp] theorem raisedCount_append :
    raisedCount signal (events ++ more) = raisedCount signal events + raisedCount signal more :=
  List.count_append

@[simp] theorem dispatchedCount_append : dispatchedCount signal (events ++ more) =
    dispatchedCount signal events + dispatchedCount signal more :=
  List.countP_append

@[simp] theorem registeredFor_append : registeredFor signal (events ++ more) =
    registeredFor signal events ++ registeredFor signal more :=
  List.filterMap_append

theorem raisedCount_raised (other : Int) :
    raisedCount signal [.raised other] = [other].count signal := by
  by_cases same : other = signal <;> simp [raisedCount, same]

theorem dispatchedCount_dispatched (other : Int) (handlers : List Nat) :
    dispatchedCount signal [.dispatched other handlers] = [other].count signal := by
  by_cases same : other = signal <;> simp [dispatchedCount, same]

end Counts

/-- What holds of a set and the events so far. -/
structure Sound (events : List SignalEvent) (set : SignalSet) : Prop where
  registered : ∀ signal, set.handlersOf signal = registeredFor signal events
  atMost : set.inHand ≤ starts events
  going : set.stopped = false → set.inHand = starts events
  errors : none ∈ set.ready → set.stopped = true
  kept : set.undelivered ≠ [] → set.waits = 0
  once : starts events ≤ 1 → ∀ signal,
    raisedCount signal events = dispatchedCount signal events + set.pending.count signal

variable {set next : SignalSet} {events : List SignalEvent} {event : Option SignalEvent}

/-- What a set may do without being seen. -/
structure Quiet (set next : SignalSet) : Prop where
  signalHandlers : next.signalHandlers = set.signalHandlers
  stopped : next.stopped = set.stopped
  atMost : next.inHand ≤ set.inHand
  going : set.stopped = false → next.inHand = set.inHand
  pending : next.pending.Perm set.pending
  errors : none ∈ next.ready → none ∈ set.ready ∨ set.stopped = true
  kept : (set.undelivered ≠ [] → set.waits = 0) → next.undelivered ≠ [] → next.waits = 0

theorem Sound.quiet (sound : Sound events set) (quiet : Quiet set next) : Sound events next where
  registered signal := by
    rw [← sound.registered signal, handlersOf, handlersOf, quiet.signalHandlers]
  atMost := Nat.le_trans quiet.atMost sound.atMost
  going running := by
    rw [quiet.stopped] at running
    rw [quiet.going running, sound.going running]
  errors error := by
    rw [quiet.stopped]
    exact (quiet.errors error).elim sound.errors id
  kept := quiet.kept sound.kept
  once few signal := by rw [sound.once few signal, quiet.pending.count_eq]

/-- A wait is made by who was to wait, and takes a signal which is kept. -/
theorem Quiet.doAsyncWait {other : SignalSet} {which : Nat}
    (waits : set.doAsyncWait which = some next) (signalHandlers : set.signalHandlers =
      other.signalHandlers) (stopped : set.stopped = other.stopped)
    (inHand : set.inHand + 1 = other.inHand) (undelivered : set.undelivered = other.undelivered)
    (ready : set.ready = other.ready) (isWaits : set.waits = other.waits) : Quiet other next := by
  rw [SignalSet.doAsyncWait] at waits
  split at waits
  · rename_i nothing
    cases waits
    have one : ({ set with waits := set.waits + 1 } : SignalSet).inHand = other.inHand := by
      rw [← inHand]
      simp only [SignalSet.inHand]
      omega
    refine ⟨signalHandlers, stopped, Nat.le_of_eq one, fun _ => one, ?_,
      fun error => .inl (ready ▸ error), fun _ some => absurd nothing some⟩
    rw [SignalSet.pending, SignalSet.pending, ← undelivered, ← ready]
  · obtain ⟨signal, found, rfl⟩ := Option.map_eq_some_iff.mp waits
    obtain ⟨inside, rfl⟩ := List.getElem?_eq_some_iff.mp found
    have one : ({ set with
        undelivered := set.undelivered.eraseIdx which
        ready := set.ready ++ [some set.undelivered[which]] } : SignalSet).inHand =
          other.inHand := by
      rw [← inHand]
      simp only [SignalSet.inHand, List.length_append, List.length_singleton]
      omega
    refine ⟨signalHandlers, stopped, Nat.le_of_eq one, fun _ => one, ?_, fun error => ?_,
      fun kept some => ?_⟩
    · rw [SignalSet.pending, SignalSet.pending, ← undelivered, ← ready, List.filterMap_append]
      refine List.Perm.trans ?_ ((List.getElem_cons_eraseIdx_perm inside).append_right _)
      rw [← List.append_assoc]
      exact List.perm_append_singleton _ _
    · rw [List.mem_append, List.mem_singleton] at error
      exact .inl (ready ▸ error.resolve_right (by simp))
    · have filled : set.undelivered ≠ [] := by
        intro empty
        rw [empty] at inside
        cases inside
      exact isWaits ▸ kept (undelivered ▸ filled)

/-- A set which drops a wait in hand is stopped. -/
theorem Quiet.drop (stopped : set.stopped = true)
    (signalHandlers : next.signalHandlers = set.signalHandlers)
    (still : next.stopped = set.stopped) (atMost : next.inHand ≤ set.inHand)
    (pending : next.pending = set.pending) (undelivered : next.undelivered = set.undelivered)
    (waits : next.waits ≤ set.waits) : Quiet set next where
  signalHandlers := signalHandlers
  stopped := still
  atMost := atMost
  going running := by
    rw [stopped] at running
    cases running
  pending := pending ▸ .refl _
  errors _ := .inr stopped
  kept isKept filled := by
    have none := isKept (undelivered ▸ filled)
    omega

/-- A move without an event is quiet. -/
theorem Sound.quiet_of_moved (sound : Sound events set) {choice : SignalChoice}
    (moved : Moved set choice none next) : Quiet set next := by
  have same : Quiet set set :=
    ⟨rfl, rfl, Nat.le_refl _, fun _ => rfl, .refl _, .inl, fun kept => kept⟩
  cases moved with
  | errorHandlerSet =>
      exact ⟨rfl, rfl, Nat.le_refl _, fun _ => rfl, .refl _, .inl, fun kept => kept⟩
  | stoppedBefore | ignored => exact same
  | firstWait starting waits =>
      refine .doAsyncWait waits rfl rfl ?_ rfl rfl rfl
      simp only [inHand]
      omega
  | cancelled stopped =>
      refine .drop stopped rfl rfl ?_ ?_ rfl (Nat.zero_le _)
      · simp only [inHand, List.length_append, List.length_replicate]
        omega
      · simp [pending, List.filterMap_append]
  | dropped _ isReady =>
      have stopped := sound.errors (by rw [isReady]; exact List.mem_cons_self)
      refine .drop stopped rfl rfl ?_ ?_ rfl (Nat.le_refl _)
      · simp only [inHand, isReady, List.length_cons]
        omega
      · simp [pending, isReady]
  | ended isHandled stopped =>
      refine .drop stopped rfl rfl ?_ rfl rfl (Nat.le_refl _)
      simp [inHand, isHandled]
  | passed isHandled =>
      have one : ({ set with phase := .passed } : SignalSet).inHand = set.inHand := by
        simp [inHand, isHandled]
      exact ⟨rfl, rfl, Nat.le_of_eq one, fun _ => one, .refl _, .inl, fun kept => kept⟩
  | nextWait isPassed waits =>
      refine .doAsyncWait waits rfl rfl ?_ rfl rfl rfl
      simp [inHand, isPassed]

/-- A move which starts nothing. What comes with it is handled with it or pending behind it. -/
theorem Sound.seen {event : SignalEvent} (sound : Sound events set) (noStart : starts [event] = 0)
    (registered : ∀ signal, next.handlersOf signal =
      set.handlersOf signal ++ registeredFor signal [event])
    (stopped : set.stopped = true → next.stopped = true) (atMost : next.inHand ≤ set.inHand)
    (going : next.stopped = false → next.inHand = set.inHand)
    (errors : none ∈ next.ready → none ∈ set.ready)
    (kept : (set.undelivered ≠ [] → set.waits = 0) → next.undelivered ≠ [] → next.waits = 0)
    (balance : starts events ≤ 1 → ∀ signal,
      raisedCount signal [event] + set.pending.count signal =
        dispatchedCount signal [event] + next.pending.count signal) :
    Sound (events ++ [event]) next where
  registered signal := by rw [registered, sound.registered, registeredFor_append]
  atMost := by
    rw [starts_append, noStart]
    exact Nat.le_trans atMost sound.atMost
  going running := by
    have before : set.stopped = false := by
      cases isStopped : set.stopped with
      | false => rfl
      | true =>
          rw [stopped isStopped] at running
          cases running
    rw [going running, sound.going before, starts_append, noStart, Nat.add_zero]
  errors error := stopped (sound.errors (errors error))
  kept := kept sound.kept
  once few signal := by
    rw [starts_append, noStart] at few
    have total := sound.once few signal
    have here := balance few signal
    rw [raisedCount_append, dispatchedCount_append]
    omega

/-- A signal which comes completes the wait, when there is at most one, or is kept. -/
theorem Sound.deliver (sound : Sound events set) (signal : Int) :
    Sound (events ++ [.raised signal]) (set.deliver signal) := by
  have noDispatch (other : Int) : dispatchedCount other [.raised signal] = 0 := rfl
  rw [SignalSet.deliver]
  split
  · rename_i noWait
    refine sound.seen rfl (fun _ => (List.append_nil _).symm) id (Nat.le_refl _)
      (fun _ => rfl) id (fun _ _ => noWait) fun _ other => ?_
    rw [raisedCount_raised, noDispatch]
    simp only [pending, List.count_append]
    omega
  · rename_i someWait
    have one : ({ set with
        waits := 0
        ready := set.ready ++ List.replicate set.waits (some signal) } : SignalSet).inHand =
          set.inHand := by
      simp only [inHand, List.length_append, List.length_replicate]
      omega
    refine sound.seen rfl (fun _ => (List.append_nil _).symm) id (Nat.le_of_eq one)
      (fun _ => one) (fun error => ?_) (fun _ _ => rfl) fun few other => ?_
    · refine (List.mem_append.mp error).resolve_right fun isNew => ?_
      cases List.eq_of_mem_replicate isNew
    · have single : set.waits = 1 := by
        have atMost := sound.atMost
        simp only [inHand] at atMost
        omega
      rw [raisedCount_raised, noDispatch]
      simp only [pending, single, List.replicate_one, List.filterMap_append, List.count_append]
      have here : List.filterMap id [some signal] = [signal] := rfl
      rw [here]
      omega

/-- A signal is handled. -/
theorem Sound.dispatch (sound : Sound events set) (isIdle : set.phase = .idle) {signal : Int}
    {ready : List (Option Int)} (isReady : set.ready = some signal :: ready) :
    Sound (events ++ [.dispatched signal (set.handlersOf signal)])
      { set with ready, phase := .handled } := by
  have one : ({ set with ready, phase := .handled } : SignalSet).inHand = set.inHand := by
    simp only [inHand, isReady, isIdle, List.length_cons]
    rfl
  refine sound.seen rfl (fun _ => (List.append_nil _).symm) id (Nat.le_of_eq one)
    (fun _ => one) (fun error => ?_) id fun _ other => ?_
  · rw [isReady]
    exact List.mem_cons_of_mem _ error
  · have noRaise : raisedCount other [.dispatched signal (set.handlersOf signal)] = 0 := rfl
    have here : List.filterMap id (some signal :: ready) = signal :: ready.filterMap id := rfl
    rw [noRaise, dispatchedCount_dispatched]
    simp only [pending, isReady, here, List.count_append, List.count_cons, List.count_nil]
    omega

/-- A start of a set which is not stopped. -/
theorem Sound.started (sound : Sound events set) (running : set.stopped = false) :
    Sound (events ++ [.started]) { set with starting := set.starting + 1 } := by
  have one : ({ set with starting := set.starting + 1 } : SignalSet).inHand = set.inHand + 1 := by
    simp only [inHand]
    omega
  refine ⟨fun signal => ?_, ?_, fun _ => ?_, sound.errors, sound.kept, fun few signal => ?_⟩
  · rw [registeredFor_append, ← sound.registered signal]
    exact (List.append_nil _).symm
  · rw [one, starts_append]
    exact Nat.add_le_add_right sound.atMost 1
  · rw [one, starts_append, sound.going running]
    rfl
  · rw [starts_append] at few
    rw [raisedCount_append, dispatchedCount_append]
    exact sound.once (Nat.le_of_add_right_le few) signal

/-- Every move keeps it. -/
theorem Sound.step (sound : Sound events set) {choice : SignalChoice}
    (stepped : set.step choice = some (event, next)) : Sound (events ++ event.toList) next := by
  have moved := moved_of_step stepped
  cases event with
  | none =>
      rw [Option.toList_none, List.append_nil]
      exact sound.quiet (sound.quiet_of_moved moved)
  | some event =>
      rw [Option.toList_some]
      cases moved with
      | registered signal handler =>
          refine sound.seen rfl (fun other => ?_) id (Nat.le_refl _) (fun _ => rfl) id id
            fun _ _ => rfl
          by_cases same : signal = other <;>
            simp [handlersOf, registeredFor, List.filter_append, same]
      | started running => exact sound.started running
      | stopped =>
          exact sound.seen rfl (fun _ => (List.append_nil _).symm) (fun _ => rfl) (Nat.le_refl _)
            (fun running => by cases running) id id fun _ _ => rfl
      | raised => exact sound.deliver _
      | failed _ isReady =>
          have stopped := sound.errors (by rw [isReady]; exact List.mem_cons_self)
          have nothing (signal : Int) :
              raisedCount signal [.failed] = 0 ∧ dispatchedCount signal [.failed] = 0 := ⟨rfl, rfl⟩
          refine sound.seen rfl (fun _ => (List.append_nil _).symm) id ?_ (fun running => ?_)
            (fun error => ?_) id fun _ signal => ?_
          · simp only [inHand, isReady, List.length_cons]
            omega
          · exact absurd (stopped.symm.trans running) (by decide)
          · rw [isReady]
            exact List.mem_cons_of_mem _ error
          · rw [(nothing signal).1, (nothing signal).2]
            simp [pending, isReady]
      | dispatched isIdle isReady => exact sound.dispatch isIdle isReady

variable {guard : System.Guard SignalSet SignalEvent}

theorem sound_of_run (run : system.Runs guard events set) : Sound events set := by
  induction run with
  | initial isInitial =>
      cases isInitial
      exact ⟨fun _ => rfl, Nat.le_refl _, fun _ => rfl, fun error => (by cases error),
        fun _ => rfl, fun _ _ => rfl⟩
  | move _ stepped _ inductionHypothesis => exact inductionHypothesis.step stepped

/-- Handlers are called with a signal as they are registered then. -/
theorem handlers_of_step {choice : SignalChoice} {signal : Int} {handlers : List Nat}
    (stepped : set.step choice = some (some (.dispatched signal handlers), next)) :
    handlers = set.handlersOf signal := by
  cases moved_of_step stepped
  rfl

/-- Nothing is left to run but a wait. -/
def AtRest (set : SignalSet) : Prop :=
  set.starting = 0 ∧ set.ready = [] ∧ set.phase = .idle

instance (set : SignalSet) : Decidable set.AtRest :=
  inferInstanceAs (Decidable (_ ∧ _ ∧ _))

/-- **Signals are dispatched once**, in every run which starts the set once at most,
however starts, stops, registrations and signals come between: a signal came as often as
it was dispatched and is kept, and none is kept when a set which goes on is at rest. It is
dispatched to the handlers which were registered for it, in order. -/
theorem signals_are_dispatched_once (run : system.Runs guard events set)
    (few : starts events ≤ 1) :
    (∀ signal,
      raisedCount signal events = dispatchedCount signal events + set.pending.count signal) ∧
    (set.stopped = false → starts events = 1 → set.AtRest → set.pending = []) ∧
    ∀ before after signal handlers, events = before ++ .dispatched signal handlers :: after →
      handlers = registeredFor signal before := by
  have sound := sound_of_run run
  refine ⟨sound.once few, fun running once atRest => ?_, ?_⟩
  · obtain ⟨noStart, noneReady, isIdle⟩ := atRest
    have one := sound.going running
    have waits : set.waits = 1 := by
      simp only [inHand, noStart, noneReady, isIdle, if_pos, List.length_nil] at one
      omega
    have nothing : set.undelivered = [] :=
      Classical.byContradiction fun some => by
        have none := sound.kept some
        omega
    rw [pending, nothing, noneReady]
    rfl
  · rintro before after signal handlers rfl
    obtain ⟨middle, choice, next, prior, stepped, -⟩ := run.split
    rw [handlers_of_step stepped, (sound_of_run prior).registered signal]

/-- A signal comes before its handler is registered, then twice, once while nobody waits. -/
theorem signals_are_dispatched_once_twice :
    ∃ reached, system.follow System.anyMove [] {}
        [.start, .startWait 0, .raise 2, .registerHandler 2 7, .raise 2, .handle, .raise 2, .test,
          .waitAgain 0, .handle, .test, .waitAgain 0] = some reached ∧
      (∀ signal, raisedCount signal reached.1 =
        dispatchedCount signal reached.1 + reached.2.pending.count signal) ∧
      (reached.2.stopped = false → starts reached.1 = 1 → reached.2.AtRest →
        reached.2.pending = []) ∧
      ∀ before after signal handlers,
        reached.1 = before ++ .dispatched signal handlers :: after →
          handlers = registeredFor signal before :=
  (System.Runs.initial rfl).reaches rfl fun run => signals_are_dispatched_once run (by decide)

/-! ## Behind a stop -/

/-- How many handlers may still be called once the set is stopped. -/
def callsLeft (set : SignalSet) : Nat :=
  set.starting + set.waits + set.ready.length + if set.phase = .passed then 1 else 0

theorem callsLeft_le_inHand (set : SignalSet) : set.callsLeft ≤ set.inHand := by
  rw [callsLeft, inHand]
  cases set.phase <;> simp

theorem callsLeft_doAsyncWait {which : Nat} (waits : set.doAsyncWait which = some next) :
    next.callsLeft = set.callsLeft + 1 ∧ next.stopped = set.stopped := by
  rw [doAsyncWait] at waits
  split at waits
  · cases waits
    refine ⟨?_, rfl⟩
    simp only [callsLeft]
    omega
  · obtain ⟨signal, _, rfl⟩ := Option.map_eq_some_iff.mp waits
    refine ⟨?_, rfl⟩
    simp only [callsLeft, List.length_append, List.length_singleton]
    omega

/-- A stopped set stays stopped, and uses up the calls which are left. -/
theorem stopped_step (stopped : set.stopped = true) {choice : SignalChoice}
    (stepped : set.step choice = some (event, next)) :
    next.stopped = true ∧ calls event.toList + next.callsLeft ≤ set.callsLeft := by
  have unseen : calls [] = 0 := rfl
  cases moved_of_step stepped with
  | registered | errorHandlerSet | stoppedBefore | ignored =>
      exact ⟨stopped, Nat.le_of_eq (Nat.zero_add _)⟩
  | started running => cases stopped.symm.trans running
  | firstWait starting waits =>
      obtain ⟨isLeft, still⟩ := callsLeft_doAsyncWait waits
      refine ⟨still.trans stopped, ?_⟩
      rw [Option.toList_none, unseen, isLeft]
      simp only [callsLeft]
      omega
  | stopped => exact ⟨rfl, Nat.le_of_eq (Nat.zero_add _)⟩
  | cancelled =>
      refine ⟨stopped, ?_⟩
      rw [Option.toList_none, unseen]
      simp only [callsLeft, List.length_append, List.length_replicate]
      omega
  | raised =>
      have seen (signal : Int) : calls [.raised signal] = 0 := rfl
      rw [Option.toList_some, seen, deliver]
      split
      · exact ⟨stopped, Nat.le_of_eq (Nat.zero_add _)⟩
      · refine ⟨stopped, ?_⟩
        simp only [callsLeft, List.length_append, List.length_replicate]
        omega
  | failed _ isReady =>
      have one : calls [.failed] = 1 := rfl
      refine ⟨stopped, ?_⟩
      rw [Option.toList_some, one]
      simp only [callsLeft, isReady, List.length_cons]
      omega
  | dropped _ isReady =>
      refine ⟨stopped, ?_⟩
      rw [Option.toList_none, unseen]
      simp only [callsLeft, isReady, List.length_cons]
      omega
  | dispatched isIdle isReady =>
      have one (signal : Int) (handlers : List Nat) : calls [.dispatched signal handlers] = 1 := rfl
      refine ⟨stopped, ?_⟩
      rw [Option.toList_some, one]
      simp only [callsLeft, isReady, isIdle, List.length_cons, reduceCtorEq, if_false]
      omega
  | ended isHandled =>
      refine ⟨stopped, ?_⟩
      rw [Option.toList_none, unseen]
      simp [callsLeft, isHandled]
  | passed _ running => cases stopped.symm.trans running
  | nextWait isPassed waits =>
      obtain ⟨isLeft, still⟩ := callsLeft_doAsyncWait waits
      refine ⟨still.trans stopped, ?_⟩
      rw [Option.toList_none, unseen, isLeft]
      simp [callsLeft, isPassed]

/-- What is left behind a stop. -/
structure Stopping (most : Nat) (after : List SignalEvent) (set : SignalSet) : Prop where
  stopped : set.stopped = true
  atMost : calls after + set.callsLeft ≤ most

theorem stopping_of_stopped {choice : SignalChoice} (sound : Sound events set)
    (stepped : set.step choice = some (some .stopped, next)) :
    Stopping (starts events) [] next := by
  cases moved_of_step stepped
  refine ⟨rfl, Nat.le_trans (Nat.le_of_eq (Nat.zero_add _)) ?_⟩
  exact Nat.le_trans set.callsLeft_le_inHand sound.atMost

theorem Stopping.step {most : Nat} {after : List SignalEvent} (stopping : Stopping most after set)
    {choice : SignalChoice} (stepped : set.step choice = some (event, next)) :
    Stopping most (after ++ event.toList) next := by
  obtain ⟨stopped, fewer⟩ := stopped_step stopping.stopped stepped
  have atMost := stopping.atMost
  exact ⟨stopped, by rw [calls_append]; omega⟩

/-- **A stop ends the handlers**: behind it, handlers of signals and of errors are called
at most as often in all as the set was started, whatever comes between its statements. -/
theorem stop_ends_handlers (run : system.Runs guard events set) :
    ∀ before after, events = before ++ .stopped :: after → calls after ≤ starts before := by
  rintro before after rfl
  have stopping : Stopping (starts before) after set :=
    run.behind (fun prior stepped => stopping_of_stopped (sound_of_run prior) stepped)
      fun stopping => stopping.step
  have atMost := stopping.atMost
  omega

/-- A wait made behind the cancel is not cancelled, and a signal is still handled. -/
theorem stop_ends_handlers_late :
    ∃ reached, system.follow System.anyMove [] {}
        [.registerHandler 2 7, .start, .storeStopped, .cancel, .startWait 0, .raise 2,
          .handle] = some reached ∧
      ∀ before after, reached.1 = before ++ .stopped :: after → calls after ≤ starts before :=
  (System.Runs.initial rfl).reaches rfl fun run => stop_ends_handlers run

end SignalSet

end Foxhttp.Server
