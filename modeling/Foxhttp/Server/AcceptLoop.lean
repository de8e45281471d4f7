import Foxhttp.Library.Transition

/-!
# Accepting and stopping

`Server` and `SslServer` accept connections in a loop which any thread may stop. The
loops test `stopping_` at their head and once more before a session is started. They
differ in an accept which is aborted: the loop of `Server` returns, and the loop of
`SslServer` only when `stopping_` is set.
-/

namespace Foxhttp.Server

open Foxhttp.Library

/-- Which of the two servers it is. -/
inductive ServerKind where
  | plain
  | ssl
deriving DecidableEq

/-- Where `accept_loop` is. -/
inductive AcceptPhase where
  /-- At the test of `stopping_`. -/
  | head
  /-- In `async_accept`. -/
  | accepting
  /-- A connection is accepted, before `stopping_` is tested again. -/
  | accepted (peer : Nat)
  /-- The test has passed, and the session is to be started. -/
  | starting (peer : Nat)
  /-- The loop has returned. -/
  | done
deriving DecidableEq

/-- A server, with its acceptor. -/
structure Listener where
  stopping : Bool := false
  isOpen : Bool := true
  phase : AcceptPhase := .head
deriving DecidableEq

/-- What happens to a server. -/
inductive AcceptChoice where
  /-- `stop` stores `stopping_`. -/
  | storeStopping
  /-- `stop` goes on to close the acceptor. -/
  | close
  /-- The loop moves. -/
  | advance
  /-- `async_accept` completes with a connection. -/
  | accept (peer : Nat)
  /-- `async_accept` completes with `operation_aborted`, which only a close does. -/
  | abort
  /-- `async_accept` completes with another error. -/
  | fail
deriving DecidableEq

/-- Whether a choice is one of `stop`. -/
def AcceptChoice.isStop : AcceptChoice → Bool
  | .storeStopping | .close => true
  | _ => false

/-- What is seen of a server. -/
inductive AcceptEvent where
  | stopping
  | accepted (peer : Nat)
  | started (peer : Nat)
deriving DecidableEq

namespace Listener

/-- The branch of `Server::accept_loop` for an error. -/
def plainAfterError (listener : Listener) (aborted : Bool) : Listener :=
  if aborted then { listener with phase := .done } else { listener with phase := .head }

/-- The branch of `SslServer::accept_loop` for an error. -/
def sslAfterError (listener : Listener) (aborted : Bool) : Listener :=
  if aborted ∧ listener.stopping then { listener with phase := .done }
  else { listener with phase := .head }

def afterError : ServerKind → Listener → Bool → Listener
  | .plain => plainAfterError
  | .ssl => sslAfterError

/-- A turn of the loop, up to the next thing that others see or do. -/
def advance (listener : Listener) : Option (Option AcceptEvent × Listener) :=
  match listener.phase with
  | .head =>
      some (none, { listener with phase := if listener.stopping then .done else .accepting })
  | .accepted peer =>
      some (none, { listener with phase := if listener.stopping then .head else .starting peer })
  | .starting peer => some (some (.started peer), { listener with phase := .head })
  | .accepting | .done => none

/-- What a server makes of what happens to it. -/
def step (kind : ServerKind) (listener : Listener) :
    AcceptChoice → Option (Option AcceptEvent × Listener)
  | .storeStopping => some (some .stopping, { listener with stopping := true })
  | .close => if listener.stopping then some (none, { listener with isOpen := false }) else none
  | .advance => listener.advance
  | .accept peer =>
      if listener.phase = .accepting then
        some (some (.accepted peer), { listener with phase := .accepted peer })
      else none
  | .abort =>
      if listener.phase = .accepting ∧ listener.isOpen = false then
        some (none, listener.afterError kind true)
      else none
  | .fail =>
      if listener.phase = .accepting then some (none, listener.afterError kind false) else none

/-- A server of a kind. -/
def system (kind : ServerKind) : System Listener AcceptChoice AcceptEvent where
  Initial listener := listener = {}
  step := step kind

end Listener

/-- The connections accepted. -/
def acceptedPeers (events : List AcceptEvent) : List Nat :=
  events.filterMap fun
    | .accepted peer => some peer
    | _ => none

/-- The connections for which a session was started. -/
def startedPeers (events : List AcceptEvent) : List Nat :=
  events.filterMap fun
    | .started peer => some peer
    | _ => none

theorem acceptedPeers_append (events more : List AcceptEvent) :
    acceptedPeers (events ++ more) = acceptedPeers events ++ acceptedPeers more :=
  List.filterMap_append

theorem startedPeers_append (events more : List AcceptEvent) :
    startedPeers (events ++ more) = startedPeers events ++ startedPeers more :=
  List.filterMap_append

namespace Listener

variable {kind : ServerKind} {listener next : Listener} {event : Option AcceptEvent}
  {events : List AcceptEvent} {guard : System.Guard Listener AcceptEvent}

/-! ## The two loops -/

/-- Only a server which stops has its acceptor closed or its loop returned. -/
structure StopsFirst (listener : Listener) : Prop where
  closed : listener.isOpen = false → listener.stopping = true
  done : listener.phase = .done → listener.stopping = true

theorem afterError_other (kind : ServerKind) (listener : Listener) :
    listener.afterError kind false = { listener with phase := .head } := by
  cases kind <;> rfl

/-- Where the servers differ, they do so only for a server which does not stop. -/
theorem afterError_aborted (kind : ServerKind) (stopping : listener.stopping = true) :
    listener.afterError kind true = { listener with phase := .done } := by
  cases kind with
  | plain => rfl
  | ssl => exact if_pos ⟨rfl, stopping⟩

theorem StopsFirst.step (stopsFirst : StopsFirst listener) {choice : AcceptChoice}
    (stepped : listener.step kind choice = some (event, next)) : StopsFirst next := by
  cases choice with
  | storeStopping =>
      cases stepped
      exact ⟨fun _ => rfl, fun _ => rfl⟩
  | close =>
      obtain ⟨stopping, outcome⟩ := Option.ite_none_right_eq_some.mp stepped
      cases outcome
      exact ⟨fun _ => stopping, fun _ => stopping⟩
  | advance =>
      simp only [Listener.step, advance] at stepped
      split at stepped <;> cases stepped
      · refine ⟨stopsFirst.closed, fun isDone => ?_⟩
        dsimp only at isDone
        split at isDone
        · assumption
        · cases isDone
      · refine ⟨stopsFirst.closed, fun isDone => ?_⟩
        dsimp only at isDone
        split at isDone <;> cases isDone
      · exact ⟨stopsFirst.closed, fun isDone => by cases isDone⟩
  | accept peer =>
      cases (Option.ite_none_right_eq_some.mp stepped).2
      exact ⟨stopsFirst.closed, fun isDone => by cases isDone⟩
  | abort =>
      obtain ⟨⟨-, closed⟩, outcome⟩ := Option.ite_none_right_eq_some.mp stepped
      cases outcome
      rw [afterError_aborted kind (stopsFirst.closed closed)]
      exact ⟨stopsFirst.closed, fun _ => stopsFirst.closed closed⟩
  | fail =>
      cases (Option.ite_none_right_eq_some.mp stepped).2
      rw [afterError_other]
      exact ⟨stopsFirst.closed, fun isDone => by cases isDone⟩

theorem stopsFirst_of_run (run : (system kind).Runs guard events listener) :
    StopsFirst listener := by
  induction run with
  | initial isInitial =>
      cases isInitial
      exact ⟨fun closed => (by cases closed), fun isDone => (by cases isDone)⟩
  | move _ stepped _ inductionHypothesis => exact inductionHypothesis.step stepped

/-- **The two servers accept alike**: as only `stop` closes the acceptor, a run of the
one is a run of the other. -/
theorem servers_accept_alike (kind other : ServerKind)
    (run : (system kind).Runs guard events listener) :
    (system other).Runs guard events listener := by
  induction run with
  | initial isInitial => exact .initial isInitial
  | @move events listener choice event next prior stepped allowed inductionHypothesis =>
      refine .move inductionHypothesis
        (show (system other).step listener choice = some (event, next) from ?_) allowed
      rw [← stepped]
      have stopsFirst := stopsFirst_of_run prior
      cases choice with
      | abort =>
          simp only [system, step]
          split
          · rename_i both
            rw [afterError_aborted other (stopsFirst.closed both.2),
              afterError_aborted kind (stopsFirst.closed both.2)]
          · rfl
      | fail =>
          simp only [system, step, afterError_other]
      | storeStopping | close | advance | accept => rfl

/-- An `SslServer` accepts one connection, is stopped, and returns, as a `Server` does. -/
theorem servers_accept_alike_stopped :
    ∃ reached, (system .ssl).follow System.anyMove [] {}
        [.advance, .accept 4, .advance, .storeStopping, .advance, .advance] = some reached ∧
      (system .plain).Runs System.anyMove reached.1 reached.2 :=
  (System.Runs.initial rfl).reaches rfl fun run => servers_accept_alike .ssl .plain run

/-! ## Sessions -/

/-- The connection which the loop holds. -/
def held (listener : Listener) : List Nat :=
  match listener.phase with
  | .accepted peer | .starting peer => [peer]
  | _ => []

/-- Sessions are started for connections accepted, in order, and as long as the server
does not stop for all of them. -/
structure Serves (events : List AcceptEvent) (listener : Listener) : Prop where
  inOrder : (startedPeers events ++ listener.held).Sublist (acceptedPeers events)
  all : listener.stopping = false →
    startedPeers events ++ listener.held = acceptedPeers events

theorem Serves.silent (serves : Serves events listener) (held : next.held = listener.held)
    (stopping : next.stopping = false → listener.stopping = false) : Serves events next :=
  ⟨held ▸ serves.inOrder, fun running => held ▸ serves.all (stopping running)⟩

theorem Serves.step (serves : Serves events listener) (stopsFirst : StopsFirst listener)
    {choice : AcceptChoice} (stepped : listener.step kind choice = some (event, next)) :
    Serves (events ++ event.toList) next := by
  cases choice with
  | storeStopping =>
      cases stepped
      have started : startedPeers (events ++ [.stopping]) = startedPeers events := by
        rw [startedPeers_append]
        exact List.append_nil _
      have accepted : acceptedPeers (events ++ [.stopping]) = acceptedPeers events := by
        rw [acceptedPeers_append]
        exact List.append_nil _
      rw [Option.toList_some]
      refine ⟨?_, fun running => by cases running⟩
      rw [started, accepted]
      exact serves.inOrder
  | close =>
      cases (Option.ite_none_right_eq_some.mp stepped).2
      rw [Option.toList_none, List.append_nil]
      exact serves.silent rfl id
  | advance =>
      simp only [Listener.step, advance] at stepped
      split at stepped <;> rename_i phase <;> cases stepped
      · rw [Option.toList_none, List.append_nil]
        refine serves.silent ?_ id
        cases stops : listener.stopping <;> simp [held, phase]
      · rw [Option.toList_none, List.append_nil]
        rename_i peer
        cases stops : listener.stopping with
        | false => exact serves.silent (by simp [held, phase]) fun _ => stops
        | true =>
            -- The connection is dropped.
            refine ⟨?_, fun running => by cases running⟩
            refine List.Sublist.trans ?_ serves.inOrder
            simp [held]
      · rename_i peer
        have isHeld : listener.held = [peer] := by simp [held, phase]
        have served : startedPeers (events ++ [.started peer]) =
            startedPeers events ++ listener.held := by
          rw [startedPeers_append, isHeld]
          rfl
        have same : acceptedPeers (events ++ [.started peer]) = acceptedPeers events := by
          rw [acceptedPeers_append]
          exact List.append_nil _
        rw [Option.toList_some]
        refine ⟨?_, fun running => ?_⟩
        · rw [served, same]
          exact (List.append_nil _).symm ▸ serves.inOrder
        · rw [served, same]
          exact (List.append_nil _).trans (serves.all running)
  | accept peer =>
      obtain ⟨accepts, outcome⟩ := Option.ite_none_right_eq_some.mp stepped
      cases outcome
      have nothing : listener.held = [] := by simp [held, accepts]
      have order := serves.inOrder
      have all := serves.all
      rw [nothing, List.append_nil] at order all
      have same : startedPeers (events ++ [.accepted peer]) = startedPeers events := by
        rw [startedPeers_append]
        exact List.append_nil _
      have more : acceptedPeers (events ++ [.accepted peer]) = acceptedPeers events ++ [peer] := by
        rw [acceptedPeers_append]
        rfl
      rw [Option.toList_some]
      refine ⟨?_, fun running => ?_⟩
      · rw [same, more]
        exact order.append (List.Sublist.refl [peer])
      · rw [same, more]
        exact congrArg (· ++ [peer]) (all running)
  | abort =>
      obtain ⟨⟨accepts, closed⟩, outcome⟩ := Option.ite_none_right_eq_some.mp stepped
      cases outcome
      rw [Option.toList_none, List.append_nil, afterError_aborted kind (stopsFirst.closed closed)]
      exact serves.silent (by simp [held, accepts]) id
  | fail =>
      obtain ⟨accepts, outcome⟩ := Option.ite_none_right_eq_some.mp stepped
      cases outcome
      rw [Option.toList_none, List.append_nil, afterError_other]
      exact serves.silent (by simp [held, accepts]) id

/-! ## Stopping -/

/-- A session which is started though the server stops: the test had passed. -/
def passed (listener : Listener) : Nat :=
  match listener.phase with
  | .starting _ => 1
  | _ => 0

/-- Of a server which stops, at most one session is started, or still to be. -/
structure OneMore (after : List AcceptEvent) (listener : Listener) : Prop where
  stopping : listener.stopping = true
  atMost : (startedPeers after).length + listener.passed ≤ 1

theorem OneMore.step {after : List AcceptEvent} (one : OneMore after listener)
    {choice : AcceptChoice} (stepped : listener.step kind choice = some (event, next)) :
    OneMore (after ++ event.toList) next := by
  have moved (still : next.stopping = true)
      (less : (startedPeers event.toList).length + next.passed ≤ listener.passed) :
      OneMore (after ++ event.toList) next := by
    have atMost := one.atMost
    refine ⟨still, ?_⟩
    rw [startedPeers_append, List.length_append]
    omega
  have stopping := one.stopping
  cases choice with
  | storeStopping =>
      cases stepped
      exact moved rfl (Nat.le_of_eq (Nat.zero_add _))
  | close =>
      cases (Option.ite_none_right_eq_some.mp stepped).2
      exact moved stopping (Nat.le_of_eq (Nat.zero_add _))
  | advance =>
      simp only [Listener.step, advance, stopping, if_true] at stepped
      split at stepped <;> rename_i phase <;> cases stepped
      · exact moved rfl (Nat.zero_le _)
      · exact moved rfl (Nat.zero_le _)
      · exact moved rfl (by simp [passed, phase, startedPeers])
  | accept peer =>
      cases (Option.ite_none_right_eq_some.mp stepped).2
      exact moved stopping (Nat.zero_le _)
  | abort =>
      obtain ⟨-, outcome⟩ := Option.ite_none_right_eq_some.mp stepped
      rw [afterError_aborted kind stopping] at outcome
      cases outcome
      exact moved stopping (Nat.zero_le _)
  | fail =>
      obtain ⟨-, outcome⟩ := Option.ite_none_right_eq_some.mp stepped
      rw [afterError_other] at outcome
      cases outcome
      exact moved stopping (Nat.zero_le _)

theorem oneMore_of_stopping {choice : AcceptChoice}
    (stepped : listener.step kind choice = some (some .stopping, next)) : OneMore [] next := by
  cases choice with
  | storeStopping =>
      cases stepped
      refine ⟨rfl, ?_⟩
      rw [passed]
      split <;> decide
  | advance =>
      simp only [Listener.step, advance] at stepped
      split at stepped <;> cases stepped
  | close | accept | abort | fail => cases (Option.ite_none_right_eq_some.mp stepped).2

/-- How many moves of its own a loop which is stopped has left, at most. -/
def movesLeft (listener : Listener) : Nat :=
  match listener.phase with
  | .done => 0
  | .head => 1
  | .accepted _ | .starting _ => 2
  | .accepting => 3

/-- A move of the loop which is stopped brings it nearer to its end. -/
theorem movesLeft_lt (stopping : listener.stopping = true) (closed : listener.isOpen = false)
    {choice : AcceptChoice} (ofLoop : choice.isStop = false)
    (stepped : listener.step kind choice = some (event, next)) :
    next.movesLeft < listener.movesLeft ∧ next.stopping = true ∧ next.isOpen = false := by
  cases choice with
  | storeStopping => cases ofLoop
  | close => cases ofLoop
  | advance =>
      simp only [Listener.step, advance, stopping, if_true] at stepped
      split at stepped <;> rename_i phase <;> cases stepped
      · simp [movesLeft, phase, closed]
      · simp [movesLeft, phase, closed]
      · simp [movesLeft, phase, closed]
  | accept peer =>
      obtain ⟨accepts, outcome⟩ := Option.ite_none_right_eq_some.mp stepped
      cases outcome
      simp [movesLeft, accepts, closed, stopping]
  | abort =>
      obtain ⟨⟨accepts, -⟩, outcome⟩ := Option.ite_none_right_eq_some.mp stepped
      cases outcome
      rw [afterError_aborted kind stopping]
      simp [movesLeft, accepts, closed, stopping]
  | fail =>
      obtain ⟨accepts, outcome⟩ := Option.ite_none_right_eq_some.mp stepped
      cases outcome
      rw [afterError_other]
      simp [movesLeft, accepts, closed, stopping]

/-- A loop which has not returned can move once the acceptor is closed. -/
theorem can_move (kind : ServerKind) (closed : listener.isOpen = false)
    (running : listener.phase ≠ .done) :
    ∃ choice, choice.isStop = false ∧ (listener.step kind choice).isSome = true := by
  cases phase : listener.phase with
  | head => exact ⟨.advance, rfl, by simp [Listener.step, advance, phase]⟩
  | accepting => exact ⟨.abort, rfl, by simp [Listener.step, phase, closed]⟩
  | accepted peer => exact ⟨.advance, rfl, by simp [Listener.step, advance, phase]⟩
  | starting peer => exact ⟨.advance, rfl, by simp [Listener.step, advance, phase]⟩
  | done => exact absurd phase running

/-- However it goes on, a stopped loop has moves left for what it does. -/
theorem length_add_movesLeft (stopping : listener.stopping = true)
    (closed : listener.isOpen = false) {choices : List AcceptChoice}
    (ofLoop : ∀ choice ∈ choices, choice.isStop = false)
    {reached : List AcceptEvent × Listener}
    (follows : (system kind).follow System.anyMove events listener choices = some reached) :
    choices.length + reached.2.movesLeft ≤ listener.movesLeft ∧ reached.2.isOpen = false := by
  induction choices generalizing events listener with
  | nil =>
      cases follows
      exact ⟨Nat.le_of_eq (Nat.zero_add _), closed⟩
  | cons choice rest inductionHypothesis =>
      obtain ⟨here, later⟩ := List.forall_mem_cons.mp ofLoop
      simp only [System.follow] at follows
      split at follows
      · rename_i event next stepped
        rw [if_pos (show System.anyMove events listener event from trivial)] at follows
        obtain ⟨less, stillStopping, stillClosed⟩ := movesLeft_lt stopping closed here stepped
        obtain ⟨atMost, isClosed⟩ := inductionHypothesis stillStopping stillClosed later follows
        rw [List.length_cons]
        exact ⟨by omega, isClosed⟩
      · cases follows

/-- **Every connection is served until the server stops**: in every run, sessions are
started for connections in the order of their accept, each once. A server which does
not stop has started one for every connection but the one it holds. -/
theorem sessions_are_accepted (run : (system kind).Runs guard events listener) :
    (startedPeers events).Sublist (acceptedPeers events) ∧
      (listener.stopping = false → acceptedPeers events = startedPeers events ++ listener.held ∧
        listener.phase ≠ .done) := by
  have serves : Serves events listener := by
    induction run with
    | initial isInitial =>
        cases isInitial
        exact ⟨List.Sublist.refl _, fun _ => rfl⟩
    | move prior stepped _ inductionHypothesis =>
        exact inductionHypothesis.step (stopsFirst_of_run prior) stepped
  refine ⟨(List.sublist_append_left _ _).trans serves.inOrder, fun running => ?_⟩
  refine ⟨(serves.all running).symm, fun isDone => ?_⟩
  exact absurd ((stopsFirst_of_run run).done isDone) (by simp [running])

theorem sessions_are_accepted_twice :
    ∃ reached, (system .plain).follow System.anyMove [] {}
        [.advance, .accept 4, .advance, .advance, .advance, .fail, .advance, .accept 5] =
          some reached ∧
      (startedPeers reached.1).Sublist (acceptedPeers reached.1) ∧
      (reached.2.stopping = false →
        acceptedPeers reached.1 = startedPeers reached.1 ++ reached.2.held ∧
        reached.2.phase ≠ .done) :=
  (System.Runs.initial rfl).reaches rfl fun run => sessions_are_accepted run

/-- **A stop is final**: in every run, behind the store of `stopping_` at most one
session is started, the one whose test had passed. Once the acceptor is closed, the
loop makes at most three moves more, whatever its accepts complete with, and is not
stuck before it has returned. -/
theorem stop_is_final (run : (system kind).Runs guard events listener) :
    (∀ before after, events = before ++ .stopping :: after → (startedPeers after).length ≤ 1) ∧
      (listener.isOpen = false → ∀ choices reached,
        (∀ choice ∈ choices, choice.isStop = false) →
        (system kind).follow System.anyMove events listener choices = some reached →
          choices.length ≤ 3 ∧ (reached.2.phase = .done ∨ ∃ choice,
            choice.isStop = false ∧
              (reached.2.step kind choice).isSome = true)) := by
  constructor
  · rintro before after rfl
    have one : OneMore after listener :=
      run.behind (fun _ => oneMore_of_stopping) fun one => one.step
    exact Nat.le_trans (Nat.le_add_right _ _) one.atMost
  · intro closed choices reached ofLoop follows
    have stopping := (stopsFirst_of_run run).closed closed
    obtain ⟨atMost, isClosed⟩ := length_add_movesLeft stopping closed ofLoop follows
    have most : listener.movesLeft ≤ 3 := by
      rw [movesLeft]
      split <;> decide
    refine ⟨by omega, ?_⟩
    by_cases isDone : reached.2.phase = .done
    · exact .inl isDone
    · exact .inr (can_move kind isClosed isDone)

/-- The server is stopped between the test and the start of the session. -/
theorem stop_is_final_starting :
    ∃ reached, (system .plain).follow System.anyMove [] {}
        [.advance, .accept 4, .advance, .storeStopping, .close, .advance] = some reached ∧
      (startedPeers [.started 4]).length ≤ 1 ∧
      ∀ choices ended, (∀ choice ∈ choices, choice.isStop = false) →
        (system .plain).follow System.anyMove reached.1 reached.2 choices = some ended →
          choices.length ≤ 3 ∧ (ended.2.phase = .done ∨ ∃ choice : AcceptChoice,
            choice.isStop = false ∧ (ended.2.step .plain choice).isSome = true) := by
  refine (System.Runs.initial rfl).reaches rfl fun run => ?_
  obtain ⟨atMost, ends⟩ := stop_is_final run
  exact ⟨atMost [.accepted 4] [.started 4] rfl, ends rfl⟩

end Listener

end Foxhttp.Server
