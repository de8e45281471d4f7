import Foxhttp.Library.Transition
import Foxhttp.Server.SessionTimeouts

/-!
# The echo of a WebSocket session

`WsSession` and `WssSession` have the same accept and the same loop, over a plain and
a TLS stream. The idle timer is armed before the accept and nowhere else. That a
message is written means that the write has completed.
-/

namespace Foxhttp.Server

open Foxhttp.Library

/-- A WebSocket message, of text or binary. -/
structure WsMessage where
  isText : Bool
  payload : List UInt8
deriving DecidableEq

/-- What the coroutine is waiting for. -/
inductive WsPhase where
  /-- `async_accept`. -/
  | accepting
  /-- `async_read`. -/
  | reading
  /-- `async_write`, begun before or after the socket was shut down. -/
  | writing (afterShutdown : Bool)
  /-- The coroutine has returned. -/
  | ended
deriving DecidableEq

/-- `WsSession`, with a clock. -/
structure WsSession where
  phase : WsPhase
  buffer : List UInt8
  /-- `ws_.text`, the type of what is written. -/
  isText : Bool
  now : Nat
  idleTimer : SessionTimer
  /-- When the wait of the idle timer is over. -/
  deadline : Nat
  isShutdown : Bool
deriving DecidableEq

/-- What a session meets. -/
inductive WsHappening where
  | tick (elapsed : Nat)
  | accepted
  | acceptFailed
  | readDone (message : WsMessage)
  /-- The read fails, with some of a message in the buffer. -/
  | readFailed (part : List UInt8)
  | writeDone
  | writeFailed
  /-- The wait of the idle timer is over, and its handler is queued. -/
  | expireIdle
  | handleIdle
deriving DecidableEq

/-- What is seen of a session. -/
inductive WsEvent where
  | received (message : WsMessage)
  | sent (message : WsMessage)
  | shutdown
deriving DecidableEq

namespace WsSession

/-- `start_accept`, up to the accept. -/
def startAccept (idleTimeout : Nat) : WsSession where
  phase := .accepting
  buffer := []
  isText := true
  now := 0
  idleTimer := ⟨true, 0⟩
  deadline := idleTimeout
  isShutdown := false

/-- What a session makes of what it meets. -/
def step (session : WsSession) : WsHappening → Option (Option WsEvent × WsSession)
  | .tick elapsed => some (none, { session with now := session.now + elapsed })
  | .accepted =>
      if session.phase = .accepting then some (none, { session with phase := .reading }) else none
  | .acceptFailed =>
      if session.phase = .accepting then some (none, { session with phase := .ended }) else none
  | .readDone message =>
      if session.phase = .reading then
        some (some (.received message),
          { session with
            buffer := session.buffer ++ message.payload
            isText := message.isText
            phase := .writing session.isShutdown })
      else none
  | .readFailed part =>
      if session.phase = .reading then
        some (none, { session with buffer := session.buffer ++ part, phase := .ended })
      else none
  | .writeDone =>
      -- What was begun before the shutdown may still be reported.
      if session.phase = .writing false then
        some (some (.sent ⟨session.isText, session.buffer⟩),
          { session with buffer := [], phase := .reading })
      else none
  | .writeFailed =>
      match session.phase with
      | .writing _ => some (none, { session with phase := .ended })
      | _ => none
  | .expireIdle =>
      if session.idleTimer.armed ∧ session.deadline ≤ session.now then
        some (none, { session with idleTimer := ⟨false, session.idleTimer.due + 1⟩ })
      else none
  | .handleIdle =>
      if 0 < session.idleTimer.due then
        some (some .shutdown,
          { session with
            idleTimer := { session.idleTimer with due := session.idleTimer.due - 1 }
            isShutdown := true })
      else none

/-- Sessions with an idle timeout. -/
def system (idleTimeout : Nat) : System WsSession WsHappening WsEvent where
  Initial session := session = startAccept idleTimeout
  step := step

end WsSession

/-- The messages received. -/
def receivedMessages (events : List WsEvent) : List WsMessage :=
  events.filterMap fun
    | .received message => some message
    | _ => none

/-- The messages sent. -/
def sentMessages (events : List WsEvent) : List WsMessage :=
  events.filterMap fun
    | .sent message => some message
    | _ => none

theorem receivedMessages_append (events more : List WsEvent) :
    receivedMessages (events ++ more) = receivedMessages events ++ receivedMessages more :=
  List.filterMap_append

theorem sentMessages_append (events more : List WsEvent) :
    sentMessages (events ++ more) = sentMessages events ++ sentMessages more :=
  List.filterMap_append

namespace WsSession

variable {idleTimeout : Nat} {session next : WsSession} {event : Option WsEvent}
  {events : List WsEvent} {guard : System.Guard WsSession WsEvent}

/-! ## The echo -/

/-- What is received and not sent is in the buffer, as it was received. -/
inductive Echoes (events : List WsEvent) (session : WsSession) : Prop
  | even (waits : session.phase = .accepting ∨ session.phase = .reading)
      (buffer : session.buffer = [])
      (same : sentMessages events = receivedMessages events)
  | behind {afterShutdown : Bool} (writes : session.phase = .writing afterShutdown)
      (one : receivedMessages events = sentMessages events ++ [⟨session.isText, session.buffer⟩])
  | ended (isOver : session.phase = .ended)
      (most : ∃ rest, receivedMessages events = sentMessages events ++ rest ∧ rest.length ≤ 1)

theorem Echoes.most (echoes : Echoes events session) :
    ∃ rest, receivedMessages events = sentMessages events ++ rest ∧ rest.length ≤ 1 := by
  cases echoes with
  | even _ _ same => exact ⟨[], by rw [same, List.append_nil], Nat.zero_le 1⟩
  | behind _ one => exact ⟨_, one, Nat.le_refl 1⟩
  | ended _ most => exact most

/-- What is done to the clock and the timer is no matter. -/
theorem Echoes.congr (echoes : Echoes events session) (phase : next.phase = session.phase)
    (buffer : next.buffer = session.buffer) (isText : next.isText = session.isText) :
    Echoes events next := by
  cases echoes with
  | even waits empty same => exact .even (phase ▸ waits) (buffer.trans empty) same
  | behind writes one => exact .behind (phase.trans writes) (buffer ▸ isText ▸ one)
  | ended isOver most => exact .ended (phase.trans isOver) most

theorem Echoes.step (echoes : Echoes events session) {happening : WsHappening}
    (stepped : session.step happening = some (event, next)) :
    Echoes (events ++ event.toList) next := by
  cases happening with
  | tick elapsed =>
      cases stepped
      rw [Option.toList_none, List.append_nil]
      exact echoes.congr rfl rfl rfl
  | accepted =>
      obtain ⟨accepts, outcome⟩ := Option.ite_none_right_eq_some.mp stepped
      cases outcome
      rw [Option.toList_none, List.append_nil]
      cases echoes with
      | even _ buffer same => exact .even (.inr rfl) buffer same
      | behind writes _ => cases accepts.symm.trans writes
      | ended isOver _ => cases accepts.symm.trans isOver
  | acceptFailed =>
      obtain ⟨-, outcome⟩ := Option.ite_none_right_eq_some.mp stepped
      cases outcome
      rw [Option.toList_none, List.append_nil]
      exact .ended rfl echoes.most
  | readDone message =>
      obtain ⟨reads, outcome⟩ := Option.ite_none_right_eq_some.mp stepped
      cases outcome
      cases echoes with
      | even _ buffer same =>
          refine .behind rfl ?_
          rw [Option.toList_some, receivedMessages_append, sentMessages_append, same, buffer]
          simp [receivedMessages, sentMessages]
      | behind writes _ => cases reads.symm.trans writes
      | ended isOver _ => cases reads.symm.trans isOver
  | readFailed part =>
      obtain ⟨-, outcome⟩ := Option.ite_none_right_eq_some.mp stepped
      cases outcome
      rw [Option.toList_none, List.append_nil]
      exact .ended rfl echoes.most
  | writeDone =>
      obtain ⟨writes, outcome⟩ := Option.ite_none_right_eq_some.mp stepped
      cases outcome
      cases echoes with
      | even waits _ _ => rcases waits with waits | waits <;> cases writes.symm.trans waits
      | behind _ one =>
          refine .even (.inr rfl) rfl ?_
          rw [Option.toList_some, receivedMessages_append, sentMessages_append, one]
          simp [receivedMessages, sentMessages]
      | ended isOver _ => cases writes.symm.trans isOver
  | writeFailed =>
      simp only [WsSession.step] at stepped
      split at stepped <;> cases stepped
      rw [Option.toList_none, List.append_nil]
      exact .ended rfl echoes.most
  | expireIdle =>
      obtain ⟨-, outcome⟩ := Option.ite_none_right_eq_some.mp stepped
      cases outcome
      rw [Option.toList_none, List.append_nil]
      exact echoes.congr rfl rfl rfl
  | handleIdle =>
      obtain ⟨-, outcome⟩ := Option.ite_none_right_eq_some.mp stepped
      cases outcome
      have silent : receivedMessages (events ++ [.shutdown]) = receivedMessages events ∧
          sentMessages (events ++ [.shutdown]) = sentMessages events := by
        constructor
        · rw [receivedMessages_append]
          exact List.append_nil _
        · rw [sentMessages_append]
          exact List.append_nil _
      rw [Option.toList_some]
      cases echoes with
      | even waits empty same => exact .even waits empty (by rw [silent.1, silent.2, same])
      | behind writes one => exact .behind writes (by rw [silent.1, silent.2, one])
      | ended isOver most => exact .ended isOver (by rw [silent.1, silent.2]; exact most)

/-- **The session echoes**: in every run the messages sent are the messages received,
in their order and of their type, all but at most the last. -/
theorem sent_are_received (run : (system idleTimeout).Runs guard events session) :
    sentMessages events <+: receivedMessages events ∧
      (receivedMessages events).length ≤ (sentMessages events).length + 1 := by
  have echoes : Echoes events session := by
    refine run.invariant ?_ ?_
    · rintro state rfl
      exact .even (.inl rfl) rfl rfl
    · intro events state happening event next _ echoes stepped _
      exact echoes.step stepped
  obtain ⟨rest, split, short⟩ := echoes.most
  rw [split, List.length_append]
  exact ⟨List.prefix_append _ _, by omega⟩

/-! ## The idle timer -/

/-- The deadline is the one of the start, and the wait for it is pending, or is over
with the handler queued or run. -/
structure IdleOnce (idleTimeout : Nat) (session : WsSession) : Prop where
  deadline : session.deadline = idleTimeout
  waits : session.idleTimer.armed = true ∨ 0 < session.idleTimer.due ∨ session.isShutdown = true

theorem IdleOnce.step (once : IdleOnce idleTimeout session) {happening : WsHappening}
    (stepped : session.step happening = some (event, next)) : IdleOnce idleTimeout next := by
  have kept (deadline : next.deadline = session.deadline)
      (idleTimer : next.idleTimer = session.idleTimer)
      (isShutdown : next.isShutdown = session.isShutdown) : IdleOnce idleTimeout next :=
    ⟨deadline.trans once.deadline, by rw [idleTimer, isShutdown]; exact once.waits⟩
  cases happening with
  | tick elapsed =>
      cases stepped
      exact kept rfl rfl rfl
  | writeFailed =>
      simp only [WsSession.step] at stepped
      split at stepped <;> cases stepped
      exact kept rfl rfl rfl
  | expireIdle =>
      cases (Option.ite_none_right_eq_some.mp stepped).2
      exact ⟨once.deadline, .inr (.inl (Nat.succ_pos _))⟩
  | handleIdle =>
      cases (Option.ite_none_right_eq_some.mp stepped).2
      exact ⟨once.deadline, .inr (.inr rfl)⟩
  | accepted | acceptFailed | readDone | readFailed | writeDone =>
      cases (Option.ite_none_right_eq_some.mp stepped).2
      exact kept rfl rfl rfl

/-- What may still be sent behind a shutdown: a write which was begun before. -/
def InFlight (session : WsSession) : Nat :=
  if session.phase = .writing false then 1 else 0

theorem inFlight_le_one (session : WsSession) : session.InFlight ≤ 1 := by
  rw [InFlight]
  split
  · exact Nat.le_refl 1
  · exact Nat.zero_le 1

/-- Of a socket which is shut down, at most one message is sent, or still to be. -/
structure OneMore (after : List WsEvent) (session : WsSession) : Prop where
  isShutdown : session.isShutdown = true
  atMost : (sentMessages after).length + session.InFlight ≤ 1

theorem OneMore.step {after : List WsEvent} (one : OneMore after session) {happening : WsHappening}
    (stepped : session.step happening = some (event, next)) :
    OneMore (after ++ event.toList) next := by
  have moved (still : next.isShutdown = session.isShutdown)
      (less : (sentMessages event.toList).length + next.InFlight ≤ session.InFlight) :
      OneMore (after ++ event.toList) next := by
    have atMost := one.atMost
    refine ⟨still.trans one.isShutdown, ?_⟩
    rw [sentMessages_append, List.length_append]
    omega
  cases happening with
  | tick elapsed =>
      cases stepped
      exact moved rfl (Nat.le_of_eq (Nat.zero_add _))
  | readDone message =>
      cases (Option.ite_none_right_eq_some.mp stepped).2
      exact moved rfl (by simp [InFlight, one.isShutdown, sentMessages])
  | writeDone =>
      obtain ⟨writes, outcome⟩ := Option.ite_none_right_eq_some.mp stepped
      cases outcome
      exact moved rfl (by simp [InFlight, writes, sentMessages])
  | writeFailed =>
      simp only [WsSession.step] at stepped
      split at stepped <;> cases stepped
      exact moved rfl (Nat.zero_le _)
  | expireIdle =>
      cases (Option.ite_none_right_eq_some.mp stepped).2
      exact moved rfl (Nat.le_of_eq (Nat.zero_add _))
  | handleIdle =>
      cases (Option.ite_none_right_eq_some.mp stepped).2
      exact moved one.isShutdown.symm (Nat.le_of_eq (Nat.zero_add _))
  | accepted | acceptFailed | readFailed =>
      cases (Option.ite_none_right_eq_some.mp stepped).2
      exact moved rfl (Nat.zero_le _)

/-- Only the handler of the idle timer shuts the socket down. -/
theorem oneMore_of_shutdown {happening : WsHappening}
    (stepped : session.step happening = some (some .shutdown, next)) : OneMore [] next := by
  cases happening with
  | handleIdle =>
      cases (Option.ite_none_right_eq_some.mp stepped).2
      exact ⟨rfl, by simpa [sentMessages] using inFlight_le_one _⟩
  | tick elapsed => cases stepped
  | writeFailed =>
      simp only [WsSession.step] at stepped
      split at stepped <;> cases stepped
  | accepted | acceptFailed | readDone | readFailed | writeDone | expireIdle =>
      cases (Option.ite_none_right_eq_some.mp stepped).2

theorem idleOnce_of_run (run : (system idleTimeout).Runs guard events session) :
    IdleOnce idleTimeout session := by
  induction run with
  | initial isStart =>
      cases isStart
      exact ⟨rfl, .inl rfl⟩
  | move _ stepped _ inductionHypothesis => exact inductionHypothesis.step stepped

/-- A queued handler shuts the socket down. -/
theorem follow_handleIdle (due : 0 < session.idleTimer.due) :
    ∃ last, (system idleTimeout).follow System.anyMove events session [.handleIdle] = some last ∧
      last.2.isShutdown = true :=
  ⟨_, System.follow_cons (if_pos due) trivial [], rfl⟩

/-- **The idle timeout is absolute**: in every run, once it has passed since the
accept began, the socket is shut down as soon as the timer's wait is seen to be over
and its handler runs, whatever has been received and sent; and behind the shutdown at
most one more message is sent. -/
theorem idle_timeout_is_absolute (run : (system idleTimeout).Runs guard events session) :
    (idleTimeout ≤ session.now →
      ∃ waited ∈ [[], [.handleIdle], [.expireIdle, .handleIdle]], ∃ last,
        (system idleTimeout).follow System.anyMove events session waited = some last ∧
          last.2.isShutdown = true) ∧
    ∀ before after, events = before ++ .shutdown :: after → (sentMessages after).length ≤ 1 := by
  have once := idleOnce_of_run run
  refine ⟨fun late => ?_, fun before after split => ?_⟩
  · rcases once.waits with armed | due | isShutdown
    · refine ⟨_, .tail _ (.tail _ (.head _)), ?_⟩
      have expires : (system idleTimeout).step session .expireIdle = some (none,
          { session with idleTimer := ⟨false, session.idleTimer.due + 1⟩ }) :=
        if_pos ⟨armed, once.deadline ▸ late⟩
      rw [System.follow_cons expires trivial]
      exact follow_handleIdle (Nat.succ_pos _)
    · exact ⟨_, .tail _ (.head _), follow_handleIdle due⟩
    · exact ⟨_, .head _, _, rfl, isShutdown⟩
  · subst split
    have one : OneMore after session :=
      run.behind (fun _ => oneMore_of_shutdown) fun one => one.step
    exact Nat.le_trans (Nat.le_add_right _ _) one.atMost

/-- A message is read before a shutdown, and another behind it. -/
def busyUntilShutdown : List WsHappening :=
  [.accepted, .readDone ⟨true, [1]⟩, .writeDone, .tick 60, .expireIdle, .readDone ⟨false, [2]⟩,
    .handleIdle, .writeDone, .readDone ⟨true, [3]⟩]

theorem sent_are_received_until_shutdown :
    ∃ reached, (system 60).follow System.anyMove [] (startAccept 60) busyUntilShutdown =
        some reached ∧
      sentMessages reached.1 <+: receivedMessages reached.1 ∧
        (receivedMessages reached.1).length ≤ (sentMessages reached.1).length + 1 :=
  (System.Runs.initial rfl).reaches rfl fun run => sent_are_received run

theorem idle_timeout_is_absolute_though_busy :
    ∃ reached, (system 60).follow System.anyMove [] (startAccept 60) busyUntilShutdown =
        some reached ∧
      (60 ≤ reached.2.now →
        ∃ waited ∈ [[], [.handleIdle], [.expireIdle, .handleIdle]], ∃ last,
          (system 60).follow System.anyMove reached.1 reached.2 waited = some last ∧
            last.2.isShutdown = true) ∧
      ∀ before after, reached.1 = before ++ .shutdown :: after → (sentMessages after).length ≤ 1 :=
  (System.Runs.initial rfl).reaches rfl fun run => idle_timeout_is_absolute run

end WsSession

end Foxhttp.Server
