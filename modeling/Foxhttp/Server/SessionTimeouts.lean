import Mathlib.Logic.Function.Basic
import Foxhttp.Library.Transition

/-!
# The timers of a session

`Session::run` reads a whole message at once, with the header timer armed, and goes
by an abort reason when the read was cancelled. `arm_body_timer` is called nowhere,
so the header timer is the one which is armed while a body is received.
-/

namespace Foxhttp.Server

open Foxhttp.Library

/-- A timer: whether a wait is pending, and how many handlers of waits which have
expired are still to run. -/
structure SessionTimer where
  armed : Bool
  due : Nat
deriving DecidableEq

/-- The timers of `SessionBase`. -/
inductive TimerName where
  | idle
  | header
  | body
deriving DecidableEq

/-- `Session::ReadAbortReason`. -/
inductive ReadAbortReason where
  | none
  | headerTimeout
  | bodyTimeout
deriving DecidableEq

/-- What the read has not received completely. -/
inductive Section where
  | header
  | body
deriving DecidableEq

/-- What `Session::run` is waiting for. -/
inductive Phase where
  /-- `http::async_read`. -/
  | reading (missing : Section)
  /-- The middleware chain. -/
  | answering
  /-- `http::async_write` of the response. -/
  | writing
  /-- `http::async_write` of a 408. -/
  | refusing
  /-- The coroutine has returned. -/
  | ended
deriving DecidableEq

/-- A session, as far as its timers go by it. -/
structure TimedSession where
  phase : Phase
  timers : TimerName → SessionTimer
  readAbort : ReadAbortReason

/-- What a session meets. -/
inductive Happening where
  /-- The header section is received, and some of the body is still to come. -/
  | headersComplete
  | bodyProgress
  /-- The read completes. -/
  | messageComplete (isUpgrade : Bool)
  /-- The read fails, with `operation_aborted` or another error. -/
  | readFailed (aborted : Bool)
  | chainDone
  | chainThrew
  /-- A write completes, and `keep_open` has this value. -/
  | written (keepOpen : Bool)
  | writeFailed
  /-- The time of a pending wait is over, and its handler is queued. -/
  | expire (name : TimerName)
  /-- A queued handler runs. -/
  | handle (name : TimerName)
deriving DecidableEq

namespace TimedSession

/-! ## Timers -/

/-- `expires_after` and `async_wait`: a wait which was pending is given up. -/
def arm (name : TimerName) (session : TimedSession) : TimedSession :=
  { session with
    timers := Function.update session.timers name { session.timers name with armed := true } }

/-- `cancel`, which leaves handlers that are queued. -/
def cancel (name : TimerName) (session : TimedSession) : TimedSession :=
  { session with
    timers := Function.update session.timers name { session.timers name with armed := false } }

/-- `arm_idle_timer`. -/
def armIdleTimer : TimedSession → TimedSession := arm .idle

/-- `arm_header_timer`. -/
def armHeaderTimer : TimedSession → TimedSession := arm .header

/-- `cancel_idle_timer`. -/
def cancelIdleTimer : TimedSession → TimedSession := cancel .idle

/-- `cancel_header_timer`. -/
def cancelHeaderTimer : TimedSession → TimedSession := cancel .header

/-- `cancel_body_timer`. -/
def cancelBodyTimer : TimedSession → TimedSession := cancel .body

/-- `on_activity`. -/
def onActivity (session : TimedSession) : TimedSession :=
  session.cancelIdleTimer.armIdleTimer

/-- A wait expires. -/
def expire (name : TimerName) (session : TimedSession) : TimedSession :=
  { session with
    timers := Function.update session.timers name ⟨false, (session.timers name).due + 1⟩ }

/-- A handler which was queued is gone. -/
def dequeue (name : TimerName) (session : TimedSession) : TimedSession :=
  { session with
    timers := Function.update session.timers name
      { session.timers name with due := (session.timers name).due - 1 } }

/-- `on_timeout_idle`, `on_timeout_header` and `on_timeout_body`. The first shuts the
socket down and the others cancel what it does, which the read or the write meets
as an error. -/
def onTimeout (session : TimedSession) : TimerName → TimedSession
  | .idle => session
  | .header => { session with readAbort := .headerTimeout }
  | .body => { session with readAbort := .bodyTimeout }

/-! ## The loop -/

/-- The head of the loop. -/
def beginRead (session : TimedSession) : TimedSession :=
  { session.armHeaderTimer with readAbort := .none, phase := .reading .header }

/-- `start`, up to the first read. -/
def start : TimedSession :=
  beginRead (armIdleTimer ⟨.ended, fun _ => ⟨false, 0⟩, .none⟩)

/-- The coroutine returns. -/
def leave (session : TimedSession) : TimedSession :=
  { session with phase := .ended }

/-- The turn of the loop behind a read which completes. -/
def afterMessage (session : TimedSession) (isUpgrade : Bool) : TimedSession :=
  let session := session.cancelHeaderTimer.onActivity
  if isUpgrade then session.cancelIdleTimer.cancelHeaderTimer.cancelBodyTimer.leave
  else { session with phase := .answering }

/-- The turn of the loop behind a read which fails, with the text of the 408. -/
def afterFailure (session : TimedSession) (aborted : Bool) : Option String × TimedSession :=
  let session := session.cancelHeaderTimer
  if aborted then
    match session.readAbort with
    | .headerTimeout =>
        (some "Header read timeout", { session with readAbort := .none, phase := .refusing })
    | .bodyTimeout =>
        (some "Body read timeout", { session with readAbort := .none, phase := .refusing })
    | .none => (none, session.leave)
  else (none, session.leave)

/-- What a session makes of what it meets: the text of the 408 it sends, if it sends
one, and the session behind it. -/
def step (session : TimedSession) : Happening → Option (Option String × TimedSession)
  | .headersComplete =>
      if session.phase = .reading .header then
        some (none, { session with phase := .reading .body })
      else none
  | .bodyProgress => if session.phase = .reading .body then some (none, session) else none
  | .messageComplete isUpgrade =>
      match session.phase with
      | .reading _ => some (none, session.afterMessage isUpgrade)
      | _ => none
  | .readFailed aborted =>
      match session.phase with
      | .reading _ => some (session.afterFailure aborted)
      | _ => none
  | .chainDone =>
      if session.phase = .answering then some (none, { session with phase := .writing }) else none
  | .chainThrew => if session.phase = .answering then some (none, session.leave) else none
  | .written keepOpen =>
      match session.phase with
      | .writing =>
          some (none, if keepOpen then session.onActivity.beginRead else session.leave)
      | .refusing => some (none, session.leave)
      | _ => none
  | .writeFailed =>
      if session.phase = .writing ∨ session.phase = .refusing then some (none, session.leave)
      else none
  | .expire name =>
      if (session.timers name).armed then some (none, session.expire name) else none
  | .handle name =>
      if 0 < (session.timers name).due then some (none, (session.dequeue name).onTimeout name)
      else none

/-- Sessions, with the texts of the 408s which they send. -/
def system : System TimedSession Happening String where
  Initial session := session = start
  step := step

/-- What a session can meet, and what it makes of it. -/
inductive Moves (session : TimedSession) :
    Happening → Option String → TimedSession → Prop where
  | headersComplete (reads : session.phase = .reading .header) :
      Moves session .headersComplete none { session with phase := .reading .body }
  | bodyProgress (reads : session.phase = .reading .body) :
      Moves session .bodyProgress none session
  | messageComplete {missing} (reads : session.phase = .reading missing) (isUpgrade : Bool) :
      Moves session (.messageComplete isUpgrade) none (session.afterMessage isUpgrade)
  | readFailed {missing aborted sent next} (reads : session.phase = .reading missing)
      (outcome : session.afterFailure aborted = (sent, next)) :
      Moves session (.readFailed aborted) sent next
  | chainDone (answers : session.phase = .answering) :
      Moves session .chainDone none { session with phase := .writing }
  | chainThrew (answers : session.phase = .answering) : Moves session .chainThrew none session.leave
  | writtenOpen (writes : session.phase = .writing) :
      Moves session (.written true) none session.onActivity.beginRead
  | written (writes : session.phase = .writing ∨ session.phase = .refusing) (keepOpen : Bool) :
      Moves session (.written keepOpen) none session.leave
  | writeFailed (writes : session.phase = .writing ∨ session.phase = .refusing) :
      Moves session .writeFailed none session.leave
  | expire {name} (armed : (session.timers name).armed = true) :
      Moves session (.expire name) none (session.expire name)
  | handle {name} (due : 0 < (session.timers name).due) :
      Moves session (.handle name) none ((session.dequeue name).onTimeout name)

theorem moves_of_step {session next : TimedSession} {happening : Happening}
    {sent : Option String} (stepped : session.step happening = some (sent, next)) :
    Moves session happening sent next := by
  cases happening with
  | messageComplete isUpgrade =>
      simp only [step] at stepped
      split at stepped
      · cases stepped
        exact .messageComplete ‹_› isUpgrade
      · cases stepped
  | readFailed aborted =>
      simp only [step] at stepped
      split at stepped
      · exact .readFailed ‹_› (Option.some.inj stepped)
      · cases stepped
  | written keepOpen =>
      simp only [step] at stepped
      split at stepped
      · rename_i writes
        cases stepped
        cases keepOpen with
        | true => exact .writtenOpen writes
        | false => exact .written (.inl writes) false
      · rename_i refuses
        cases stepped
        exact .written (.inr refuses) keepOpen
      · cases stepped
  | headersComplete =>
      obtain ⟨reads, outcome⟩ := Option.ite_none_right_eq_some.mp stepped
      cases outcome
      exact .headersComplete reads
  | bodyProgress =>
      obtain ⟨reads, outcome⟩ := Option.ite_none_right_eq_some.mp stepped
      cases outcome
      exact .bodyProgress reads
  | chainDone =>
      obtain ⟨answers, outcome⟩ := Option.ite_none_right_eq_some.mp stepped
      cases outcome
      exact .chainDone answers
  | chainThrew =>
      obtain ⟨answers, outcome⟩ := Option.ite_none_right_eq_some.mp stepped
      cases outcome
      exact .chainThrew answers
  | writeFailed =>
      obtain ⟨writes, outcome⟩ := Option.ite_none_right_eq_some.mp stepped
      cases outcome
      exact .writeFailed writes
  | expire name =>
      obtain ⟨armed, outcome⟩ := Option.ite_none_right_eq_some.mp stepped
      cases outcome
      exact .expire armed
  | handle name =>
      obtain ⟨due, outcome⟩ := Option.ite_none_right_eq_some.mp stepped
      cases outcome
      exact .handle due

/-- Behind a read which fails the session ends, or sends the 408 of its abort reason. -/
theorem afterFailure_cases {session next : TimedSession} {aborted : Bool} {sent : Option String}
    (outcome : session.afterFailure aborted = (sent, next)) :
    next = session.cancelHeaderTimer.leave ∧ sent = none ∨
      next = { session.cancelHeaderTimer with readAbort := .none, phase := .refusing } ∧
        (session.readAbort = .headerTimeout ∧ sent = some "Header read timeout" ∨
          session.readAbort = .bodyTimeout ∧ sent = some "Body read timeout") := by
  unfold afterFailure at outcome
  dsimp only at outcome
  split at outcome
  · split at outcome
    · cases outcome
      exact .inr ⟨rfl, .inl ⟨‹_›, rfl⟩⟩
    · cases outcome
      exact .inr ⟨rfl, .inr ⟨‹_›, rfl⟩⟩
    · cases outcome
      exact .inl ⟨rfl, rfl⟩
  · cases outcome
    exact .inl ⟨rfl, rfl⟩

/-! ## The body timer -/

/-- The body timer is never armed, and no read is cancelled for it. -/
structure BodyUntimed (session : TimedSession) : Prop where
  timer : session.timers .body = ⟨false, 0⟩
  readAbort : session.readAbort ≠ .bodyTimeout

theorem bodyUntimed_start : BodyUntimed start :=
  ⟨rfl, by simp [start, beginRead]⟩

namespace BodyUntimed

variable {session : TimedSession} (untimed : BodyUntimed session)

include untimed

theorem withPhase (phase : Phase) : BodyUntimed { session with phase := phase } :=
  ⟨untimed.timer, untimed.readAbort⟩

theorem arm {name : TimerName} (other : name ≠ .body) : BodyUntimed (session.arm name) :=
  ⟨(Function.update_of_ne other.symm _ _).trans untimed.timer, untimed.readAbort⟩

theorem cancel (name : TimerName) : BodyUntimed (session.cancel name) := by
  refine ⟨?_, untimed.readAbort⟩
  by_cases isBody : name = .body
  · subst isBody
    have cancelled : (session.cancel .body).timers .body =
        ⟨false, (session.timers .body).due⟩ := by simp [TimedSession.cancel]
    rw [cancelled, untimed.timer]
  · exact (Function.update_of_ne (Ne.symm isBody) _ _).trans untimed.timer

theorem onActivity : BodyUntimed session.onActivity :=
  (untimed.cancel .idle).arm (by decide)

theorem beginRead : BodyUntimed session.beginRead where
  timer := (untimed.arm (show TimerName.header ≠ .body by decide)).timer
  readAbort := by simp [TimedSession.beginRead]

theorem afterMessage (isUpgrade : Bool) : BodyUntimed (session.afterMessage isUpgrade) := by
  have active := (untimed.cancel .header).onActivity
  cases isUpgrade with
  | true => exact (((active.cancel .idle).cancel .header).cancel .body).withPhase .ended
  | false => exact active.withPhase .answering

theorem afterFailure {aborted : Bool} {sent : Option String} {next : TimedSession}
    (outcome : session.afterFailure aborted = (sent, next)) : BodyUntimed next := by
  have cancelled := untimed.cancel .header
  rcases afterFailure_cases outcome with ⟨rfl, -⟩ | ⟨rfl, -⟩
  · exact cancelled.withPhase .ended
  · exact ⟨cancelled.timer, by simp⟩

theorem expire {name : TimerName} (armed : (session.timers name).armed = true) :
    BodyUntimed (session.expire name) := by
  have other : name ≠ .body := by
    rintro rfl
    rw [untimed.timer] at armed
    cases armed
  exact ⟨(Function.update_of_ne other.symm _ _).trans untimed.timer, untimed.readAbort⟩

theorem handle {name : TimerName} (due : 0 < (session.timers name).due) :
    BodyUntimed ((session.dequeue name).onTimeout name) := by
  have other : name ≠ .body := by
    rintro rfl
    rw [untimed.timer] at due
    cases due
  have timer : (session.dequeue name).timers .body = ⟨false, 0⟩ :=
    (Function.update_of_ne other.symm _ _).trans untimed.timer
  cases name with
  | idle => exact ⟨timer, untimed.readAbort⟩
  | header => exact ⟨timer, by simp [onTimeout]⟩
  | body => exact absurd rfl other

/-- No step arms the body timer. -/
theorem moves {happening : Happening} {sent : Option String} {next : TimedSession}
    (moves : Moves session happening sent next) : BodyUntimed next := by
  cases moves with
  | headersComplete _ => exact untimed.withPhase _
  | bodyProgress _ => exact untimed
  | messageComplete _ isUpgrade => exact untimed.afterMessage isUpgrade
  | readFailed _ outcome => exact untimed.afterFailure outcome
  | chainDone _ => exact untimed.withPhase _
  | chainThrew _ => exact untimed.withPhase _
  | writtenOpen _ => exact untimed.onActivity.beginRead
  | written _ _ => exact untimed.withPhase _
  | writeFailed _ => exact untimed.withPhase _
  | expire armed => exact untimed.expire armed
  | handle due => exact untimed.handle due

end BodyUntimed

/-- In no run is the body timer armed. -/
theorem bodyUntimed_of_run {guard : System.Guard TimedSession String} {sent : List String}
    {session : TimedSession} (run : system.Runs guard sent session) : BodyUntimed session := by
  induction run with
  | initial isStart =>
      cases isStart
      exact bodyUntimed_start
  | move _ stepped _ inductionHypothesis => exact inductionHypothesis.moves (moves_of_step stepped)

/-- In no run is a 408 sent for the body timer. -/
theorem bodyTimeout_not_sent {guard : System.Guard TimedSession String} {sent : List String}
    {session : TimedSession} (run : system.Runs guard sent session) :
    "Body read timeout" ∉ sent := by
  induction run with
  | initial _ => exact List.not_mem_nil
  | move prior stepped _ inductionHypothesis =>
      intro member
      rcases List.mem_append.mp member with earlier | isLast
      · exact inductionHypothesis earlier
      · rw [Option.mem_toList.mp isLast] at stepped
        cases moves_of_step stepped with
        | readFailed _ outcome =>
            rcases afterFailure_cases outcome with ⟨-, isNone⟩ | ⟨-, ⟨-, other⟩ | ⟨aborted, -⟩⟩
            · cases isNone
            · exact absurd other (by decide)
            · exact (bodyUntimed_of_run prior).readAbort aborted

/-! ## A body which is still to come -/

/-- A body is received behind the headers of its request. -/
def ReceivesBody (session : TimedSession) : Prop :=
  session.phase = .reading .body

/-- Only the end of the headers in front of a body begins it. -/
theorem receivesBody_of_moves {session next : TimedSession} {happening : Happening}
    {sent : Option String} (moves : Moves session happening sent next)
    (receives : next.ReceivesBody) : happening = .headersComplete ∨ session.ReceivesBody := by
  cases moves with
  | headersComplete _ => exact .inl rfl
  | bodyProgress reads => exact .inr reads
  | messageComplete _ isUpgrade => cases isUpgrade <;> cases receives
  | readFailed _ outcome =>
      rcases afterFailure_cases outcome with ⟨rfl, -⟩ | ⟨rfl, -⟩
      · cases receives
      · cases receives
  | chainDone _ => cases receives
  | chainThrew _ => cases receives
  | writtenOpen _ => cases receives
  | written _ _ => cases receives
  | writeFailed _ => cases receives
  | expire _ => exact .inr receives
  | @handle name _ => cases name <;> exact .inr receives

/-- A 408 is sent while a message is read. -/
theorem reading_of_sent {session next : TimedSession} {happening : Happening} {text : String}
    (moves : Moves session happening (some text) next) :
    ∃ missing, session.phase = .reading missing := by
  cases moves with
  | readFailed reads _ => exact ⟨_, reads⟩

/-! ## Header timeouts -/

/-- The text of the 408 which is sent for the header timer. -/
def headerTimeoutText : String :=
  "Header read timeout"

/-- At a move, the 408 of the header timer is only sent while the headers are not
complete, and a body which is received has the body timer armed and not the header
timer. -/
structure BodyGuarded (moved : System.Moved TimedSession Happening String) : Prop where
  header : moved.event = some headerTimeoutText → moved.before.phase = .reading .header
  body : moved.after.ReceivesBody →
    (moved.after.timers .body).armed = true ∧ (moved.after.timers .header).armed = false

/-- Before and behind every recorded move the body timer is not armed. -/
theorem bodyUntimed_of_mem {history : List (System.Moved TimedSession Happening String)}
    {session : TimedSession} (run : system.recorded.Runs System.anyMove history session) :
    ∀ moved ∈ history, BodyUntimed moved.after := by
  induction run with
  | initial _ => exact List.forall_mem_nil _
  | move prior stepped _ inductionHypothesis =>
      obtain ⟨event, taken, rfl⟩ := System.recorded_step stepped
      obtain ⟨_, run⟩ := prior.unrecorded
      refine List.forall_mem_append.mpr ⟨inductionHypothesis, List.forall_mem_singleton.mpr ?_⟩
      exact (bodyUntimed_of_run run).moves (moves_of_step taken)

/-- When no headers are complete before their message, no body is received. -/
theorem not_receivesBody {history : List (System.Moved TimedSession Happening String)}
    {session : TimedSession} (run : system.recorded.Runs System.anyMove history session)
    (whole : ∀ moved ∈ history, moved.choice ≠ .headersComplete) :
    ¬ session.ReceivesBody ∧
      ∀ moved ∈ history, ¬ moved.before.ReceivesBody ∧ ¬ moved.after.ReceivesBody := by
  induction run with
  | initial isStart =>
      cases isStart
      exact ⟨nofun, List.forall_mem_nil _⟩
  | @move history session choice moved next _ stepped _ inductionHypothesis =>
      obtain ⟨event, taken, rfl⟩ := System.recorded_step stepped
      obtain ⟨earlier, last⟩ := List.forall_mem_append.mp whole
      obtain ⟨before, members⟩ := inductionHypothesis earlier
      have after : ¬ next.ReceivesBody := fun receives =>
        (receivesBody_of_moves (moves_of_step taken) receives).elim
          (List.forall_mem_singleton.mp last) before
      exact ⟨after, List.forall_mem_append.mpr ⟨members,
        List.forall_mem_singleton.mpr ⟨before, after⟩⟩⟩

/-- Every move of a run is guarded exactly when none is the end of headers. -/
theorem bodyGuarded_iff {history : List (System.Moved TimedSession Happening String)}
    {session : TimedSession} (run : system.recorded.Runs System.anyMove history session) :
    (∀ moved ∈ history, BodyGuarded moved) ↔
      ∀ moved ∈ history, moved.choice ≠ .headersComplete := by
  constructor
  · intro guarded moved member isEnd
    have taken := moves_of_step (run.of_mem member)
    have untimed := bodyUntimed_of_mem run moved member
    rw [isEnd] at taken
    have receives : moved.after.ReceivesBody := by
      generalize moved.after = after at taken
      generalize moved.event = event at taken
      cases taken
      rfl
    have armed := ((guarded moved member).body receives).1
    rw [untimed.timer] at armed
    cases armed
  · intro whole moved member
    obtain ⟨-, members⟩ := not_receivesBody run whole
    obtain ⟨before, after⟩ := members moved member
    refine ⟨fun sent => ?_, fun receives => absurd receives after⟩
    have taken := moves_of_step (run.of_mem member)
    rw [sent] at taken
    obtain ⟨missing, reads⟩ := reading_of_sent taken
    cases missing with
    | header => exact reads
    | body => exact absurd reads before

/-- The moves of a session which meets these, as far as they happen. -/
def movesOf (session : TimedSession) :
    List Happening → List (System.Moved TimedSession Happening String)
  | [] => []
  | happening :: rest =>
      match session.step happening with
      | some (event, next) => ⟨session, happening, event, next⟩ :: movesOf next rest
      | none => []

theorem run_movesOf {history : List (System.Moved TimedSession Happening String)}
    {session : TimedSession} (run : system.recorded.Runs System.anyMove history session)
    (happenings : List Happening) :
    ∃ last, system.recorded.Runs System.anyMove (history ++ session.movesOf happenings) last := by
  induction happenings generalizing history session with
  | nil => exact ⟨session, by rwa [movesOf, List.append_nil]⟩
  | cons happening rest inductionHypothesis =>
      rw [movesOf]
      cases stepped : session.step happening with
      | none => exact ⟨session, by rwa [List.append_nil]⟩
      | some outcome =>
          have recorded : system.recorded.step session happening =
              some (some ⟨session, happening, outcome.1, outcome.2⟩, outcome.2) := by
            simp [System.recorded, system, stepped]
          obtain ⟨last, later⟩ := inductionHypothesis (.move run recorded trivial)
          exact ⟨last, by simpa using later⟩

/-- **A slow body is not a header timeout** in a run of a session exactly when no
headers of the run are complete while their body is still to come. -/
theorem slowBody_iff (happenings : List Happening) :
    (∀ moved ∈ start.movesOf happenings, BodyGuarded moved) ↔
      ∀ moved ∈ start.movesOf happenings, moved.choice ≠ .headersComplete := by
  obtain ⟨last, run⟩ := run_movesOf (.initial rfl) happenings
  exact bodyGuarded_iff run

/-- The header timer expires over a body, and its 408 is sent. -/
theorem body_cut_by_header_timer :
    ¬ ∀ happenings, ∀ moved ∈ start.movesOf happenings, BodyGuarded moved := by
  intro always
  have guarded := always [.headersComplete, .expire .header, .handle .header, .readFailed true] _
    (.tail _ (.tail _ (.tail _ (.head _))))
  have reads := guarded.header rfl
  cases reads

end TimedSession

end Foxhttp.Server
