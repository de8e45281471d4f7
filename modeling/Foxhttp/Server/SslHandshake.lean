import Foxhttp.Server.SessionTimeouts

/-!
# The session behind a handshake

`SslSession::run` has the loop of `Session::run` behind a TLS handshake, with a timer
of its own. A handler of that timer which was queued when the handshake completed
still runs, and cancels a read for a reason for which no 408 is sent.
-/

namespace Foxhttp.Server

open Foxhttp.Library

/-- A TLS session, as far as its timers go by it. While `handshakeTimeout` is set,
`read_abort_` is `HandshakeTimeout`, and otherwise what `session` has. The phase of
`session` is that of a session which has ended until the loop begins. -/
structure SslTimedSession where
  session : TimedSession
  handshakeTimer : SessionTimer
  handshaking : Bool
  handshakeTimeout : Bool

/-- What a TLS session meets. -/
inductive SslHappening where
  | handshakeDone
  | handshakeFailed
  /-- The 30 seconds are over, and the handler is queued. -/
  | expireHandshake
  | handleHandshake
  /-- What a session meets as well. -/
  | inSession (happening : Happening)

namespace SslTimedSession

/-- `start`, up to the handshake. -/
def start : SslTimedSession where
  session := TimedSession.armIdleTimer ⟨.ended, fun _ => ⟨false, 0⟩, .none⟩
  handshakeTimer := ⟨true, 0⟩
  handshaking := true
  handshakeTimeout := false

/-- `cancel_handshake_timer`, behind the handshake. -/
def endHandshake (ssl : SslTimedSession) : SslTimedSession :=
  { ssl with handshakeTimer := { ssl.handshakeTimer with armed := false }, handshaking := false }

/-- The turn of the loop behind a read which completes. No timer is cancelled for an
upgrade. -/
def afterMessage (ssl : SslTimedSession) (isUpgrade : Bool) : SslTimedSession :=
  let session := ssl.session.cancelHeaderTimer.onActivity
  { ssl with
    session := if isUpgrade then session.leave else { session with phase := .answering } }

/-- The turn of the loop behind a read which fails. -/
def afterFailure (ssl : SslTimedSession) (aborted : Bool) : Option String × SslTimedSession :=
  if aborted ∧ ssl.handshakeTimeout then
    (none, { ssl with session := ssl.session.cancelHeaderTimer.leave, handshakeTimeout := false })
  else
    let (sent, session) := ssl.session.afterFailure aborted
    (sent, { ssl with session })

/-- Whether a session writes `read_abort_` on it. -/
def writesAbort (session : TimedSession) : Happening → Bool
  | .handle .header | .handle .body => true
  | .written keepOpen => keepOpen && decide (session.phase = .writing)
  | _ => false

/-- What a TLS session makes of what it meets. -/
def step (ssl : SslTimedSession) : SslHappening → Option (Option String × SslTimedSession)
  | .handshakeDone =>
      if ssl.handshaking then
        some (none, { ssl.endHandshake with
          session := ssl.session.onActivity.beginRead, handshakeTimeout := false })
      else none
  | .handshakeFailed => if ssl.handshaking then some (none, ssl.endHandshake) else none
  | .expireHandshake =>
      if ssl.handshakeTimer.armed then
        some (none, { ssl with handshakeTimer := ⟨false, ssl.handshakeTimer.due + 1⟩ })
      else none
  | .handleHandshake =>
      if 0 < ssl.handshakeTimer.due then
        some (none, { ssl with
          handshakeTimer := { ssl.handshakeTimer with due := ssl.handshakeTimer.due - 1 }
          handshakeTimeout := true })
      else none
  | .inSession (.messageComplete isUpgrade) =>
      match ssl.session.phase with
      | .reading _ => some (none, ssl.afterMessage isUpgrade)
      | _ => none
  | .inSession (.readFailed aborted) =>
      match ssl.session.phase with
      | .reading _ => some (ssl.afterFailure aborted)
      | _ => none
  | .inSession happening =>
      match ssl.session.step happening with
      | some (sent, session) =>
          some (sent, { ssl with
            session
            handshakeTimeout := ssl.handshakeTimeout && !writesAbort ssl.session happening })
      | none => none

/-- TLS sessions, with the texts of the 408s which they send. -/
def system : System SslTimedSession SslHappening String where
  Initial ssl := ssl = start
  step := step

end SslTimedSession

/-! ## Sessions which differ in their idle timer -/

namespace TimedSession

/-- Sessions in the same phase, with the same timers but for the idle timer. -/
structure Alike (first second : TimedSession) : Prop where
  phase : first.phase = second.phase
  timers : ∀ name, name ≠ .idle → first.timers name = second.timers name

namespace Alike

variable {first second : TimedSession} (alike : Alike first second)

include alike

theorem withPhase (phase : Phase) :
    Alike { first with phase := phase } { second with phase := phase } :=
  ⟨rfl, alike.timers⟩

/-- What is done to one timer of both. -/
theorem update (name : TimerName) {one two : SessionTimer} (same : name ≠ .idle → one = two)
    {oneAbort twoAbort : ReadAbortReason} :
    Alike ⟨first.phase, Function.update first.timers name one, oneAbort⟩
      ⟨second.phase, Function.update second.timers name two, twoAbort⟩ := by
  refine ⟨alike.phase, fun other notIdle => ?_⟩
  dsimp only
  by_cases isName : other = name
  · subst isName
    rw [Function.update_self, Function.update_self, same notIdle]
  · rw [Function.update_of_ne isName, Function.update_of_ne isName]
    exact alike.timers other notIdle

theorem arm (name : TimerName) : Alike (first.arm name) (second.arm name) :=
  alike.update name fun notIdle => by rw [alike.timers name notIdle]

theorem cancel (name : TimerName) : Alike (first.cancel name) (second.cancel name) :=
  alike.update name fun notIdle => by rw [alike.timers name notIdle]

theorem expire (name : TimerName) : Alike (first.expire name) (second.expire name) :=
  alike.update name fun notIdle => by rw [alike.timers name notIdle]

theorem handle (name : TimerName) :
    Alike ((first.dequeue name).onTimeout name) ((second.dequeue name).onTimeout name) := by
  have dequeued : Alike (first.dequeue name) (second.dequeue name) :=
    alike.update name fun notIdle => by rw [alike.timers name notIdle]
  cases name with
  | idle => exact dequeued
  | header => exact ⟨dequeued.phase, dequeued.timers⟩
  | body => exact ⟨dequeued.phase, dequeued.timers⟩

theorem onActivity : Alike first.onActivity second.onActivity :=
  (alike.cancel .idle).arm .idle

theorem beginRead : Alike first.beginRead second.beginRead :=
  ⟨rfl, (alike.arm .header).timers⟩

end Alike

/-- What happens to the idle timer alone is not seen. -/
theorem alike_idle (session : TimedSession) (timer : SessionTimer) (abort : ReadAbortReason) :
    Alike ⟨session.phase, Function.update session.timers .idle timer, abort⟩ session :=
  ⟨rfl, fun _ notIdle => Function.update_of_ne notIdle _ _⟩

theorem Alike.trans {first second third : TimedSession} (one : Alike first second)
    (two : Alike second third) : Alike first third :=
  ⟨one.phase.trans two.phase, fun name notIdle =>
    (one.timers name notIdle).trans (two.timers name notIdle)⟩

theorem alike_onActivity (session : TimedSession) : Alike session.onActivity session :=
  (alike_idle session.cancelIdleTimer _ _).trans (alike_idle session _ _)

/-- Behind its end a session meets nothing but its timers. -/
theorem step_ended {session next : TimedSession} {happening : Happening} {sent : Option String}
    (ended : session.phase = .ended) (stepped : session.step happening = some (sent, next)) :
    sent = none ∧ next.phase = .ended ∧ ∃ name timer abort,
      ((session.timers name).armed = true ∨ 0 < (session.timers name).due) ∧
      next = ⟨session.phase, Function.update session.timers name timer, abort⟩ := by
  cases moves_of_step stepped with
  | headersComplete reads => cases ended.symm.trans reads
  | bodyProgress reads => cases ended.symm.trans reads
  | messageComplete reads _ => cases ended.symm.trans reads
  | readFailed reads _ => cases ended.symm.trans reads
  | chainDone answers => cases ended.symm.trans answers
  | chainThrew answers => cases ended.symm.trans answers
  | writtenOpen writes => cases ended.symm.trans writes
  | written writes _ => rcases writes with writes | writes <;> cases ended.symm.trans writes
  | writeFailed writes => rcases writes with writes | writes <;> cases ended.symm.trans writes
  | @expire name armed => exact ⟨rfl, ended, name, _, _, .inl armed, rfl⟩
  | @handle name due => cases name <;> exact ⟨rfl, ended, _, _, _, .inr due, rfl⟩

/-- Alike sessions make the same of what they meet, but for their idle timers. -/
theorem Alike.step {first second next : TimedSession} (alike : Alike first second)
    {happening : Happening} {sent : Option String}
    (stepped : first.step happening = some (sent, next))
    (notRead : ∀ isUpgrade aborted, happening ≠ .messageComplete isUpgrade ∧
      happening ≠ .readFailed aborted)
    (notIdle : happening ≠ .expire .idle ∧ happening ≠ .handle .idle) :
    ∃ after, second.step happening = some (sent, after) ∧ Alike next after ∧
      (first.readAbort = second.readAbort ∨ SslTimedSession.writesAbort first happening = true →
        next.readAbort = after.readAbort) := by
  have phase := alike.phase
  cases moves_of_step stepped with
  | headersComplete reads =>
      refine ⟨{ second with phase := .reading .body }, ?_, alike.withPhase _, ?_⟩
      · rw [TimedSession.step, if_pos (phase ▸ reads)]
      · simp [SslTimedSession.writesAbort]
  | bodyProgress reads =>
      refine ⟨second, ?_, alike, ?_⟩
      · rw [TimedSession.step, if_pos (phase ▸ reads)]
      · simp [SslTimedSession.writesAbort]
  | messageComplete _ isUpgrade => exact absurd rfl (notRead isUpgrade true).1
  | readFailed _ _ => exact absurd rfl (notRead true _).2
  | chainDone answers =>
      refine ⟨{ second with phase := .writing }, ?_, alike.withPhase _, ?_⟩
      · rw [TimedSession.step, if_pos (phase ▸ answers)]
      · simp [SslTimedSession.writesAbort]
  | chainThrew answers =>
      refine ⟨second.leave, ?_, alike.withPhase _, ?_⟩
      · rw [TimedSession.step, if_pos (phase ▸ answers)]
      · simp [SslTimedSession.writesAbort, leave]
  | writtenOpen writes =>
      refine ⟨second.onActivity.beginRead, ?_, alike.onActivity.beginRead, fun _ => rfl⟩
      simp only [TimedSession.step, ← phase, writes, if_true]
  | written writes keepOpen =>
      rcases writes with writes | refuses
      · cases keepOpen with
        | true =>
            -- A session which is kept open does not leave.
            simp only [TimedSession.step, writes, if_true, Option.some.injEq, Prod.mk.injEq]
              at stepped
            have wrong := congrArg TimedSession.phase stepped.2
            cases wrong
        | false =>
            refine ⟨second.leave, ?_, alike.withPhase _, ?_⟩
            · simp only [TimedSession.step, ← phase, writes, Bool.false_eq_true, if_false]
            · simp [SslTimedSession.writesAbort, leave]
      · refine ⟨second.leave, ?_, alike.withPhase _, ?_⟩
        · simp only [TimedSession.step, ← phase, refuses]
        · simp [SslTimedSession.writesAbort, leave, refuses]
  | writeFailed writes =>
      refine ⟨second.leave, ?_, alike.withPhase _, ?_⟩
      · rw [TimedSession.step, if_pos (phase ▸ writes)]
      · simp [SslTimedSession.writesAbort, leave]
  | @expire name armed =>
      have isOther : name ≠ .idle := fun isIdle => notIdle.1 (isIdle ▸ rfl)
      refine ⟨second.expire name, ?_, alike.expire name, ?_⟩
      · rw [TimedSession.step, ← alike.timers name isOther, if_pos armed]
      · simp [SslTimedSession.writesAbort, TimedSession.expire]
  | @handle name due =>
      have isOther : name ≠ .idle := fun isIdle => notIdle.2 (isIdle ▸ rfl)
      refine ⟨(second.dequeue name).onTimeout name, ?_, alike.handle name, ?_⟩
      · rw [TimedSession.step, ← alike.timers name isOther, if_pos due]
      · cases name with
        | idle => exact absurd rfl isOther
        | header => exact fun _ => rfl
        | body => exact fun _ => rfl

end TimedSession

/-! ## The loop behind the handshake -/

namespace SslTimedSession

/-- How a TLS session goes by a session: which has not begun before the handshake is
done, which goes along, or which is no matter as the TLS session has ended. -/
inductive GoesBy (ssl : SslTimedSession) (session : TimedSession) : Prop
  | handshaking (still : ssl.handshaking = true) (phase : ssl.session.phase = .ended)
      (unused : ∀ name, name ≠ .idle → ssl.session.timers name = ⟨false, 0⟩)
      (isStart : session = .start)
  | looping (isOver : ssl.handshaking = false) (alike : ssl.session.Alike session)
      (abort : ssl.handshakeTimeout = false → ssl.session.readAbort = session.readAbort)
  | ended (isOver : ssl.handshaking = false) (phase : ssl.session.phase = .ended)

variable {ssl next : SslTimedSession} {session : TimedSession} {sent : Option String}

theorem goesBy_start : GoesBy start .start :=
  .handshaking rfl rfl (fun _ notIdle => Function.update_of_ne notIdle _ _) rfl

/-- Nothing but the handshake's timer has changed. -/
theorem GoesBy.withTimer (goesBy : GoesBy ssl session) (timer : SessionTimer) (timeout : Bool)
    (keeps : timeout = false → ssl.handshakeTimeout = false) :
    GoesBy { ssl with handshakeTimer := timer, handshakeTimeout := timeout } session := by
  cases goesBy with
  | handshaking still phase unused isStart => exact .handshaking still phase unused isStart
  | looping isOver alike abort => exact .looping isOver alike fun off => abort (keeps off)
  | ended isOver phase => exact .ended isOver phase

/-- The loop begins as a session does. -/
theorem goesBy_handshakeDone (phase : ssl.session.phase = .ended)
    (unused : ∀ name, name ≠ .idle → ssl.session.timers name = ⟨false, 0⟩) :
    GoesBy { ssl.endHandshake with
      session := ssl.session.onActivity.beginRead, handshakeTimeout := false } .start := by
  have fresh : ssl.session.Alike
      (TimedSession.armIdleTimer ⟨.ended, fun _ => ⟨false, 0⟩, .none⟩) := by
    refine ⟨phase, fun name notIdle => (unused name notIdle).trans ?_⟩
    rw [TimedSession.armIdleTimer, TimedSession.arm]
    dsimp only
    rw [Function.update_of_ne notIdle]
  exact .looping rfl ((TimedSession.alike_onActivity _).trans fresh).beginRead fun _ => rfl

/-- A read which completes. -/
theorem GoesBy.afterMessage {missing : Section} (isOver : ssl.handshaking = false)
    (alike : ssl.session.Alike session)
    (abort : ssl.handshakeTimeout = false → ssl.session.readAbort = session.readAbort)
    (reads : ssl.session.phase = .reading missing) (isUpgrade : Bool) :
    GoesBy (ssl.afterMessage isUpgrade) session ∨
      ∃ after, session.step (.messageComplete isUpgrade) = some (none, after) ∧
        GoesBy (ssl.afterMessage isUpgrade) after := by
  cases isUpgrade with
  | true => exact .inl (.ended isOver rfl)
  | false =>
      refine .inr ⟨session.afterMessage false, ?_, .looping isOver ?_ abort⟩
      · simp only [TimedSession.step, ← alike.phase, reads]
      · exact (alike.cancel .header).onActivity.withPhase .answering

/-- A read which fails. A session which goes along is not told that its read was
cancelled, when the handshake's handler has cancelled it. -/
theorem GoesBy.afterFailure {missing : Section} {aborted : Bool} (isOver : ssl.handshaking = false)
    (alike : ssl.session.Alike session)
    (abort : ssl.handshakeTimeout = false → ssl.session.readAbort = session.readAbort)
    (reads : ssl.session.phase = .reading missing)
    (outcome : ssl.afterFailure aborted = (sent, next)) :
    ∃ cancelled after, session.step (.readFailed cancelled) = some (sent, after) ∧
      GoesBy next after := by
  have reading (cancelled : Bool) :
      session.step (.readFailed cancelled) = some (session.afterFailure cancelled) := by
    simp only [TimedSession.step, ← alike.phase, reads]
  rw [SslTimedSession.afterFailure] at outcome
  split at outcome
  · cases outcome
    exact ⟨false, _, reading false, .ended isOver rfl⟩
  · rename_i notBoth
    cases aborted with
    | false =>
        cases outcome
        exact ⟨false, _, reading false, .ended isOver rfl⟩
    | true =>
        have told := abort (by simpa using notBoth)
        refine ⟨true, (session.afterFailure true).2, (reading true).trans ?_, ?_⟩
        · cases outcome
          simp only [TimedSession.afterFailure, TimedSession.cancelHeaderTimer, TimedSession.cancel,
            told, if_true]
          cases session.readAbort <;> rfl
        · cases outcome
          simp only [TimedSession.afterFailure, TimedSession.cancelHeaderTimer, TimedSession.cancel,
            told, if_true]
          have cancelled := alike.cancel .header
          cases session.readAbort with
          | none => exact .ended isOver rfl
          | headerTimeout => exact .looping isOver ⟨rfl, cancelled.timers⟩ fun _ => rfl
          | bodyTimeout => exact .looping isOver ⟨rfl, cancelled.timers⟩ fun _ => rfl

/-- What the session of a TLS session meets, other than the end of a read. -/
theorem GoesBy.inSession {happening : Happening} {behind : TimedSession}
    (goesBy : GoesBy ssl session) (stepped : ssl.session.step happening = some (sent, behind))
    (notRead : ∀ isUpgrade aborted, happening ≠ .messageComplete isUpgrade ∧
      happening ≠ .readFailed aborted) :
    let next : SslTimedSession := { ssl with
      session := behind
      handshakeTimeout := ssl.handshakeTimeout && !writesAbort ssl.session happening }
    (sent = none ∧ GoesBy next session) ∨
      ∃ after, session.step happening = some (sent, after) ∧ GoesBy next after := by
  intro next
  cases goesBy with
  | handshaking still phase unused isStart =>
      obtain ⟨rfl, ended, name, timer, abort, active, isNext⟩ :=
        TimedSession.step_ended phase stepped
      refine .inl ⟨rfl, .handshaking still ended (fun other notIdle => ?_) isStart⟩
      have isIdle : name = .idle := by
        by_contra isOther
        rw [unused name isOther] at active
        simp at active
      subst isIdle isNext
      exact (Function.update_of_ne notIdle _ _).trans (unused other notIdle)
  | ended isOver phase =>
      obtain ⟨rfl, ended, -⟩ := TimedSession.step_ended phase stepped
      exact .inl ⟨rfl, .ended isOver ended⟩
  | looping isOver alike abort =>
      by_cases idle : happening = .expire .idle ∨ happening = .handle .idle
      · -- The session which goes along does without an idle timer.
        have silent : sent = none ∧ behind.Alike ssl.session ∧
            behind.readAbort = ssl.session.readAbort := by
          rcases idle with rfl | rfl <;> cases TimedSession.moves_of_step stepped <;>
            exact ⟨rfl, TimedSession.alike_idle _ _ _, rfl⟩
        obtain ⟨rfl, same, sameAbort⟩ := silent
        refine .inl ⟨rfl, .looping isOver (same.trans alike) fun off => ?_⟩
        rw [sameAbort]
        refine abort ?_
        rcases idle with rfl | rfl <;> simpa [next, writesAbort] using off
      · obtain ⟨after, taken, still, told⟩ := alike.step stepped notRead (not_or.mp idle)
        refine .inr ⟨after, taken, .looping isOver still fun off => told ?_⟩
        rcases Bool.and_eq_false_iff.mp off with unset | written
        · exact .inl (abort unset)
        · exact .inr (by simpa using written)

/-- Every move of a TLS session is one of a session, or is not seen. -/
theorem GoesBy.moved {happening : SslHappening} (goesBy : GoesBy ssl session)
    (stepped : ssl.step happening = some (sent, next)) :
    (sent = none ∧ GoesBy next session) ∨
      ∃ met after, session.step met = some (sent, after) ∧ GoesBy next after := by
  cases happening with
  | handshakeDone =>
      obtain ⟨still, outcome⟩ := Option.ite_none_right_eq_some.mp stepped
      cases outcome
      cases goesBy with
      | handshaking _ phase unused isStart =>
          exact .inl ⟨rfl, isStart ▸ goesBy_handshakeDone phase unused⟩
      | looping isOver _ _ => cases still.symm.trans isOver
      | ended isOver _ => cases still.symm.trans isOver
  | handshakeFailed =>
      obtain ⟨still, outcome⟩ := Option.ite_none_right_eq_some.mp stepped
      cases outcome
      cases goesBy with
      | handshaking _ phase _ _ => exact .inl ⟨rfl, .ended rfl phase⟩
      | looping isOver _ _ => cases still.symm.trans isOver
      | ended isOver _ => cases still.symm.trans isOver
  | expireHandshake =>
      obtain ⟨-, outcome⟩ := Option.ite_none_right_eq_some.mp stepped
      cases outcome
      exact .inl ⟨rfl, goesBy.withTimer _ ssl.handshakeTimeout id⟩
  | handleHandshake =>
      obtain ⟨-, outcome⟩ := Option.ite_none_right_eq_some.mp stepped
      cases outcome
      exact .inl ⟨rfl, goesBy.withTimer _ true fun isFalse => by cases isFalse⟩
  | inSession happening =>
      -- The ends of reads have turns of their own, and are met in the loop only.
      have looping {missing : Section} (reads : ssl.session.phase = .reading missing) :
          ssl.handshaking = false ∧ ssl.session.Alike session ∧
            (ssl.handshakeTimeout = false → ssl.session.readAbort = session.readAbort) := by
        cases goesBy with
        | handshaking _ phase _ _ => cases phase.symm.trans reads
        | looping isOver alike abort => exact ⟨isOver, alike, abort⟩
        | ended _ phase => cases phase.symm.trans reads
      by_cases completes : ∃ isUpgrade, happening = .messageComplete isUpgrade
      · obtain ⟨isUpgrade, rfl⟩ := completes
        simp only [step] at stepped
        split at stepped <;> cases stepped
        rename_i missing reads
        obtain ⟨isOver, alike, abort⟩ := looping reads
        rcases GoesBy.afterMessage isOver alike abort reads isUpgrade with
          still | ⟨after, taken, still⟩
        · exact .inl ⟨rfl, still⟩
        · exact .inr ⟨_, after, taken, still⟩
      · by_cases fails : ∃ aborted, happening = .readFailed aborted
        · obtain ⟨aborted, rfl⟩ := fails
          simp only [step] at stepped
          split at stepped
          · rename_i missing reads
            obtain ⟨isOver, alike, abort⟩ := looping reads
            obtain ⟨cancelled, after, taken, still⟩ :=
              GoesBy.afterFailure isOver alike abort reads (Option.some.inj stepped)
            exact .inr ⟨_, after, taken, still⟩
          · cases stepped
        · have notRead (isUpgrade aborted : Bool) : happening ≠ .messageComplete isUpgrade ∧
              happening ≠ .readFailed aborted :=
            ⟨fun same => completes ⟨_, same⟩, fun same => fails ⟨_, same⟩⟩
          have generic : ssl.step (.inSession happening) =
              match ssl.session.step happening with
              | some (sent, session) =>
                  some (sent, { ssl with
                    session
                    handshakeTimeout :=
                      ssl.handshakeTimeout && !writesAbort ssl.session happening })
              | none => none := by
            cases happening <;>
              first
                | rfl
                | exact absurd rfl (notRead _ true).1
                | exact absurd rfl (notRead true _).2
          rw [generic] at stepped
          split at stepped <;> cases stepped
          rename_i behind taken
          rcases goesBy.inSession taken notRead with ⟨silent, still⟩ | ⟨after, met, still⟩
          · exact .inl ⟨silent, still⟩
          · exact .inr ⟨_, after, met, still⟩

/-- No move begins a handshake. -/
theorem handshaking_of_step {happening : SslHappening}
    (stepped : ssl.step happening = some (sent, next)) (still : next.handshaking = true) :
    ssl.handshaking = true := by
  cases happening with
  | handshakeDone => exact (Option.ite_none_right_eq_some.mp stepped).1
  | handshakeFailed => exact (Option.ite_none_right_eq_some.mp stepped).1
  | expireHandshake =>
      obtain ⟨-, outcome⟩ := Option.ite_none_right_eq_some.mp stepped
      cases outcome
      exact still
  | handleHandshake =>
      obtain ⟨-, outcome⟩ := Option.ite_none_right_eq_some.mp stepped
      cases outcome
      exact still
  | inSession happening =>
      cases happening with
      | readFailed aborted =>
          simp only [step, afterFailure] at stepped
          split at stepped
          · split at stepped <;> cases stepped <;> exact still
          · cases stepped
      | _ =>
          simp only [step] at stepped
          split at stepped <;> cases stepped
          exact still

/-- No 408 is sent where the loop does not read. -/
theorem silent_of_ended {happening : SslHappening} (phase : ssl.session.phase = .ended)
    (stepped : ssl.step happening = some (sent, next)) : sent = none := by
  cases happening with
  | handshakeDone =>
      cases (Option.ite_none_right_eq_some.mp stepped).2
      rfl
  | handshakeFailed =>
      cases (Option.ite_none_right_eq_some.mp stepped).2
      rfl
  | expireHandshake =>
      cases (Option.ite_none_right_eq_some.mp stepped).2
      rfl
  | handleHandshake =>
      cases (Option.ite_none_right_eq_some.mp stepped).2
      rfl
  | inSession happening =>
      cases happening with
      | messageComplete isUpgrade =>
          simp only [step, phase] at stepped
          cases stepped
      | readFailed aborted =>
          simp only [step, phase] at stepped
          cases stepped
      | _ =>
          simp only [step] at stepped
          split at stepped <;> cases stepped
          rename_i taken
          exact (TimedSession.step_ended phase taken).1

/-- **A TLS session answers as a session**: in every run it sends the 408s of a run
of a session, which meets no handshake. As long as it is in the handshake it has sent
nothing, and does not read. -/
theorem answers_as_session {guard : System.Guard SslTimedSession String} {sent : List String}
    (run : system.Runs guard sent ssl) :
    (∃ session, TimedSession.system.Runs System.anyMove sent session) ∧
      (ssl.handshaking = true → sent = [] ∧ ssl.session.phase = .ended) := by
  have started (state : SslTimedSession) (isStart : state = start) :
      ∃ session, TimedSession.system.Initial session ∧ GoesBy state session :=
    ⟨.start, rfl, isStart ▸ goesBy_start⟩
  have goesBy {sent : List String} {ssl : SslTimedSession} (run : system.Runs guard sent ssl) :
      ∃ session, TimedSession.system.Runs System.anyMove sent session ∧ GoesBy ssl session :=
    run.simulated started fun goesBy stepped => goesBy.moved stepped
  obtain ⟨session, along, -⟩ := goesBy run
  have phase {sent : List String} {ssl : SslTimedSession} (run : system.Runs guard sent ssl)
      (still : ssl.handshaking = true) : ssl.session.phase = .ended := by
    obtain ⟨_, -, related⟩ := goesBy run
    cases related with
    | handshaking _ phase _ _ => exact phase
    | looping isOver _ _ => cases still.symm.trans isOver
    | ended isOver _ => cases still.symm.trans isOver
  refine ⟨⟨session, along⟩, fun still => ⟨?_, phase run still⟩⟩
  clear along started goesBy
  induction run with
  | initial isStart => rfl
  | move prior stepped _ inductionHypothesis =>
      have was := handshaking_of_step stepped still
      rw [inductionHypothesis was, silent_of_ended (phase prior was) stepped]
      rfl

/-- The header timer expires behind the handshake. -/
theorem answers_as_session_timeout :
    ∃ reached, system.follow System.anyMove [] start
        [.handshakeDone, .inSession (.expire .header), .inSession (.handle .header),
          .inSession (.readFailed true)] = some reached ∧
      reached.1 = ["Header read timeout"] ∧
      (∃ session, TimedSession.system.Runs System.anyMove reached.1 session) ∧
      (reached.2.handshaking = true → reached.1 = [] ∧ reached.2.session.phase = .ended) :=
  (System.Runs.initial rfl).reaches rfl fun run => ⟨rfl, answers_as_session run⟩

end SslTimedSession

end Foxhttp.Server
