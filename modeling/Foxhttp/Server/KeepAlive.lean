import Mathlib.Data.List.Chain
import Foxhttp.Library.MessageHead

/-!
# Keep-alive along a session

`Session::run` and `SslSession::run` read requests one after the other. After a
response they go by the head of the response, which the loop builds anew with
the version of the request before and never with what the request asks for.
-/

namespace Foxhttp.Server

open Foxhttp.Library

/-- The limits of `SessionLimits` which the loop goes by after a response. -/
structure KeepAliveLimits where
  enableKeepAlive : Bool := true
  maxRequestsPerConnection : Nat := 1000

/-- What the middlewares make of the head of a response. -/
abbrev Answer := MessageHead → MessageHead

/-- A request whose response was written: its head, what the middlewares make of
the head of the response, and the limits at that time. -/
structure Exchange where
  request : MessageHead
  answer : Answer
  limits : KeepAliveLimits

/-- What a turn of the loop meets. -/
inductive Incoming where
  /-- The read fails, or a timer aborts it. -/
  | readFailed
  /-- The request is an upgrade to a web socket. -/
  | upgrade (request : MessageHead)
  /-- The middleware chain throws. -/
  | chainThrew (request : MessageHead)
  | writeFailed (request : MessageHead) (answer : Answer)
  | exchange (exchange : Exchange)

/-- The members of a session which outlive a turn: the head of `res_` and
`requests_served_`. -/
structure Session where
  res : MessageHead
  requestsServed : Nat
deriving DecidableEq

namespace Session

/-- A new session: `res_` is a default response, of HTTP/1.1. -/
def start : Session :=
  ⟨⟨.http11, []⟩, 0⟩

/-- The session once the response is written. -/
def sent (session : Session) (exchange : Exchange) : Session :=
  ⟨exchange.answer session.res, session.requestsServed + 1⟩

/-- `keep_open`. -/
def keepOpen (session : Session) (limits : KeepAliveLimits) : Bool :=
  limits.enableKeepAlive && session.res.keepAlive &&
    (limits.maxRequestsPerConnection == 0 ||
      session.requestsServed < limits.maxRequestsPerConnection)

/-- The end of a turn which keeps the connection open. -/
def renew (session : Session) (request : MessageHead) : Session :=
  { session with res := ⟨request.version, []⟩ }

end Session

/-- A written response: the session when the request was read, the exchange, and
whether the session waits for another request. -/
structure Written where
  before : Session
  exchange : Exchange
  waits : Bool

/-- The responses `Session::run` writes for what it meets. -/
def run (session : Session) : List Incoming → List Written
  | [] => []
  | .exchange exchange :: rest =>
      let sent := session.sent exchange
      if sent.keepOpen exchange.limits then
        ⟨session, exchange, true⟩ :: run (sent.renew exchange.request) rest
      else [⟨session, exchange, false⟩]
  | _ :: _ => []

/-! ## Following the request -/

/-- The middlewares disable keep-alive: they leave a new HTTP/1.1 response
asking to close. -/
def Disables (answer : Answer) : Prop :=
  (answer ⟨.http11, []⟩).keepAlive = false

/-- The middlewares enable keep-alive: they leave even a new HTTP/1.0 response
asking to keep the connection open. -/
def Enables (answer : Answer) : Prop :=
  (answer ⟨.http10, []⟩).keepAlive = true

namespace Written

/-- The limits let the session go on after the response. -/
def Allowed (written : Written) : Prop :=
  written.exchange.limits.enableKeepAlive = true ∧
    (written.exchange.limits.maxRequestsPerConnection = 0 ∨
      written.before.requestsServed + 1 < written.exchange.limits.maxRequestsPerConnection)

/-- The session goes on exactly when the limits let it, the request asks for it
and no middleware disabled it. -/
def Follows (written : Written) : Prop :=
  written.waits = true ↔ written.Allowed ∧ written.exchange.request.keepAlive = true ∧
    ¬ Disables written.exchange.answer

/-- The head the response was built with agrees with the request: an HTTP/1.1
head when the request asks to go on or a middleware closes, and an HTTP/1.0 head
when the middlewares write what the request asks for. -/
def Agrees (written : Written) : Prop :=
  match written.before.res.version with
  | .http11 => written.exchange.request.keepAlive = true ∨ Disables written.exchange.answer
  | .http10 => Enables written.exchange.answer ↔
      written.exchange.request.keepAlive = true ∧ ¬ Disables written.exchange.answer

end Written

/-! ## Along a session -/

theorem run_exchange (session : Session) (exchange : Exchange) (rest : List Incoming) :
    run session (.exchange exchange :: rest) =
      if (session.sent exchange).keepOpen exchange.limits then
        ⟨session, exchange, true⟩ :: run ((session.sent exchange).renew exchange.request) rest
      else [⟨session, exchange, false⟩] := rfl

/-- Only a response which is written comes before anything else. -/
theorem run_eq_nil_or (session : Session) (meets : Incoming) (rest : List Incoming) :
    run session (meets :: rest) = [] ∨ ∃ exchange, meets = .exchange exchange := by
  cases meets with
  | exchange exchange => exact .inr ⟨exchange, rfl⟩
  | readFailed => exact .inl rfl
  | upgrade => exact .inl rfl
  | chainThrew => exact .inl rfl
  | writeFailed => exact .inl rfl

/-- What holds of every written response of a session, from what holds of the
session before each turn. -/
theorem run_induction {Holds : Session → Prop} {Result : Written → Prop}
    (written : ∀ session exchange, Holds session →
      Result ⟨session, exchange, (session.sent exchange).keepOpen exchange.limits⟩)
    (renewed : ∀ session exchange, Holds session →
      Holds ((session.sent exchange).renew exchange.request))
    {session : Session} (holds : Holds session) (incoming : List Incoming) :
    ∀ response ∈ run session incoming, Result response := by
  induction incoming generalizing session with
  | nil => exact fun response member => absurd member List.not_mem_nil
  | cons meets rest inductionHypothesis =>
      rcases run_eq_nil_or session meets rest with noneWritten | ⟨exchange, rfl⟩
      · rw [noneWritten]
        exact fun response member => absurd member List.not_mem_nil
      · have here := written session exchange holds
        rw [run_exchange]
        split
        · rename_i stays
          rw [stays] at here
          rw [List.forall_mem_cons]
          exact ⟨here, inductionHypothesis (renewed session exchange holds)⟩
        · rename_i leaves
          rw [Bool.not_eq_true] at leaves
          rw [leaves] at here
          exact List.forall_mem_singleton.mpr here

/-- The first response is written for the session as it is. -/
theorem head_run (session : Session) (incoming : List Incoming) :
    ∀ response ∈ (run session incoming).head?, response.before = session := by
  intro response isHead
  cases incoming with
  | nil => cases isHead
  | cons meets rest =>
      rcases run_eq_nil_or session meets rest with noneWritten | ⟨exchange, rfl⟩
      · rw [noneWritten] at isHead
        cases isHead
      · rw [run_exchange] at isHead
        split at isHead
        · cases isHead
          rfl
        · cases isHead
          rfl

/-- Along a session, every response after the first is built with the version
of the request before, and the responses are counted. -/
theorem isChain_run (session : Session) (incoming : List Incoming) :
    (run session incoming).IsChain fun first second =>
      second.before =
        ⟨⟨first.exchange.request.version, []⟩, first.before.requestsServed + 1⟩ := by
  induction incoming generalizing session with
  | nil => exact .nil
  | cons meets rest inductionHypothesis =>
      rcases run_eq_nil_or session meets rest with noneWritten | ⟨exchange, rfl⟩
      · rw [noneWritten]
        exact .nil
      · rw [run_exchange]
        split
        · rw [List.isChain_cons]
          exact ⟨head_run _ rest, inductionHypothesis _⟩
        · exact .singleton _

/-! ## When the session follows the request -/

/-- The response a turn writes, of the session and the exchange. -/
def writtenFor (session : Session) (exchange : Exchange) : Written :=
  ⟨session, exchange, (session.sent exchange).keepOpen exchange.limits⟩

/-- A session goes on when the limits let it and the response asks for it. -/
theorem waits_iff (session : Session) (exchange : Exchange) :
    (writtenFor session exchange).waits = true ↔
      (writtenFor session exchange).Allowed ∧
        (exchange.answer session.res).keepAlive = true := by
  simp only [writtenFor, Session.keepOpen, Bool.and_eq_true, Bool.or_eq_true, beq_iff_eq,
    decide_eq_true_eq]
  exact and_right_comm

/-- A response built with a new head follows the request exactly when the limits
end the session or the head agrees with the request. -/
theorem follows_iff_agrees {session : Session} (new : session.res.connection = [])
    (exchange : Exchange) :
    (writtenFor session exchange).Follows ↔
      ((writtenFor session exchange).Allowed → (writtenFor session exchange).Agrees) := by
  obtain ⟨⟨version, connection⟩, requestsServed⟩ := session
  obtain rfl : connection = [] := new
  rw [Written.Follows, waits_iff]
  cases version with
  | http11 =>
      have decides : ¬ Disables exchange.answer ↔
          (exchange.answer ⟨.http11, []⟩).keepAlive = true := by rw [Disables, Bool.not_eq_false]
      simp only [Written.Agrees, writtenFor]
      tauto
  | http10 =>
      simp only [Written.Agrees, Enables, writtenFor]
      tauto

/-- In every session, each response follows its request exactly when each
response the limits do not end the session with was built with a head which
agrees with its request. -/
theorem keepAlive_iff (incoming : List Incoming) :
    (∀ response ∈ run .start incoming, response.Follows) ↔
      ∀ response ∈ run .start incoming, response.Allowed → response.Agrees := by
  have iff : ∀ response ∈ run .start incoming,
      response.Follows ↔ (response.Allowed → response.Agrees) :=
    @run_induction (fun session => session.res.connection = [])
      (fun response => response.Follows ↔ (response.Allowed → response.Agrees))
      (fun session exchange new => follows_iff_agrees new exchange)
      (fun session exchange _ => rfl) .start rfl incoming
  exact forall₂_congr iff

/-- Middlewares which write what the request asks for agree with it, whatever
head they are given. -/
theorem agrees_of_setKeepAlive (written : Written)
    (writes : written.exchange.answer =
      MessageHead.setKeepAlive written.exchange.request.keepAlive) : written.Agrees := by
  have disables :
      Disables written.exchange.answer ↔ written.exchange.request.keepAlive = false := by
    rw [Disables, writes, MessageHead.keepAlive_setKeepAlive]
  have enables : Enables written.exchange.answer ↔ written.exchange.request.keepAlive = true := by
    rw [Enables, writes, MessageHead.keepAlive_setKeepAlive]
  rw [Written.Agrees]
  split
  · rw [disables]
    exact (Bool.eq_false_or_eq_true _)
  · rw [enables, disables, Bool.not_eq_false, and_self]

/-- A request which asks to close is not the last on its connection when no
middleware writes a `Connection` field. -/
theorem close_not_followed :
    ¬ ∀ incoming, ∀ response ∈ run .start incoming, response.Follows := by
  intro follows
  have response := (follows [.exchange ⟨⟨.http11, ["close".toList]⟩, id, {}⟩] _
    List.mem_cons_self).mp rfl
  exact absurd response.2.1 (by decide)

end Foxhttp.Server
