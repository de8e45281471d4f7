import Foxhttp.Library.Fields
import Foxhttp.Middleware.Program

/-!
# Two overloads of one middleware

A middleware has an overload which calls `next()` and one which also reports
through a callback. Both are functions of what they are given, so they can be
run with any `next` and any callback. With a `next` that returns and a callback
that records, they can be compared.
-/

namespace Foxhttp.Middleware

open Foxhttp.Library

/-- A call of a middleware: the request, what the context and the response have
become, how often `next()` was called, and what was reported with which response. -/
structure Turn (Q S R : Type) where
  request : Q
  state : S
  res : R
  nextCalls : Nat := 0
  signals : List (MiddlewareResult × Text × R) := []

/-- The two `operator()` of a middleware. -/
structure Overloads (Q S R : Type) where
  call : (next : Turn Q S R → Turn Q S R) → Turn Q S R → Turn Q S R
  callAsync : (next : Turn Q S R → Turn Q S R) →
    (callback : MiddlewareResult → Text → Turn Q S R → Turn Q S R) → Turn Q S R → Turn Q S R

variable {Q S R : Type}

namespace Turn

/-- A `next()` which returns, after some effect on the context and the response. -/
def next (effect : S → R → S × R) (turn : Turn Q S R) : Turn Q S R :=
  { turn with
    state := (effect turn.state turn.res).1
    res := (effect turn.state turn.res).2
    nextCalls := turn.nextCalls + 1 }

/-- A callback which records the response it is called with. -/
def signal (result : MiddlewareResult) (message : Text) (turn : Turn Q S R) : Turn Q S R :=
  { turn with signals := turn.signals ++ [(result, message, turn.res)] }

def writeResponse (write : R → R) (turn : Turn Q S R) : Turn Q S R :=
  { turn with res := write turn.res }

@[simp] theorem next_signals (effect : S → R → S × R) (turn : Turn Q S R) :
    (turn.next effect).signals = turn.signals :=
  rfl

@[simp] theorem next_nextCalls (effect : S → R → S × R) (turn : Turn Q S R) :
    (turn.next effect).nextCalls = turn.nextCalls + 1 :=
  rfl

@[simp] theorem signal_signals (result : MiddlewareResult) (message : Text) (turn : Turn Q S R) :
    (turn.signal result message).signals = turn.signals ++ [(result, message, turn.res)] :=
  rfl

@[simp] theorem writeResponse_signals (write : R → R) (turn : Turn Q S R) :
    (turn.writeResponse write).signals = turn.signals :=
  rfl

@[simp] theorem writeResponse_nextCalls (write : R → R) (turn : Turn Q S R) :
    (turn.writeResponse write).nextCalls = turn.nextCalls :=
  rfl

@[simp] theorem writeResponse_res (write : R → R) (turn : Turn Q S R) :
    (turn.writeResponse write).res = write turn.res :=
  rfl

end Turn

/-- On a request with some context and response, the asynchronous overload
reports once: `Continue` if the synchronous one calls `next()` and `Stop` if
not, with a response similar to the one the synchronous overload leaves. -/
def AgreesAt (similar : R → R → Prop) (overloads : Overloads Q S R) (request : Q) (state : S)
    (res : R) : Prop :=
  ∀ effect : S → R → S × R, ∃ atSignal,
    (overloads.callAsync (Turn.next effect) Turn.signal { request, state, res }).signals =
      [(if (overloads.call (Turn.next effect) { request, state, res }).nextCalls = 0
          then .Stop else .Continue, [], atSignal)] ∧
    similar atSignal (overloads.call (Turn.next effect) { request, state, res }).res

/-- The overloads agree wherever the middleware is called. -/
def Agrees (similar : Q → R → R → Prop) (overloads : Overloads Q S R) : Prop :=
  ∀ request state res, AgreesAt (similar request) overloads request state res

/-! ## Conditional middlewares -/

/-- `ConditionalMiddleware`. The condition may write to the context. -/
def conditional (condition : Q → S → Bool × S) (mw : Overloads Q S R) : Overloads Q S R where
  call next turn :=
    let (holds, state) := condition turn.request turn.state
    let turn := { turn with state }
    if holds then mw.call next turn else next turn
  callAsync next callback turn :=
    let (holds, state) := condition turn.request turn.state
    let turn := { turn with state }
    if holds then mw.callAsync next callback turn else callback .Continue [] (next turn)

/-- A conditional middleware agrees as far as the one it wraps. -/
theorem agrees_conditional {similar : Q → R → R → Prop} {mw : Overloads Q S R}
    (reflexive : ∀ request res, similar request res res) (agrees : Agrees similar mw)
    (condition : Q → S → Bool × S) : Agrees similar (conditional condition mw) := by
  intro request state res effect
  simp only [conditional]
  split
  · exact agrees request _ res effect
  · exact ⟨_, rfl, reflexive request _⟩

end Foxhttp.Middleware
