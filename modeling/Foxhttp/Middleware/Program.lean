/-!
# Middlewares, handlers and the code the chain does not own

A `Code` is what a middleware body, a `should_execute`, an error or timeout
handler, a completion callback or any caller of the chain does: it reads and
writes request contexts and responses, calls back into the chain, returns or
throws. A `Program` says which `Code` stands behind every name the chain can
call. No assumption is made on it, so a statement about every program is a
statement about every behaviour of the middlewares.
-/

namespace Foxhttp.Middleware

/-- One call of `execute` or `execute_async`. -/
abbrev CallId := Nat
abbrev MiddlewareId := Nat
abbrev HandlerId := Nat
abbrev CallbackId := Nat
abbrev TimerId := Nat

/-- `enum class MiddlewareResult`. -/
inductive MiddlewareResult where
  | Continue | Stop | Error | Timeout
  deriving DecidableEq, Repr

/-- `core::ErrorCode`. -/
inductive ErrorCode where
  | Success
  | NetworkTimeout | NetworkConnectionRefused | NetworkConnectionReset | NetworkUnreachable
  | NetworkDnsResolutionFailed
  | ParseInvalidFormat | ParseSizeExceeded | ParseEncodingError | ParseJsonInvalid
  | ParseMultipartInvalid
  | MiddlewareTimeout | MiddlewareError | MiddlewareCancelled | MiddlewareChainExhausted
  | RouteNotFound | RouteInvalidPattern | RouteParameterMissing
  | ServerInternalError | ServerShutdown | ServerAcceptFailed | ServerSessionError
  | TlsHandshakeFailed | TlsCertificateInvalid | TlsCertificateExpired
  | WebsocketHandshakeFailed | WebsocketConnectionClosed | WebsocketMessageTooLarge
  | WebsocketProtocolError
  | ClientRequestFailed | ClientResponseInvalid | ClientConnectionPoolExhausted
  | Unknown
  deriving DecidableEq, Repr

/-- The enumerator's value, `static_cast<int>(code)`. -/
def ErrorCode.value : ErrorCode → Nat
  | .Success => 0
  | .NetworkTimeout => 1000
  | .NetworkConnectionRefused => 1001
  | .NetworkConnectionReset => 1002
  | .NetworkUnreachable => 1003
  | .NetworkDnsResolutionFailed => 1004
  | .ParseInvalidFormat => 2000
  | .ParseSizeExceeded => 2001
  | .ParseEncodingError => 2002
  | .ParseJsonInvalid => 2003
  | .ParseMultipartInvalid => 2004
  | .MiddlewareTimeout => 3000
  | .MiddlewareError => 3001
  | .MiddlewareCancelled => 3002
  | .MiddlewareChainExhausted => 3003
  | .RouteNotFound => 4000
  | .RouteInvalidPattern => 4001
  | .RouteParameterMissing => 4002
  | .ServerInternalError => 5000
  | .ServerShutdown => 5001
  | .ServerAcceptFailed => 5002
  | .ServerSessionError => 5003
  | .TlsHandshakeFailed => 6000
  | .TlsCertificateInvalid => 6001
  | .TlsCertificateExpired => 6002
  | .WebsocketHandshakeFailed => 7000
  | .WebsocketConnectionClosed => 7001
  | .WebsocketMessageTooLarge => 7002
  | .WebsocketProtocolError => 7003
  | .ClientRequestFailed => 8000
  | .ClientResponseInvalid => 8001
  | .ClientConnectionPoolExhausted => 8002
  | .Unknown => 9999

/-- What a C++ `throw` may carry, as far as the chain's handlers tell it apart. -/
inductive Exn where
  /-- A `std::exception` with its `what()`. -/
  | std (what : String)
  /-- A `core::MiddlewareException`, which is a `std::exception` too. -/
  | middleware (what : String) (code : ErrorCode)
  /-- Anything that is not a `std::exception`. -/
  | foreign
  deriving DecidableEq, Repr

/-- `e.what()` when `catch (const std::exception &e)` catches it. -/
def Exn.what? : Exn → Option String
  | .std what => some what
  | .middleware what _ => some what
  | .foreign => none

/-- The code `handle_error_run` prints: the `dynamic_cast` finds one in a
`MiddlewareException` only. -/
def Exn.code : Exn → ErrorCode
  | .middleware _ code => code
  | _ => .ServerInternalError

/-- `http::response<http::string_body>`: status, header fields and body. -/
structure Response where
  status : Nat
  fields : List (String × String)
  body : String
  deriving DecidableEq, Repr

/-- `res.set(field, value)`: the field replaces those of the same name. -/
def Response.set (res : Response) (field value : String) : Response :=
  { res with fields := res.fields.filter (fun entry => entry.1 != field) ++ [(field, value)] }

/-- The default answer to a timeout. -/
def Response.gatewayTimeout (res : Response) : Response :=
  { ({ res with status := 504 } : Response).set "Content-Type" "text/plain" with
    body := "Request timeout" }

/-- The default answer of `handle_error_run`. -/
def Response.internalError (res : Response) (what : String) (code : ErrorCode) : Response :=
  { ({ res with status := 500 } : Response).set "Content-Type" "application/json" with
    body := "\x7b\"error\": \"" ++ what ++ "\", \"code\": " ++ toString code.value ++ "\x7d" }

/-- The default answer of the synchronous driver to an exception. -/
def Response.middlewareError (res : Response) (what : String) : Response :=
  { ({ res with status := 500 } : Response).set "Content-Type" "text/plain" with
    body := "middleware error: " ++ what }

/-- The `next` and the `callback` which the middleware at a pipeline position
of a call was given. -/
structure Handle where
  call : CallId
  position : Nat
  deriving DecidableEq, Repr

/-- What the chain's setters and registration functions leave behind: the
middlewares in pipeline order and the handlers, timeouts and flags. -/
structure Settings where
  mws : List MiddlewareId
  errorHandler : Option HandlerId
  timeoutHandler : Option HandlerId
  globalTimeout : Nat
  statisticsEnabled : Bool
  ioContext : Bool
  deriving DecidableEq, Repr

/-- The calls into the chain. `configure` stands for `use`, `remove`, `clear`
and the setters, each of which replaces the settings. -/
inductive Operation (γ : Type) where
  | next (handle : Handle)
  | callback (handle : Handle) (result : MiddlewareResult) (message : String)
  | execute (ctx : γ) (res : Response)
  | executeAsync (ctx : γ) (res : Response) (callback : Option CallbackId)
  | cancel
  | pause
  | resume
  | configure (settings : Settings)

/-- Code the chain does not own, over request contexts of type `γ`. -/
inductive Code (γ : Type) where
  /-- Return; `verdict` is the value when the code is a `should_execute`. -/
  | ret (verdict : Bool)
  | throw (e : Exn)
  /-- Replace a call's context and response; the rest sees what they were. -/
  | access (call : CallId) (write : γ → Response → γ × Response) (rest : γ → Response → Code γ)
  /-- Call into the chain; the rest sees the exception the call left by, if any. -/
  | invoke (operation : Operation γ) (rest : Option Exn → Code γ)

/-- Let an exception of a call propagate, as C++ code without a `try` does. -/
def Code.orThrow {γ : Type} (rest : Code γ) : Option Exn → Code γ
  | none => rest
  | some e => .throw e

/-- `callback(result, "")` and nothing else. -/
def Code.signal {γ : Type} (handle : Handle) (result : MiddlewareResult) : Code γ :=
  .invoke (.callback handle result "") (.orThrow (.ret true))

/-- `next(); callback(MiddlewareResult::Continue, "");`, what the asynchronous
overload of `LoggerMiddleware` signals. -/
def Code.nextThenContinue {γ : Type} (handle : Handle) : Code γ :=
  .invoke (.next handle) (.orThrow (.signal handle .Continue))

/-- The code behind every name the chain calls. -/
structure Program (γ : Type) where
  /-- `timeout()` of a middleware, in clock ticks. -/
  timeout : MiddlewareId → Nat
  shouldExecute : MiddlewareId → CallId → Code γ
  /-- `operator()(ctx, res, next)`. -/
  body : MiddlewareId → Handle → Code γ
  /-- The override of `operator()(ctx, res, next, callback)`; a middleware
  without one runs through the default adapter of `Middleware`. -/
  asyncBody : MiddlewareId → Option (Handle → Code γ)
  errorHandler : HandlerId → CallId → Exn → Code γ
  timeoutHandler : HandlerId → CallId → Code γ
  completion : CallbackId → CallId → MiddlewareResult → String → Code γ

/-- Middlewares that take every request, never signal and have no timeout,
with handlers that do nothing. -/
def Program.inert {γ : Type} : Program γ where
  timeout _ := 0
  shouldExecute _ _ := .ret true
  body _ _ := .ret true
  asyncBody _ := none
  errorHandler _ _ _ := .ret true
  timeoutHandler _ _ := .ret true
  completion _ _ _ _ := .ret true

/-- Inert but for these asynchronous overrides of the middlewares. -/
def Program.overriding {γ : Type} (bodies : MiddlewareId → Handle → Code γ) : Program γ :=
  { Program.inert with asyncBody := fun mw => some (bodies mw) }

end Foxhttp.Middleware
