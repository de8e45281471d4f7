import Foxhttp.Library.Transition
import Foxhttp.Middleware.State

/-!
# The drivers of `MiddlewareChain` as a machine

`execute` and `execute_async` give up control to code they do not own at every
middleware body, `should_execute`, handler and completion callback, and that
code calls back into the chain. A `Thread` therefore is a `Control`, what is
about to happen, over a stack of `Frame`s, the C++ activations waiting for it.
`advance` runs a thread up to the next point where other threads may act: one
locked section, one atomic exchange, one cancel of a timer outside a lock, one
call of foreign code, one `return` or one `throw`. Handles stay callable for
ever, so a late or repeated signal is just another `invoke` by whatever code
holds the handle.
-/

namespace Foxhttp.Middleware

/-- How a middleware signals. -/
inductive Signal where
  | next
  | callback (result : MiddlewareResult)
  deriving DecidableEq, Repr

/-- What a move of the chain reports. `passed` and `unregistered` carry the
arguments of the completion callback when they invoke it, and `finished` those
with which it is going to be invoked. -/
inductive Event where
  | registered (call : CallId) (mode : Mode) (size : Nat)
  | passed (call : CallId) (completion : Option (MiddlewareResult × String))
  | claimed (call : CallId) (position : Nat)
  | skipped (call : CallId) (position : Nat)
  | refused (call : CallId) (position : Nat)
  | started (call : CallId) (position : Nat)
  | signalled (call : CallId) (position : Nat) (signal : Signal)
  | timedOut (call : CallId) (timer : Option TimerId)
  | overtaken (timer : TimerId)
  | cancelled (call : CallId)
  | finished (call : CallId) (completion : Option (MiddlewareResult × String))
  | unregistered (call : CallId) (completion : Option (MiddlewareResult × String))
  | paused (value : Bool)
  | errorHandled (call : CallId) (e : Exn)
  | timeoutHandled (call : CallId)
  | responded (call : CallId)
  deriving DecidableEq, Repr

/-- Where a thread is in `try_finish_run` once it has won the exchange. -/
inductive FinishStage where
  | cancelGlobal | cancelMiddleware | unregister
  deriving DecidableEq, Repr

/-- What a thread does next. -/
inductive Control (γ : Type) where
  | code (code : Code γ)
  /-- Enter an `async_callback` closure. -/
  | asyncCallback (handle : Handle) (result : MiddlewareResult) (message : String)
  /-- Enter `execute_next_async_step`. -/
  | asyncStep (call : CallId)
  /-- Enter `execute_next_sync`. -/
  | syncStep (call : CallId)
  /-- Enter `handle_error_run`. -/
  | handleError (call : CallId) (e : Exn)
  /-- Enter `handle_timeout_run`. -/
  | handleTimeout (call : CallId)
  /-- `if (th) th(ctx, res); else` the default answer, and nothing after it. -/
  | answerTimeout (call : CallId)
  /-- Enter `complete_async_run`. -/
  | completeRun (call : CallId) (result : MiddlewareResult) (message : String)
  /-- The rest of `try_finish_run`, for a caller which does `after` then. -/
  | finishing (stage : FinishStage) (call : CallId)
      (completion : Option (MiddlewareResult × String)) (after : Code γ)
  /-- Enter a timer's handler. -/
  | timerHandler (timer : TimerId)
  /-- The rest of the loop of `cancel()`. -/
  | cancelling (calls : List CallId)
  | returned (verdict : Bool)
  | thrown (e : Exn)

/-- An activation waiting for what runs above it. -/
inductive Frame (γ : Type) where
  /-- Foreign code inside a call into the chain. -/
  | await (rest : Option Exn → Code γ)
  /-- `execute_next_async_step` inside `mw->should_execute(ctx)`. -/
  | asyncSelect (call : CallId) (position : Nat)
  /-- `execute_next_async_step` inside `try { (*mw)(ctx, res, next, async_callback); }`. -/
  | asyncBody (call : CallId) (position : Nat)
  /-- The default adapter inside `try { (*this)(ctx, res, next);`. -/
  | adapterBody (handle : Handle)
  /-- The default adapter inside `callback(MiddlewareResult::Continue, ""); }`. -/
  | adapterCallback (handle : Handle)
  /-- `handle_error_run` inside the error handler. -/
  | errorHandled (call : CallId) (e : Exn)
  /-- `handle_timeout_run` inside the timeout handler. -/
  | timeoutHandled (call : CallId)
  /-- `execute_async` inside its `try`. -/
  | executeAsyncTry (call : CallId)
  /-- `execute_async` inside the completion callback of its `catch (...)`. -/
  | rethrow (e : Exn)
  /-- `execute_next_sync` inside `mw->should_execute(ctx)`. -/
  | syncSelect (call : CallId) (position : Nat)
  /-- `execute_next_sync` inside `try { (*mw)(ctx, res, next);`. -/
  | syncBody (call : CallId) (position : Nat)
  /-- `execute` inside its `try`. -/
  | executeTry (call : CallId)
  /-- The event loop inside a timer's handler. -/
  | timerDone (timer : TimerId)

/-- A thread of control: what it does next over the waiting activations. -/
structure Thread (γ : Type) where
  control : Control γ
  stack : List (Frame γ)

/-- What one move of a thread leaves. -/
structure Move (γ : Type) where
  event : Option Event
  chain : Chain γ
  thread : Thread γ

variable {γ : Type} (program : Program γ)

/-- `e.what()` for a caught exception. -/
def Exn.message (e : Exn) : String := e.what?.getD ""

/-- `complete_async_run`. -/
def completeAsyncRun (chain : Chain γ) (call : CallId) (result : MiddlewareResult)
    (message : String) (stack : List (Frame γ)) : Move γ :=
  match chain.tryFinishRun call with
  | (false, chain) => ⟨none, chain, ⟨.returned false, stack⟩⟩
  | (true, chain) =>
      match chain.callback? call with
      | none =>
          ⟨some (.finished call none), chain,
            ⟨.finishing .cancelGlobal call none (.ret false), stack⟩⟩
      | some callback =>
          ⟨some (.finished call (some (result, message))), chain,
            ⟨.finishing .cancelGlobal call (some (result, message))
              (program.completion callback call result message), stack⟩⟩

/-- `try_finish_run` behind its exchange. No lock is held over these moves, so
other threads may act between any two of them. -/
def finishRun (chain : Chain γ) (run : Run) (stage : FinishStage) (call : CallId)
    (completion : Option (MiddlewareResult × String)) (after : Code γ)
    (stack : List (Frame γ)) : Move γ :=
  match stage with
  | .cancelGlobal =>
      ⟨none, chain.cancelTimer run.state.globalTimeoutTimer,
        ⟨.finishing .cancelMiddleware call completion after, stack⟩⟩
  | .cancelMiddleware =>
      ⟨none, chain.cancelTimer run.state.middlewareTimeoutTimer,
        ⟨.finishing .unregister call completion after, stack⟩⟩
  | .unregister =>
      ⟨some (.unregistered call completion), chain.unregisterRun call, ⟨.code after, stack⟩⟩

/-- `handle_error_run` up to the call of `complete_async_run`. -/
def handleErrorRun (chain : Chain γ) (call : CallId) (run : Run) (e : Exn)
    (stack : List (Frame γ)) : Move γ :=
  match run.errorHandler with
  | some handler =>
      ⟨some (.errorHandled call e), chain,
        ⟨.code (program.errorHandler handler call e), .errorHandled call e :: stack⟩⟩
  | none =>
      ⟨some (.responded call), chain.respond call (·.internalError e.message e.code),
        ⟨.completeRun call .Error e.message, stack⟩⟩

/-- `handle_timeout_run` up to the call of `complete_async_run`. -/
def handleTimeoutRun (chain : Chain γ) (call : CallId) (run : Run)
    (stack : List (Frame γ)) : Move γ :=
  match run.timeoutHandler with
  | some handler =>
      ⟨some (.timeoutHandled call), chain,
        ⟨.code (program.timeoutHandler handler call), .timeoutHandled call :: stack⟩⟩
  | none =>
      ⟨some (.responded call), chain.respond call (·.gatewayTimeout),
        ⟨.completeRun call .Timeout "Request timeout", stack⟩⟩

/-- The answer to a timeout in `execute_next_sync` and in the handler of a
per-middleware timer. -/
def answerTimeout (chain : Chain γ) (call : CallId) (run : Run)
    (stack : List (Frame γ)) : Move γ :=
  match run.timeoutHandler with
  | some handler =>
      ⟨some (.timeoutHandled call), chain,
        ⟨.code (program.timeoutHandler handler call), stack⟩⟩
  | none =>
      ⟨some (.responded call), chain.respond call (·.gatewayTimeout),
        ⟨.returned false, stack⟩⟩

/-- The test both drivers make first, under the state's lock. -/
def stepClosed (chain : Chain γ) (run : Run) : Bool :=
  run.state.cancelled || run.state.timedOut || chain.paused ||
    decide (run.pipeline.length ≤ run.state.currentIndex)

/-- More than the global timeout has gone by since the run was entered. -/
def overdue (chain : Chain γ) (run : Run) : Bool :=
  decide (0 < run.globalTimeout) &&
    decide (run.globalTimeout < chain.now - run.state.executionStart)

/-- `++current_index`. -/
def claimNext (chain : Chain γ) (call : CallId) : Chain γ :=
  chain.modifyState call fun state => { state with currentIndex := state.currentIndex + 1 }

/-- `timed_out = true`. -/
def markTimedOut (chain : Chain γ) (call : CallId) : Chain γ :=
  chain.modifyState call fun state => { state with timedOut := true }

/-- `execute_next_async_step` up to `mw->should_execute(ctx)`. -/
def executeNextAsyncStep (chain : Chain γ) (call : CallId) (run : Run)
    (stack : List (Frame γ)) : Option (Move γ) :=
  if stepClosed chain run then
    let result : MiddlewareResult :=
      if run.state.cancelled then .Stop else if run.state.timedOut then .Timeout else .Continue
    some ⟨none, chain, ⟨.completeRun call result "", stack⟩⟩
  else if overdue chain run && run.state.globalTimeoutTimer.isNone then
    some ⟨some (.timedOut call none), markTimedOut chain call, ⟨.handleTimeout call, stack⟩⟩
  else
    match run.pipeline[run.state.currentIndex]? with
    | none => none
    | some mw =>
        some ⟨some (.claimed call run.state.currentIndex), claimNext chain call,
          ⟨.code (program.shouldExecute mw call),
            .asyncSelect call run.state.currentIndex :: stack⟩⟩

/-- `execute_next_async_step` from a `should_execute` that answered `true` to
the call of the body; without an override the body is the default adapter. -/
def startAsyncBody (chain : Chain γ) (call : CallId) (position : Nat) (mw : MiddlewareId)
    (stack : List (Frame γ)) : Move γ :=
  let chain := chain.addClosure call position
  let chain := chain.setupMiddlewareTimeout call position (program.timeout mw)
  let handle : Handle := ⟨call, position⟩
  match program.asyncBody mw with
  | some body =>
      ⟨some (.started call position), chain,
        ⟨.code (body handle), .asyncBody call position :: stack⟩⟩
  | none =>
      ⟨some (.started call position), chain,
        ⟨.code (program.body mw handle), .adapterBody handle :: .asyncBody call position :: stack⟩⟩

/-- `execute_next_sync` up to `mw->should_execute(ctx)`. -/
def executeNextSync (chain : Chain γ) (call : CallId) (run : Run)
    (stack : List (Frame γ)) : Option (Move γ) :=
  if stepClosed chain run then
    some ⟨none, chain, ⟨.returned false, stack⟩⟩
  else if overdue chain run then
    some ⟨some (.timedOut call none), markTimedOut chain call, ⟨.answerTimeout call, stack⟩⟩
  else
    match run.pipeline[run.state.currentIndex]? with
    | none => none
    | some mw =>
        some ⟨some (.claimed call run.state.currentIndex), claimNext chain call,
          ⟨.code (program.shouldExecute mw call),
            .syncSelect call run.state.currentIndex :: stack⟩⟩

/-- `execute_next_sync` from a `should_execute` that answered `true` to the
call of the body. -/
def startSyncBody (chain : Chain γ) (call : CallId) (position : Nat) (mw : MiddlewareId)
    (stack : List (Frame γ)) : Move γ :=
  ⟨some (.started call position), chain.addClosure call position,
    ⟨.code (program.body mw ⟨call, position⟩), .syncBody call position :: stack⟩⟩

/-- `handle_middleware_result_run`. -/
def handleMiddlewareResultRun (call : CallId) (result : MiddlewareResult) (message : String) :
    Control γ :=
  match result with
  | .Continue => .asyncStep call
  | .Stop => .completeRun call .Stop ""
  | .Error => .completeRun call .Error message
  | .Timeout => .completeRun call .Timeout message

/-- The `async_callback` closure of a position. -/
def asyncCallback (chain : Chain γ) (handle : Handle) (run : Run) (result : MiddlewareResult)
    (message : String) (stack : List (Frame γ)) : Move γ :=
  let chain := chain.disarm handle.call
  let chain := (chain.countExecution run handle.position).countResult run handle.position result
  ⟨some (.signalled handle.call handle.position (.callback result)), chain,
    ⟨handleMiddlewareResultRun handle.call result message, stack⟩⟩

/-- The `next` closure of a position, in either driver. -/
def next (chain : Chain γ) (handle : Handle) (run : Run) (stack : List (Frame γ)) : Move γ :=
  ⟨some (.signalled handle.call handle.position .next), chain.disarm handle.call,
    ⟨match run.mode with
      | .sync => .syncStep handle.call
      | .async => .asyncStep handle.call, stack⟩⟩

/-- `execute` up to its `try`. -/
def execute (chain : Chain γ) (ctx : γ) (res : Response) (stack : List (Frame γ)) : Move γ :=
  let call := chain.calls.length
  let entered := chain.enter .sync ctx res none
  if chain.settings.mws.isEmpty then
    ⟨some (.passed call none), entered, ⟨.returned false, stack⟩⟩
  else
    ⟨some (.registered call .sync chain.settings.mws.length), entered.registerRun call,
      ⟨.syncStep call, .executeTry call :: stack⟩⟩

/-- `execute_async` up to its `try`. -/
def executeAsync (chain : Chain γ) (ctx : γ) (res : Response) (callback : Option CallbackId)
    (stack : List (Frame γ)) : Move γ :=
  let call := chain.calls.length
  let entered := chain.enter .async ctx res callback
  if chain.settings.mws.isEmpty then
    match callback with
    | none => ⟨some (.passed call none), entered, ⟨.returned false, stack⟩⟩
    | some callback =>
        ⟨some (.passed call (some (.Continue, ""))), entered,
          ⟨.code (program.completion callback call .Continue ""), stack⟩⟩
  else
    ⟨some (.registered call .async chain.settings.mws.length),
      (entered.registerRun call).setupGlobalTimeout call,
      ⟨.asyncStep call, .executeAsyncTry call :: stack⟩⟩

/-- A call into the chain. A handle can be called once its closures exist, and
only an asynchronous run gives out a `callback`. -/
def invoke (chain : Chain γ) (stack : List (Frame γ)) : Operation γ → Option (Move γ)
  | .next handle =>
      match chain.run? handle.call with
      | none => none
      | some run =>
          if (run.closure? handle.position).isSome then some (next chain handle run stack)
          else none
  | .callback handle result message =>
      match chain.run? handle.call with
      | none => none
      | some run =>
          if (run.closure? handle.position).isSome && decide (run.mode = .async) then
            some ⟨none, chain, ⟨.asyncCallback handle result message, stack⟩⟩
          else none
  | .execute ctx res => some (execute chain ctx res stack)
  | .executeAsync ctx res callback => some (executeAsync program chain ctx res callback stack)
  | .cancel => some ⟨none, chain, ⟨.cancelling chain.activeRuns, stack⟩⟩
  | .pause => some ⟨some (.paused true), { chain with paused := true }, ⟨.returned false, stack⟩⟩
  | .resume => some ⟨some (.paused false), { chain with paused := false }, ⟨.returned false, stack⟩⟩
  | .configure settings =>
      some ⟨none, { chain with settings := settings }, ⟨.returned false, stack⟩⟩

/-- One move of foreign code. -/
def runCode (chain : Chain γ) (stack : List (Frame γ)) : Code γ → Option (Move γ)
  | .ret verdict => some ⟨none, chain, ⟨.returned verdict, stack⟩⟩
  | .throw e => some ⟨none, chain, ⟨.thrown e, stack⟩⟩
  | .access call write rest =>
      match chain.calls[call]? with
      | none => none
      | some entry =>
          let written := write entry.ctx entry.res
          some ⟨none, chain.setMessage call written.1 written.2,
            ⟨.code (rest entry.ctx entry.res), stack⟩⟩
  | .invoke operation rest => invoke program chain (.await rest :: stack) operation

/-- The handler of a timer whose wait succeeded, after `wstate.lock()`. -/
def timerHandler (chain : Chain γ) (timer : TimerId) (stack : List (Frame γ)) :
    Option (Move γ) :=
  match chain.timers[timer]? with
  | none => none
  | some entry =>
      match chain.run? entry.call with
      | none => none
      | some run =>
          if run.state.timedOut then
            some ⟨some (.overtaken timer), chain, ⟨.returned false, stack⟩⟩
          else
            let marked := markTimedOut chain entry.call
            match entry.position with
            | none =>
                some ⟨some (.timedOut entry.call (some timer)), marked,
                  ⟨.handleTimeout entry.call, stack⟩⟩
            | some position =>
                some ⟨some (.timedOut entry.call (some timer)), marked.countTimeout run position,
                  ⟨.answerTimeout entry.call, stack⟩⟩

/-- Leave `execute` or the `catch (...)` of `execute_async`: `try_finish_run`,
then go on with `rest`. -/
def leaveRun (chain : Chain γ) (call : CallId) (rest : Code γ) (stack : List (Frame γ)) :
    Move γ :=
  match chain.tryFinishRun call with
  | (false, chain) => ⟨none, chain, ⟨.code rest, stack⟩⟩
  | (true, chain) =>
      ⟨some (.finished call none), chain, ⟨.finishing .cancelGlobal call none rest, stack⟩⟩

/-- The `catch (...)` of `execute_async`. -/
def catchUnknown (chain : Chain γ) (call : CallId) (e : Exn) (stack : List (Frame γ)) :
    Move γ :=
  match chain.callback? call with
  | none => leaveRun chain call (.throw e) stack
  | some callback =>
      match chain.tryFinishRun call with
      | (false, chain) => ⟨none, chain, ⟨.thrown e, stack⟩⟩
      | (true, chain) =>
          ⟨some (.finished call (some (.Error, "unknown error"))), chain,
            ⟨.finishing .cancelGlobal call (some (.Error, "unknown error"))
              (program.completion callback call .Error "unknown error"), .rethrow e :: stack⟩⟩

/-- A normal return to an activation. -/
def resume (chain : Chain γ) (verdict : Bool) (stack : List (Frame γ)) :
    Frame γ → Option (Move γ)
  | .await rest => some ⟨none, chain, ⟨.code (rest none), stack⟩⟩
  | .asyncSelect call position =>
      if verdict then
        match chain.run? call with
        | none => none
        | some run =>
            match run.pipeline[position]? with
            | none => none
            | some mw => some (startAsyncBody program chain call position mw stack)
      else some ⟨some (.skipped call position), chain, ⟨.asyncStep call, stack⟩⟩
  | .asyncBody _ _ => some ⟨none, chain, ⟨.returned false, stack⟩⟩
  | .adapterBody handle =>
      some ⟨none, chain, ⟨.asyncCallback handle .Continue "", .adapterCallback handle :: stack⟩⟩
  | .adapterCallback _ => some ⟨none, chain, ⟨.returned false, stack⟩⟩
  | .errorHandled call e => some ⟨none, chain, ⟨.completeRun call .Error e.message, stack⟩⟩
  | .timeoutHandled call =>
      some ⟨none, chain, ⟨.completeRun call .Timeout "Request timeout", stack⟩⟩
  | .executeAsyncTry _ => some ⟨none, chain, ⟨.returned false, stack⟩⟩
  | .rethrow e => some ⟨none, chain, ⟨.thrown e, stack⟩⟩
  | .syncSelect call position =>
      if verdict then
        match chain.run? call with
        | none => none
        | some run =>
            match run.pipeline[position]? with
            | none => none
            | some mw => some (startSyncBody program chain call position mw stack)
      else some ⟨some (.skipped call position), chain, ⟨.syncStep call, stack⟩⟩
  | .syncBody call position =>
      match chain.run? call with
      | none => none
      | some run => some ⟨none, chain.countExecution run position, ⟨.returned false, stack⟩⟩
  | .executeTry call => some (leaveRun chain call (.ret false) stack)
  | .timerDone timer =>
      match chain.timers[timer]? with
      | some { status := .handling live, .. } =>
          some ⟨none, chain.setTimerStatus timer (.returned live), ⟨.returned false, stack⟩⟩
      | _ => none

/-- An exception reaching an activation. -/
def unwind (chain : Chain γ) (e : Exn) (stack : List (Frame γ)) : Frame γ → Option (Move γ)
  | .await rest => some ⟨none, chain, ⟨.code (rest (some e)), stack⟩⟩
  | .asyncSelect call position =>
      some ⟨some (.refused call position), chain, ⟨.thrown e, stack⟩⟩
  | .asyncBody call position =>
      match chain.run? call, e.what? with
      | some run, some _ =>
          some ⟨none, chain.countError run position, ⟨.handleError call e, stack⟩⟩
      | some _, none => some ⟨none, chain, ⟨.thrown e, stack⟩⟩
      | none, _ => none
  | .adapterBody handle =>
      match e.what? with
      | some what => some ⟨none, chain, ⟨.asyncCallback handle .Error what, stack⟩⟩
      | none => some ⟨none, chain, ⟨.thrown e, stack⟩⟩
  | .adapterCallback handle =>
      match e.what? with
      | some what => some ⟨none, chain, ⟨.asyncCallback handle .Error what, stack⟩⟩
      | none => some ⟨none, chain, ⟨.thrown e, stack⟩⟩
  | .errorHandled _ _ => some ⟨none, chain, ⟨.thrown e, stack⟩⟩
  | .timeoutHandled _ => some ⟨none, chain, ⟨.thrown e, stack⟩⟩
  | .executeAsyncTry call =>
      match e.what? with
      | some _ => some ⟨none, chain, ⟨.handleError call e, stack⟩⟩
      | none => some (catchUnknown program chain call e stack)
  | .rethrow _ => some ⟨none, chain, ⟨.thrown e, stack⟩⟩
  | .syncSelect call position =>
      some ⟨some (.refused call position), chain, ⟨.thrown e, stack⟩⟩
  | .syncBody call position =>
      match chain.run? call, e.what? with
      | some run, some what =>
          let counted := chain.countError run position
          match run.errorHandler with
          | some handler =>
              some ⟨some (.errorHandled call e), counted,
                ⟨.code (program.errorHandler handler call e), stack⟩⟩
          | none =>
              some ⟨some (.responded call), counted.respond call (·.middlewareError what),
                ⟨.returned false, stack⟩⟩
      | some _, none => some ⟨none, chain, ⟨.thrown e, stack⟩⟩
      | none, _ => none
  | .executeTry call => some (leaveRun chain call (.throw e) stack)
  | .timerDone timer =>
      match chain.timers[timer]? with
      | some { status := .handling live, .. } =>
          some ⟨none, chain.setTimerStatus timer (.threw live), ⟨.thrown e, stack⟩⟩
      | _ => none

/-- Apply a step that needs the run of a call. -/
def withRun (chain : Chain γ) (call : CallId) (step : Run → Move γ) : Option (Move γ) :=
  (chain.run? call).map step

/-- One move of a thread; none when it has ended. -/
def advance (chain : Chain γ) (thread : Thread γ) : Option (Move γ) :=
  match thread.control, thread.stack with
  | .code code, stack => runCode program chain stack code
  | .asyncCallback handle result message, stack =>
      withRun chain handle.call fun run => asyncCallback chain handle run result message stack
  | .asyncStep call, stack =>
      (chain.run? call).bind fun run => executeNextAsyncStep program chain call run stack
  | .syncStep call, stack =>
      (chain.run? call).bind fun run => executeNextSync program chain call run stack
  | .handleError call e, stack =>
      withRun chain call fun run => handleErrorRun program chain call run e stack
  | .handleTimeout call, stack =>
      withRun chain call fun run => handleTimeoutRun program chain call run stack
  | .answerTimeout call, stack =>
      withRun chain call fun run => answerTimeout program chain call run stack
  | .completeRun call result message, stack =>
      some (completeAsyncRun program chain call result message stack)
  | .finishing stage call completion after, stack =>
      withRun chain call fun run => finishRun chain run stage call completion after stack
  | .timerHandler timer, stack => timerHandler chain timer stack
  | .cancelling [], stack => some ⟨none, chain, ⟨.returned false, stack⟩⟩
  | .cancelling (call :: calls), stack =>
      some ⟨some (.cancelled call), chain.cancelRun call, ⟨.cancelling calls, stack⟩⟩
  | .returned verdict, frame :: stack => resume program chain verdict stack frame
  | .thrown e, frame :: stack => unwind program chain e stack frame
  | .returned _, [] => none
  | .thrown _, [] => none

/-- The chain with every thread that is inside it or may still call it. -/
structure World (γ : Type) where
  chain : Chain γ
  threads : List (Thread γ)

/-- What happens next in a world. -/
inductive Choice (γ : Type) where
  /-- A thread makes its next move. -/
  | thread (index : Nat)
  /-- Foreign code begins on a thread of its own: a request, a posted
  continuation of a middleware, a call of `cancel` or `pause`. -/
  | spawn (code : Code γ)
  | tick (duration : Nat)
  /-- The wait of a due timer succeeds. -/
  | expire (timer : TimerId)
  /-- The event loop runs the handler of a succeeded wait. `alive` is the
  outcome of `wstate.lock()`, which can only fail when the chain no longer
  holds the run. -/
  | dispatch (timer : TimerId) (alive : Bool)

/-- Is the run of this call still unfinished? -/
def Chain.unfinished (chain : Chain γ) (call : CallId) : Bool :=
  match chain.run? call with
  | some run => !run.state.finished
  | none => false

/-- One move of a world. -/
def step (world : World γ) : Choice γ → Option (Option Event × World γ)
  | .thread index =>
      match world.threads[index]? with
      | none => none
      | some thread =>
          match advance program world.chain thread with
          | none => none
          | some move => some (move.event,
              { chain := move.chain, threads := world.threads.set index move.thread })
  | .spawn code => some (none, { world with threads := world.threads ++ [⟨.code code, []⟩] })
  | .tick duration =>
      some (none, { world with chain := { world.chain with now := world.chain.now + duration } })
  | .expire timer =>
      match world.chain.timers[timer]? with
      | some { call := call, expiry := expiry, status := .armed, .. } =>
          if expiry ≤ world.chain.now then
            some (none, { world with
              chain := world.chain.setTimerStatus timer
                (.expired (world.chain.unfinished call)) })
          else none
      | _ => none
  | .dispatch timer alive =>
      match world.chain.timers[timer]? with
      | some { call := call, status := .expired live, .. } =>
          if alive then
            some (none,
              { chain := world.chain.setTimerStatus timer (.handling live)
                threads := world.threads ++ [⟨.timerHandler timer, [.timerDone timer]⟩] })
          else if call ∈ world.chain.activeRuns then none
          else some (none, { world with
            chain := world.chain.setTimerStatus timer (.returned live) })
      | _ => none

/-- The chain in use: it begins fresh and without a thread. -/
def system : Library.System (World γ) (Choice γ) Event where
  Initial world := ∃ settings stats now, world = ⟨.fresh settings stats now, []⟩
  step := step program

/-- These middlewares with an event loop and nothing else set. -/
def Settings.plain (mws : List MiddlewareId) : Settings where
  mws := mws
  errorHandler := none
  timeoutHandler := none
  globalTimeout := 0
  statisticsEnabled := false
  ioContext := true

/-- Where a list of choices leads from a fresh chain with these settings. -/
def replay (guard : Library.System.Guard (World γ) Event)
    [∀ events world event, Decidable (guard events world event)] (settings : Settings)
    (choices : List (Choice γ)) : Option (List Event × World γ) :=
  (system program).follow guard [] ⟨.fresh settings (fun _ => ⟨0, 0, 0, 0⟩) 0, []⟩ choices

/-- Show something of the end of a replay from the run to it. -/
theorem replay_reaches {program : Program γ} {guard : Library.System.Guard (World γ) Event}
    [∀ events world event, Decidable (guard events world event)] {settings : Settings}
    {choices : List (Choice γ)} {reached : List Event × World γ}
    {property : List Event × World γ → Prop}
    (ends : replay program guard settings choices = some reached)
    (holds : (system program).Runs guard reached.1 reached.2 → property reached) :
    ∃ reached, replay program guard settings choices = some reached ∧ property reached := by
  have start : (system program).Runs guard [] ⟨.fresh settings (fun _ => ⟨0, 0, 0, 0⟩) 0, []⟩ :=
    .initial ⟨_, _, _, rfl⟩
  exact start.reaches ends holds

/-- One thread begins with this code and makes this many moves. -/
def alone (code : Code γ) (moves : Nat) : List (Choice γ) :=
  .spawn code :: List.replicate moves (.thread 0)

/-- A caller of `execute_async` that passes a completion callback. -/
def Code.request (ctx : γ) : Code γ :=
  .invoke (.executeAsync ctx ⟨200, [], ""⟩ (some 0)) (.orThrow (.ret true))

end Foxhttp.Middleware
