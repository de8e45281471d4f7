import Foxhttp.Middleware.Program

/-!
# The state of a `MiddlewareChain`

The chain's own members, the runs it started with their shared
`PipelineExecutionState`, the timers armed on its `io_context`, and the small
operations on them which several functions of the chain share. Each of these
operations is one indivisible update here: one atomic exchange, or what is done
under one lock, with the store of `cancelled` just before the lock in `cancel()`
and the `async_wait` just behind it in `setup_middleware_timeout`.
-/

namespace Foxhttp.Middleware

/-- Which of `execute` and `execute_async` made a call. -/
inductive Mode where
  | sync | async
  deriving DecidableEq, Repr

/-- `MiddlewareStats`. -/
structure MiddlewareStats where
  executionCount : Nat
  totalExecutionTime : Nat
  errorCount : Nat
  timeoutCount : Nat
  deriving DecidableEq, Repr

/-- `detail::PipelineExecutionState`. -/
structure PipelineExecutionState where
  currentIndex : Nat
  timedOut : Bool
  cancelled : Bool
  finished : Bool
  executionStart : Nat
  globalTimeoutTimer : Option TimerId
  middlewareTimeoutTimer : Option TimerId
  deriving DecidableEq, Repr

/-- The state of a run that was just entered. -/
def PipelineExecutionState.entered (now : Nat) : PipelineExecutionState where
  currentIndex := 0
  timedOut := false
  cancelled := false
  finished := false
  executionStart := now
  globalTimeoutTimer := none
  middlewareTimeoutTimer := none

/-- A run: the snapshot its continuations capture and the state they share. -/
structure Run where
  mode : Mode
  pipeline : List MiddlewareId
  errorHandler : Option HandlerId
  timeoutHandler : Option HandlerId
  globalTimeout : Nat
  statisticsEnabled : Bool
  /-- The positions whose `next` and `async_callback` closures exist, each with
  the `execution_start` it captured. -/
  closures : List (Nat × Nat)
  state : PipelineExecutionState
  deriving DecidableEq, Repr

/-- What the closures of a position captured: its middleware and start time. -/
def Run.closure? (run : Run) (position : Nat) : Option (MiddlewareId × Nat) :=
  match run.pipeline[position]?, run.closures.lookup position with
  | some mw, some start => some (mw, start)
  | _, _ => none

/-- A call of `execute` or `execute_async`; a call on an empty chain has no run. -/
structure Call (γ : Type) where
  ctx : γ
  res : Response
  callback : Option CallbackId
  run : Option Run

/-- The life of one `async_wait`. `live` records whether the run was unfinished
when the timer expired. -/
inductive TimerStatus where
  | armed
  | cancelled
  /-- The wait succeeded and the handler is queued: `cancel()` comes too late. -/
  | expired (live : Bool)
  | handling (live : Bool)
  | returned (live : Bool)
  | threw (live : Bool)
  deriving DecidableEq, Repr

/-- A `steady_timer` with its wait; without a position it is a global timer. -/
structure Timer where
  call : CallId
  position : Option Nat
  expiry : Nat
  status : TimerStatus
  deriving DecidableEq, Repr

/-- `steady_timer::cancel()` aborts a wait that has not succeeded yet. -/
def Timer.cancel (timer : Timer) : Timer :=
  if timer.status = .armed then { timer with status := .cancelled } else timer

/-- A `MiddlewareChain` with the calls made on it, its timers and the clock. -/
structure Chain (γ : Type) where
  settings : Settings
  paused : Bool
  activeRuns : List CallId
  calls : List (Call γ)
  timers : List Timer
  stats : MiddlewareId → MiddlewareStats
  now : Nat

namespace Chain

variable {γ : Type}

/-- A chain before its first call. -/
def fresh (settings : Settings) (stats : MiddlewareId → MiddlewareStats) (now : Nat) :
    Chain γ where
  settings := settings
  paused := false
  activeRuns := []
  calls := []
  timers := []
  stats := stats
  now := now

/-- The run of a call, if the call has one. -/
def run? (chain : Chain γ) (call : CallId) : Option Run :=
  chain.calls[call]?.bind (·.run)

/-- The completion callback of a call, if it was given one. -/
def callback? (chain : Chain γ) (call : CallId) : Option CallbackId :=
  chain.calls[call]?.bind (·.callback)

def modifyRun (chain : Chain γ) (call : CallId) (change : Run → Run) : Chain γ :=
  { chain with calls := chain.calls.modify call fun entry =>
      { entry with run := entry.run.map change } }

def modifyState (chain : Chain γ) (call : CallId)
    (change : PipelineExecutionState → PipelineExecutionState) : Chain γ :=
  chain.modifyRun call fun run => { run with state := change run.state }

/-- Replace the context and the response of a call. -/
def setMessage (chain : Chain γ) (call : CallId) (ctx : γ) (res : Response) : Chain γ :=
  { chain with calls := chain.calls.modify call fun entry =>
      { entry with ctx := ctx, res := res } }

/-- The chain itself writes the response of a call. -/
def respond (chain : Chain γ) (call : CallId) (answer : Response → Response) : Chain γ :=
  { chain with calls := chain.calls.modify call fun entry =>
      { entry with res := answer entry.res } }

def modifyStats (chain : Chain γ) (mw : MiddlewareId)
    (change : MiddlewareStats → MiddlewareStats) : Chain γ :=
  { chain with stats := fun other =>
      if other = mw then change (chain.stats mw) else chain.stats other }

def cancelTimer (chain : Chain γ) : Option TimerId → Chain γ
  | none => chain
  | some timer => { chain with timers := chain.timers.modify timer Timer.cancel }

def setTimerStatus (chain : Chain γ) (timer : TimerId) (status : TimerStatus) : Chain γ :=
  { chain with timers := chain.timers.modify timer fun entry => { entry with status := status } }

/-- Construct a timer and start its wait. -/
def addTimer (chain : Chain γ) (call : CallId) (position : Option Nat) (timeout : Nat) :
    Chain γ :=
  { chain with timers := chain.timers ++
      [{ call := call, position := position, expiry := chain.now + timeout, status := .armed }] }

/-- `register_run`. -/
def registerRun (chain : Chain γ) (call : CallId) : Chain γ :=
  { chain with activeRuns := chain.activeRuns ++ [call] }

/-- `unregister_run`: erase-remove by the state's address. -/
def unregisterRun (chain : Chain γ) (call : CallId) : Chain γ :=
  { chain with activeRuns := chain.activeRuns.filter (· != call) }

/-- `is_running`. -/
def isRunning (chain : Chain γ) : Bool :=
  !chain.activeRuns.isEmpty

/-- The exchange which `try_finish_run` begins with. The flag says whether this
call won it. -/
def tryFinishRun (chain : Chain γ) (call : CallId) : Bool × Chain γ :=
  match chain.run? call with
  | none => (false, chain)
  | some run =>
      if run.state.finished then (false, chain)
      else (true, chain.modifyState call fun state => { state with finished := true })

/-- What `next` and `async_callback` do first, under the state's lock: cancel
and drop the per-middleware timer, whichever middleware armed it. -/
def disarm (chain : Chain γ) (call : CallId) : Chain γ :=
  match chain.run? call with
  | none => chain
  | some run =>
      (chain.cancelTimer run.state.middlewareTimeoutTimer).modifyState call
        fun state => { state with middlewareTimeoutTimer := none }

/-- `setup_middleware_timeout`, with the test its caller makes. -/
def setupMiddlewareTimeout (chain : Chain γ) (call : CallId) (position timeout : Nat) :
    Chain γ :=
  if 0 < timeout && chain.settings.ioContext then
    let timer := chain.timers.length
    ((chain.disarm call).addTimer call (some position) timeout).modifyState call
      fun state => { state with middlewareTimeoutTimer := some timer }
  else chain

/-- One iteration of the loop of `cancel()`. -/
def cancelRun (chain : Chain γ) (call : CallId) : Chain γ :=
  match chain.run? call with
  | none => chain
  | some run =>
      let chain := chain.modifyState call fun state => { state with cancelled := true }
      (chain.cancelTimer run.state.globalTimeoutTimer).cancelTimer
        run.state.middlewareTimeoutTimer

/-- The closures of a position now exist and have captured the start time. -/
def addClosure (chain : Chain γ) (call : CallId) (position : Nat) : Chain γ :=
  chain.modifyRun call fun run =>
    { run with closures := (position, chain.now) :: run.closures }

/-- The statistics a completed body leaves: `execution_count` and
`total_execution_time`. -/
def countExecution (chain : Chain γ) (run : Run) (position : Nat) : Chain γ :=
  match run.statisticsEnabled, run.closure? position with
  | true, some (mw, start) => chain.modifyStats mw fun stats =>
      { stats with
        executionCount := stats.executionCount + 1
        totalExecutionTime := stats.totalExecutionTime + (chain.now - start) }
  | _, _ => chain

/-- `error_count++` of the middleware at a position. -/
def countError (chain : Chain γ) (run : Run) (position : Nat) : Chain γ :=
  match run.statisticsEnabled, run.pipeline[position]? with
  | true, some mw => chain.modifyStats mw fun stats =>
      { stats with errorCount := stats.errorCount + 1 }
  | _, _ => chain

/-- `timeout_count++` of the middleware at a position. -/
def countTimeout (chain : Chain γ) (run : Run) (position : Nat) : Chain γ :=
  match run.statisticsEnabled, run.pipeline[position]? with
  | true, some mw => chain.modifyStats mw fun stats =>
      { stats with timeoutCount := stats.timeoutCount + 1 }
  | _, _ => chain

/-- The statistics `async_callback` adds for a result. -/
def countResult (chain : Chain γ) (run : Run) (position : Nat) :
    MiddlewareResult → Chain γ
  | .Error => chain.countError run position
  | .Timeout => chain.countTimeout run position
  | _ => chain

/-- Enter a call: its entry, and its run unless the chain is empty. -/
def enter (chain : Chain γ) (mode : Mode) (ctx : γ) (res : Response)
    (callback : Option CallbackId) : Chain γ :=
  let run : Run :=
    { mode := mode
      pipeline := chain.settings.mws
      errorHandler := chain.settings.errorHandler
      timeoutHandler := chain.settings.timeoutHandler
      globalTimeout := chain.settings.globalTimeout
      statisticsEnabled := chain.settings.statisticsEnabled
      closures := []
      state := .entered chain.now }
  { chain with calls := chain.calls ++
      [{ ctx := ctx, res := res, callback := callback,
         run := if chain.settings.mws.isEmpty then none else some run }] }

/-- The global timer of `execute_async`. -/
def setupGlobalTimeout (chain : Chain γ) (call : CallId) : Chain γ :=
  if 0 < chain.settings.globalTimeout && chain.settings.ioContext then
    let timer := chain.timers.length
    (chain.addTimer call none chain.settings.globalTimeout).modifyState call
      fun state => { state with globalTimeoutTimer := some timer }
  else chain

end Chain

end Foxhttp.Middleware
