import Foxhttp.Middleware.Signals

/-!
# Synchronous middlewares under both drivers

A middleware that overrides only the three-argument `operator()` runs up to its
call of `next()`, if it makes one, and on from there. Under `execute` a
middleware that returns without `next()` ends the pipeline; under
`execute_async` the default adapter then reports `Continue` for it, and the
driver goes on with the next position. `syncServe` and `asyncServe` say what
each driver makes of a pipeline, and the machine walks exactly there.
-/

namespace Foxhttp.Middleware

open Foxhttp.Library

variable {γ : Type}

/-- A middleware without an asynchronous override: when it takes a request, and
what `operator()` makes of the context and the response up to `next()`, with
the rest of it when it calls `next()`. -/
structure SyncMiddleware (γ : Type) where
  shouldExecute : γ → Bool
  body : γ → Response → (γ × Response) × Option (γ → Response → γ × Response)

namespace SyncMiddleware

/-- `should_execute(ctx)` as code. -/
def selectCode (mw : SyncMiddleware γ) (call : CallId) : Code γ :=
  .access call Prod.mk fun ctx _ => .ret (mw.shouldExecute ctx)

/-- What follows `next()`, as code. -/
def restCode (call : CallId) (rest : γ → Response → γ × Response) : Code γ :=
  .access call rest fun _ _ => .ret true

/-- `operator()(ctx, res, next)` as code. -/
def bodyCode (mw : SyncMiddleware γ) (handle : Handle) : Code γ :=
  .access handle.call (fun ctx res => (mw.body ctx res).1) fun ctx res =>
    match (mw.body ctx res).2 with
    | none => .ret true
    | some rest => .invoke (.next handle) (.orThrow (restCode handle.call rest))

end SyncMiddleware

/-- These middlewares without timeouts, with the handlers of `base` and
completion callbacks which leave the context and the response alone. -/
def Program.synchronous (base : Program γ) (mws : MiddlewareId → SyncMiddleware γ) : Program γ :=
  { base with
    timeout := fun _ => 0
    shouldExecute := fun mw call => (mws mw).selectCode call
    body := fun mw handle => (mws mw).bodyCode handle
    asyncBody := fun _ => none
    completion := fun _ _ _ _ => .ret true }

/-- The positions a driver starts, and what it makes of context and response. -/
structure Served (γ : Type) where
  started : List Nat
  ctx : γ
  res : Response

/-- One more position started, before what was served inside it. -/
def Served.after (served : Served γ) (index : Nat) : Served γ :=
  { served with started := index :: served.started }

/-- The rest of a middleware's body, over what was served inside it. -/
def Served.then (served : Served γ) (rest : γ → Response → γ × Response) : Served γ :=
  { served with
    ctx := (rest served.ctx served.res).1
    res := (rest served.ctx served.res).2 }

/-- What `execute` makes of a pipeline from a position on. -/
def syncServe : Nat → List (SyncMiddleware γ) → γ → Response → Served γ
  | _, [], ctx, res => ⟨[], ctx, res⟩
  | index, mw :: later, ctx, res =>
      if mw.shouldExecute ctx then
        match mw.body ctx res with
        | (written, none) => ⟨[index], written.1, written.2⟩
        | (written, some rest) =>
            ((syncServe (index + 1) later written.1 written.2).then rest).after index
      else syncServe (index + 1) later ctx res

/-- What `execute_async` makes of a pipeline from a position on. -/
def asyncServe : Nat → List (SyncMiddleware γ) → γ → Response → Served γ
  | _, [], ctx, res => ⟨[], ctx, res⟩
  | index, mw :: later, ctx, res =>
      if mw.shouldExecute ctx then
        match mw.body ctx res with
        | (written, none) => (asyncServe (index + 1) later written.1 written.2).after index
        | (written, some rest) =>
            ((asyncServe (index + 1) later written.1 written.2).then rest).after index
      else asyncServe (index + 1) later ctx res

/-- The first middleware to return without `next()` is followed only by
middlewares that decline the context it leaves. -/
def stopsLast : List (SyncMiddleware γ) → γ → Response → Bool
  | [], _, _ => true
  | mw :: later, ctx, res =>
      if mw.shouldExecute ctx then
        match mw.body ctx res with
        | (written, none) => later.all fun other => !other.shouldExecute written.1
        | (written, some _) => stopsLast later written.1 written.2
      else stopsLast later ctx res

/-! ## The two drivers compared -/

/-- A pipeline whose middlewares all decline is served by nothing. -/
theorem asyncServe_of_declined {mws : List (SyncMiddleware γ)} {ctx : γ}
    (declined : ∀ mw ∈ mws, mw.shouldExecute ctx = false) (index : Nat) (res : Response) :
    asyncServe index mws ctx res = ⟨[], ctx, res⟩ := by
  induction mws generalizing index with
  | nil => rfl
  | cons mw later inductionHypothesis =>
      have this := declined mw List.mem_cons_self
      simp only [asyncServe, this, Bool.false_eq_true, if_false]
      exact inductionHypothesis (fun other member =>
        declined other (List.mem_cons_of_mem _ member)) (index + 1)

/-- A pipeline that starts nothing has declined. -/
theorem declined_of_asyncServe {mws : List (SyncMiddleware γ)} {ctx : γ} {index : Nat}
    {res : Response} (nothing : (asyncServe index mws ctx res).started = []) :
    ∀ mw ∈ mws, mw.shouldExecute ctx = false := by
  induction mws generalizing index with
  | nil => simp
  | cons mw later inductionHypothesis =>
      intro other member
      simp only [asyncServe] at nothing
      split at nothing
      · split at nothing <;> cases nothing
      · rename_i declined
        rcases List.mem_cons.mp member with rfl | inside
        · simpa using declined
        · exact inductionHypothesis nothing other inside

/-- When the first middleware to stop is the last to run, the drivers agree. -/
theorem asyncServe_of_stopsLast {mws : List (SyncMiddleware γ)} {ctx : γ} {res : Response}
    (last : stopsLast mws ctx res = true) (index : Nat) :
    asyncServe index mws ctx res = syncServe index mws ctx res := by
  induction mws generalizing index ctx res with
  | nil => rfl
  | cons mw later inductionHypothesis =>
      by_cases selected : mw.shouldExecute ctx = true
      · rcases body : mw.body ctx res with ⟨written, rest⟩
        cases rest with
        | none =>
            simp only [stopsLast, selected, if_true, body] at last
            simp only [asyncServe, syncServe, selected, if_true, body]
            rw [asyncServe_of_declined (by simpa using last)]
            rfl
        | some rest =>
            simp only [stopsLast, selected, if_true, body] at last
            simp only [asyncServe, syncServe, selected, if_true, body, inductionHypothesis last]
      · simp only [stopsLast, if_neg selected] at last
        simp only [asyncServe, syncServe, if_neg selected]
        exact inductionHypothesis last (index + 1)

/-- Drivers which start the same positions stop at the last of them. -/
theorem stopsLast_of_started {mws : List (SyncMiddleware γ)} {ctx : γ} {res : Response}
    {index : Nat}
    (same : (asyncServe index mws ctx res).started = (syncServe index mws ctx res).started) :
    stopsLast mws ctx res = true := by
  induction mws generalizing index ctx res with
  | nil => rfl
  | cons mw later inductionHypothesis =>
      by_cases selected : mw.shouldExecute ctx = true
      · rcases body : mw.body ctx res with ⟨written, rest⟩
        cases rest with
        | none =>
            simp only [asyncServe, syncServe, selected, if_true, body] at same
            simp only [stopsLast, selected, if_true, body]
            have declined := declined_of_asyncServe (List.cons.inj same).2
            simpa using declined
        | some rest =>
            simp only [asyncServe, syncServe, selected, if_true, body] at same
            simp only [stopsLast, selected, if_true, body]
            exact inductionHypothesis (List.cons.inj same).2
      · simp only [asyncServe, syncServe, if_neg selected] at same
        simp only [stopsLast, if_neg selected]
        exact inductionHypothesis same

/-! ## A call on its own -/

/-- One move of a chain with a single thread. -/
def solo (program : Program γ) (state : Chain γ × Thread γ) :
    Option (Option Event × (Chain γ × Thread γ)) :=
  (advance program state.1 state.2).map fun move => (move.event, move.chain, move.thread)

theorem solo_of_advance {program : Program γ} {chain after : Chain γ} {thread middle : Thread γ}
    {event : Option Event} (advanced : advance program chain thread = some ⟨event, after, middle⟩) :
    solo program (chain, thread) = some (event, (after, middle)) := by
  simp only [solo, advanced, Option.map_some]

/-- What a single thread does, the machine can do. -/
theorem solo_runs {program : Program γ} {start last : Chain γ × Thread γ} {events : List Event}
    (walk : Walk (solo program) start events last) {world : World γ} {index : Nat}
    {before : List Event} (run : (system program).Runs System.anyMove before world)
    (chain : world.chain = start.1) (thread : world.threads[index]? = some start.2) :
    (system program).Runs System.anyMove (before ++ events)
      ⟨last.1, world.threads.set index last.2⟩ := by
  induction walk generalizing world before with
  | done =>
      obtain ⟨within, same⟩ := List.getElem?_eq_some_iff.mp thread
      rw [List.append_nil, ← chain, ← same, List.set_getElem_self]
      exact run
  | @move start event middle events last moved rest inductionHypothesis =>
      obtain ⟨move, advanced, same⟩ := Option.map_eq_some_iff.mp moved
      cases same
      have transition : (system program).step world (.thread index) =
          some (move.event, ⟨move.chain, world.threads.set index move.thread⟩) := by
        simp only [system, step, thread, chain, advanced]
      have next := inductionHypothesis (.move run transition trivial) rfl
        (List.getElem?_set_self (List.getElem?_eq_some_iff.mp thread).1)
      simpa [List.append_assoc] using next

/-- The closures of a position exist once it was started. -/
theorem Run.closure?_isSome (run : Run) (position : Nat) :
    (run.closure? position).isSome =
      (run.pipeline[position]?.isSome && (run.closures.lookup position).isSome) := by
  unfold Run.closure?
  cases run.pipeline[position]? <;> cases run.closures.lookup position <;> rfl

/-- A call is in the middle of serving its pipeline: how far it has claimed it,
what it has made of context and response, and whose `next` can be called. -/
structure Serving (chain : Chain γ) (call : CallId) (mode : Mode) (pipeline : List MiddlewareId)
    (held : List Nat) (index : Nat) (ctx : γ) (res : Response) : Prop where
  unpaused : chain.paused = false
  entry : ∃ entry run, chain.calls[call]? = some entry ∧ entry.run = some run ∧
    entry.ctx = ctx ∧ entry.res = res ∧ run.mode = mode ∧ run.pipeline = pipeline ∧
    run.state.currentIndex = index ∧ run.state.cancelled = false ∧ run.state.timedOut = false ∧
    run.globalTimeout = 0 ∧ ∀ position ∈ held, (run.closure? position).isSome = true

namespace Serving

variable {chain after : Chain γ} {call : CallId} {mode : Mode} {pipeline : List MiddlewareId}
  {held : List Nat} {index : Nat} {ctx : γ} {res : Response}

/-- Nothing but the calls and the pause matters. -/
theorem same (serving : Serving chain call mode pipeline held index ctx res)
    (paused : after.paused = chain.paused) (calls : after.calls = chain.calls) :
    Serving after call mode pipeline held index ctx res :=
  ⟨paused.trans serving.unpaused, calls ▸ serving.entry⟩

/-- The context and the response are rewritten. -/
theorem setMessage (serving : Serving chain call mode pipeline held index ctx res)
    (written : γ × Response) :
    Serving (chain.setMessage call written.1 written.2) call mode pipeline held index
      written.1 written.2 := by
  obtain ⟨unpaused, entry, run, found, own, -, -, rest⟩ := serving
  exact ⟨unpaused, { entry with ctx := written.1, res := written.2 }, run,
    by simp [Chain.setMessage, found], own, rfl, rfl, rest⟩

/-- The run is changed in what its drivers do not test. -/
theorem modifyRun (serving : Serving chain call mode pipeline held index ctx res)
    {change : Run → Run} {next : Nat} {more : List Nat}
    (kept : ∀ run, (change run).mode = run.mode ∧ (change run).pipeline = run.pipeline ∧
      (change run).globalTimeout = run.globalTimeout ∧
      (change run).state.cancelled = run.state.cancelled ∧
      (change run).state.timedOut = run.state.timedOut)
    (moved : ∀ run : Run, run.state.currentIndex = index → (change run).state.currentIndex = next)
    (holds : ∀ run : Run, run.pipeline = pipeline →
      (∀ position ∈ held, (run.closure? position).isSome = true) →
      ∀ position ∈ more, ((change run).closure? position).isSome = true) :
    Serving (chain.modifyRun call change) call mode pipeline more next ctx res := by
  obtain ⟨unpaused, entry, run, found, own, ctx, res, modes, pipelines, indices, cancelled,
    timedOut, global, handles⟩ := serving
  obtain ⟨keptMode, keptPipeline, keptGlobal, keptCancelled, keptTimedOut⟩ := kept run
  exact ⟨unpaused, { entry with run := entry.run.map change }, change run,
    by simp [Chain.modifyRun, found], by simp [own], ctx, res,
    keptMode.trans modes, keptPipeline.trans pipelines, moved run indices,
    keptCancelled.trans cancelled, keptTimedOut.trans timedOut, keptGlobal.trans global,
    holds run pipelines handles⟩

/-- The state of the run is changed in what the guard does not test. -/
theorem modifyState (serving : Serving chain call mode pipeline held index ctx res)
    {change : PipelineExecutionState → PipelineExecutionState}
    (kept : ∀ state, (change state).cancelled = state.cancelled ∧
      (change state).timedOut = state.timedOut ∧
      (change state).currentIndex = state.currentIndex) :
    Serving (chain.modifyState call change) call mode pipeline held index ctx res :=
  serving.modifyRun
    (fun run => ⟨rfl, rfl, rfl, (kept run.state).1, (kept run.state).2.1⟩)
    (fun run here => (kept run.state).2.2.trans here)
    (fun _ _ handles => handles)

theorem claimNext (serving : Serving chain call mode pipeline held index ctx res) :
    Serving (claimNext chain call) call mode pipeline held (index + 1) ctx res :=
  serving.modifyRun (fun _ => ⟨rfl, rfl, rfl, rfl, rfl⟩)
    (fun _ here => congrArg (· + 1) here) (fun _ _ handles => handles)

/-- Starting a body hands out its `next`. -/
theorem addClosure (serving : Serving chain call mode pipeline held index ctx res)
    {position : Nat} (within : position < pipeline.length) :
    Serving (chain.addClosure call position) call mode pipeline (position :: held) index ctx
      res := by
  refine serving.modifyRun (fun _ => ⟨rfl, rfl, rfl, rfl, rfl⟩) (fun _ here => here) ?_
  rintro run rfl handles other member
  rw [Run.closure?_isSome, Bool.and_eq_true, List.lookup_cons]
  rcases List.mem_cons.mp member with rfl | old
  · exact ⟨by simpa using within, by simp⟩
  · have handle := handles other old
    rw [Run.closure?_isSome, Bool.and_eq_true] at handle
    refine ⟨handle.1, ?_⟩
    split
    · rfl
    · exact handle.2

theorem cancelTimer (serving : Serving chain call mode pipeline held index ctx res)
    (timer : Option TimerId) :
    Serving (chain.cancelTimer timer) call mode pipeline held index ctx res := by
  cases timer with
  | none => exact serving
  | some timer => exact serving.same rfl rfl

theorem disarm (serving : Serving chain call mode pipeline held index ctx res) :
    Serving (chain.disarm call) call mode pipeline held index ctx res := by
  unfold Chain.disarm
  split
  · exact serving
  · exact (serving.cancelTimer _).modifyState fun _ => ⟨rfl, rfl, rfl⟩

theorem countExecution (serving : Serving chain call mode pipeline held index ctx res)
    (run : Run) (position : Nat) :
    Serving (chain.countExecution run position) call mode pipeline held index ctx res := by
  unfold Chain.countExecution
  split
  · exact serving.same rfl rfl
  · exact serving

theorem unregisterRun (serving : Serving chain call mode pipeline held index ctx res) :
    Serving (chain.unregisterRun call) call mode pipeline held index ctx res :=
  serving.same rfl rfl

theorem tryFinishRun (serving : Serving chain call mode pipeline held index ctx res) :
    Serving (chain.tryFinishRun call).2 call mode pipeline held index ctx res := by
  unfold Chain.tryFinishRun
  split
  · exact serving
  · split
    · exact serving
    · have finished : Serving (chain.modifyState call fun state => { state with finished := true })
          call mode pipeline held index ctx res := serving.modifyState fun _ => ⟨rfl, rfl, rfl⟩
      exact finished

/-- A `next` given out by an earlier position is given out still. -/
theorem drop {position : Nat}
    (serving : Serving chain call mode pipeline (position :: held) index ctx res) :
    Serving chain call mode pipeline held index ctx res := by
  obtain ⟨unpaused, entry, run, found, own, ctx, res, modes, pipelines, indices, cancelled,
    timedOut, global, handles⟩ := serving
  exact ⟨unpaused, entry, run, found, own, ctx, res, modes, pipelines, indices, cancelled,
    timedOut, global, fun other member => handles other (List.mem_cons_of_mem _ member)⟩

/-- The run of a serving call. -/
theorem run (serving : Serving chain call mode pipeline held index ctx res) :
    ∃ run, chain.run? call = some run ∧ run.mode = mode ∧ run.pipeline = pipeline ∧
      run.state.currentIndex = index ∧
      (stepClosed chain run = decide (pipeline.length ≤ index)) ∧ overdue chain run = false ∧
      run.state.cancelled = false ∧ run.state.timedOut = false ∧
      ∀ position ∈ held, (run.closure? position).isSome = true := by
  obtain ⟨unpaused, entry, run, found, own, ctx, res, modes, rfl, rfl, cancelled, timedOut,
    global, handles⟩ := serving
  refine ⟨run, by simp [Chain.run?, found, own], modes, rfl, rfl, ?_, ?_, cancelled, timedOut,
    handles⟩
  · simp [stepClosed, cancelled, timedOut, unpaused]
  · simp [overdue, global]

end Serving

/-- A single thread gets from one state to another of a serving call, having
started and written what `served` says. -/
def Reaches (program : Program γ) (call : CallId) (mode : Mode) (pipeline : List MiddlewareId)
    (held : List Nat) (chain : Chain γ) (start finish : Thread γ) (index : Nat)
    (served : Served γ) : Prop :=
  ∃ events after, Walk (solo program) (chain, start) events (after, finish) ∧
    Serving after call mode pipeline held index served.ctx served.res ∧
    startedPositions call events = served.started

namespace Reaches

variable {program : Program γ} {chain : Chain γ} {call : CallId} {mode : Mode}
  {pipeline : List MiddlewareId} {held : List Nat} {index last : Nat} {ctx : γ} {res : Response}
  {start middle finish : Thread γ} {served more : Served γ}

theorem done (serving : Serving chain call mode pipeline held index ctx res) :
    Reaches program call mode pipeline held chain start start index ⟨[], ctx, res⟩ :=
  ⟨[], chain, .done, serving, rfl⟩

/-- A move that starts no position of the call. -/
theorem move {event : Option Event} {after : Chain γ}
    (advanced : advance program chain start = some ⟨event, after, middle⟩)
    (quiet : ∀ position, event ≠ some (.started call position))
    (rest : Reaches program call mode pipeline held after middle finish index served) :
    Reaches program call mode pipeline held chain start finish index served := by
  obtain ⟨events, ends, walk, serving, started⟩ := rest
  refine ⟨_, ends, .move (solo_of_advance advanced) walk, serving, ?_⟩
  have silent : startedPositions call event.toList = [] := by
    cases event with
    | none => rfl
    | some event =>
        cases event with
        | started other position =>
            have different : ¬ other = call := fun equal => quiet position (equal ▸ rfl)
            simp [startedPositions, Event.starts, different]
        | _ => rfl
  rw [← started, startedPositions, List.filterMap_append, ← startedPositions, silent]
  rfl

/-- The move that starts a position of the call. -/
theorem starting {position : Nat} {after : Chain γ}
    (advanced : advance program chain start = some ⟨some (.started call position), after, middle⟩)
    (rest : Reaches program call mode pipeline held after middle finish index served) :
    Reaches program call mode pipeline held chain start finish index (served.after position) := by
  obtain ⟨events, ends, walk, serving, started⟩ := rest
  refine ⟨_, ends, .move (solo_of_advance advanced) walk, serving, ?_⟩
  simp [startedPositions, Event.starts, Served.after, ← started]

theorem trans (first : Reaches program call mode pipeline held chain start middle index served)
    (second : ∀ after, Serving after call mode pipeline held index served.ctx served.res →
      Reaches program call mode pipeline held after middle finish last more) :
    Reaches program call mode pipeline held chain start finish last
      { more with started := served.started ++ more.started } := by
  obtain ⟨events, between, walk, serving, started⟩ := first
  obtain ⟨others, ends, rest, finished, later⟩ := second between serving
  exact ⟨events ++ others, ends, walk.trans rest, finished,
    by simp [startedPositions, List.filterMap_append, ← started, ← later]⟩

/-- What follows starts no more. -/
theorem ending {after : γ} {answer : Response}
    (first : Reaches program call mode pipeline held chain start middle index served)
    (second : ∀ ends, Serving ends call mode pipeline held index served.ctx served.res →
      Reaches program call mode pipeline held ends middle finish last ⟨[], after, answer⟩) :
    Reaches program call mode pipeline held chain start finish last
      ⟨served.started, after, answer⟩ := by
  have whole := first.trans second
  rwa [List.append_nil] at whole

theorem drop {position : Nat}
    (reaches : Reaches program call mode pipeline (position :: held) chain start finish index
      served) :
    Reaches program call mode pipeline held chain start finish index served := by
  obtain ⟨events, ends, walk, serving, started⟩ := reaches
  exact ⟨events, ends, walk, serving.drop, started⟩

end Reaches

/-- A single thread returns to a stack, with any value. An asynchronous driver
has claimed the whole pipeline by then. -/
def Returns (program : Program γ) (call : CallId) (mode : Mode) (pipeline : List MiddlewareId)
    (held : List Nat) (chain : Chain γ) (start : Thread γ) (stack : List (Frame γ))
    (served : Served γ) : Prop :=
  ∃ verdict last, (mode = .async → pipeline.length ≤ last) ∧
    Reaches program call mode pipeline held chain start ⟨.returned verdict, stack⟩ last served

namespace Returns

variable {program : Program γ} {chain : Chain γ} {call : CallId} {mode : Mode}
  {pipeline : List MiddlewareId} {held : List Nat} {index : Nat}
  {start middle : Thread γ} {waiting stack : List (Frame γ)} {served : Served γ}

theorem move {event : Option Event} {after : Chain γ}
    (advanced : advance program chain start = some ⟨event, after, middle⟩)
    (quiet : ∀ position, event ≠ some (.started call position))
    (rest : Returns program call mode pipeline held after middle stack served) :
    Returns program call mode pipeline held chain start stack served := by
  obtain ⟨verdict, last, ended, reaches⟩ := rest
  exact ⟨verdict, last, ended, reaches.move advanced quiet⟩

theorem starting {position : Nat} {after : Chain γ}
    (advanced : advance program chain start = some ⟨some (.started call position), after, middle⟩)
    (rest : Returns program call mode pipeline held after middle stack served) :
    Returns program call mode pipeline held chain start stack (served.after position) := by
  obtain ⟨verdict, last, ended, reaches⟩ := rest
  exact ⟨verdict, last, ended, reaches.starting advanced⟩

/-- A walk that starts nothing, and a return from where it ends. -/
theorem after {ctx : γ} {res : Response}
    (first : Reaches program call mode pipeline held chain start middle index ⟨[], ctx, res⟩)
    (second : ∀ after, Serving after call mode pipeline held index ctx res →
      Returns program call mode pipeline held after middle stack served) :
    Returns program call mode pipeline held chain start stack served := by
  obtain ⟨events, between, walk, serving, started⟩ := first
  obtain ⟨verdict, last, ended, others, ends, rest, finished, later⟩ := second between serving
  refine ⟨verdict, last, ended, events ++ others, ends, walk.trans rest, finished, ?_⟩
  rw [startedPositions, List.filterMap_append, ← startedPositions, started, ← startedPositions,
    later, List.nil_append]

/-- A return through activations that start nothing more. -/
theorem pop {after : γ} {answer : Response}
    (first : Returns program call mode pipeline held chain start waiting served)
    (second : ∀ (ends : Chain γ) (verdict : Bool) (last : Nat),
      (mode = .async → pipeline.length ≤ last) →
      Serving ends call mode pipeline held last served.ctx served.res →
      Returns program call mode pipeline held ends ⟨.returned verdict, waiting⟩ stack
        ⟨[], after, answer⟩) :
    Returns program call mode pipeline held chain start stack ⟨served.started, after, answer⟩ := by
  obtain ⟨verdict, last, ended, events, between, walk, serving, started⟩ := first
  obtain ⟨returned, final, claimed, others, ends, rest, finished, later⟩ :=
    second between verdict last ended serving
  refine ⟨returned, final, claimed, events ++ others, ends, walk.trans rest, finished, ?_⟩
  rw [startedPositions, List.filterMap_append, ← startedPositions, started, ← startedPositions,
    later, List.append_nil]

/-- A return through activations that write nothing more either. -/
theorem through
    (first : Returns program call mode pipeline held chain start waiting served)
    (second : ∀ (ends : Chain γ) (verdict : Bool) (last : Nat),
      (mode = .async → pipeline.length ≤ last) →
      Serving ends call mode pipeline held last served.ctx served.res →
      Returns program call mode pipeline held ends ⟨.returned verdict, waiting⟩ stack
        ⟨[], served.ctx, served.res⟩) :
    Returns program call mode pipeline held chain start stack served :=
  first.pop second

theorem drop (position : Nat)
    (returns : Returns program call mode pipeline (position :: held) chain start stack served) :
    Returns program call mode pipeline held chain start stack served := by
  obtain ⟨verdict, last, ended, reaches⟩ := returns
  exact ⟨verdict, last, ended, reaches.drop⟩

end Returns

/-- Entering the driver of a mode. -/
def Mode.step (mode : Mode) (call : CallId) : Control γ :=
  match mode with
  | .sync => .syncStep call
  | .async => .asyncStep call

section Pieces

variable {program : Program γ} {chain : Chain γ} {call : CallId} {mode : Mode}
  {pipeline : List MiddlewareId} {held : List Nat} {index last : Nat} {ctx : γ} {res : Response}
  {stack : List (Frame γ)} {inner : Served γ}

/-- An access to the own context and response. -/
theorem advance_access (serving : Serving chain call mode pipeline held index ctx res)
    (write : γ → Response → γ × Response) (rest : γ → Response → Code γ) :
    advance program chain ⟨.code (.access call write rest), stack⟩ =
      some ⟨none, chain.setMessage call (write ctx res).1 (write ctx res).2,
        ⟨.code (rest ctx res), stack⟩⟩ := by
  obtain ⟨-, entry, run, found, -, rfl, rfl, -⟩ := serving
  simp only [advance, runCode, found]

theorem advance_finishing (serving : Serving chain call mode pipeline held index ctx res)
    (stage : FinishStage) (completion : Option (MiddlewareResult × String)) (after : Code γ) :
    ∃ run, advance program chain ⟨.finishing stage call completion after, stack⟩ =
      some (finishRun chain run stage call completion after stack) := by
  obtain ⟨run, found, -⟩ := serving.run
  exact ⟨run, by simp only [advance, withRun, found, Option.map_some]⟩

/-- A thread which has won the exchange goes on to what its caller does then. -/
theorem finishing_reaches (serving : Serving chain call mode pipeline held index ctx res)
    (completion : Option (MiddlewareResult × String)) (after : Code γ) :
    Reaches program call mode pipeline held chain
      ⟨.finishing .cancelGlobal call completion after, stack⟩ ⟨.code after, stack⟩ index
      ⟨[], ctx, res⟩ := by
  obtain ⟨first, cancelsGlobal⟩ := advance_finishing serving .cancelGlobal completion after
  have without := serving.cancelTimer first.state.globalTimeoutTimer
  obtain ⟨second, cancelsOwn⟩ := advance_finishing without .cancelMiddleware completion after
  have quiet := without.cancelTimer second.state.middlewareTimeoutTimer
  obtain ⟨third, unregisters⟩ := advance_finishing quiet .unregister completion after
  exact .move cancelsGlobal (by simp) (.move cancelsOwn (by simp)
    (.move unregisters (by simp) (.done quiet.unregisterRun)))

/-- `should_execute` answers and leaves everything as it is. -/
theorem select_reaches (serving : Serving chain call mode pipeline held index ctx res)
    (mw : SyncMiddleware γ) :
    Reaches program call mode pipeline held chain ⟨.code (mw.selectCode call), stack⟩
      ⟨.returned (mw.shouldExecute ctx), stack⟩ index ⟨[], ctx, res⟩ := by
  refine .move (advance_access serving _ _) (by simp) (.move rfl (by simp) ?_)
  exact .done (serving.setMessage (ctx, res))

/-- A body without `next()`. -/
theorem body_reaches (serving : Serving chain call mode pipeline held index ctx res)
    {mw : SyncMiddleware γ} {position : Nat} {written : γ × Response}
    (body : mw.body ctx res = (written, none)) :
    Reaches program call mode pipeline held chain ⟨.code (mw.bodyCode ⟨call, position⟩), stack⟩
      ⟨.returned true, stack⟩ index ⟨[], written.1, written.2⟩ := by
  refine .move (advance_access serving _ _) (by simp) ?_
  simp only [body]
  exact .move rfl (by simp) (.done (serving.setMessage written))

/-- `next()` enters the driver of the run. -/
theorem advance_next (serving : Serving chain call mode pipeline held index ctx res)
    {position : Nat} (member : position ∈ held) (rest : Option Exn → Code γ) :
    advance program chain ⟨.code (.invoke (.next ⟨call, position⟩) rest), stack⟩ =
      some ⟨some (.signalled call position .next), chain.disarm call,
        ⟨mode.step call, .await rest :: stack⟩⟩ := by
  obtain ⟨run, found, rfl, -, -, -, -, -, -, handles⟩ := serving.run
  simp only [advance, runCode, invoke, found, handles position member, if_true, next]
  cases run.mode <;> rfl

/-- The rest of a body after `next()` has returned. -/
theorem rest_reaches (serving : Serving chain call mode pipeline held index ctx res)
    (rest : γ → Response → γ × Response) (verdict : Bool) :
    Reaches program call mode pipeline held chain
      ⟨.returned verdict, .await (.orThrow (SyncMiddleware.restCode call rest)) :: stack⟩
      ⟨.returned true, stack⟩ index ⟨[], (rest ctx res).1, (rest ctx res).2⟩ := by
  refine .move rfl (by simp) (.move (advance_access serving _ _) (by simp) ?_)
  exact .move rfl (by simp) (.done (serving.setMessage (rest ctx res)))

/-- A body with `next()`: what the driver serves inside it, and its rest. -/
theorem body_returns (serving : Serving chain call mode pipeline held index ctx res)
    {mw : SyncMiddleware γ} {position : Nat} {written : γ × Response}
    {rest : γ → Response → γ × Response} (member : position ∈ held)
    (body : mw.body ctx res = (written, some rest))
    (serves : ∀ (after : Chain γ) (below : List (Frame γ)),
      Serving after call mode pipeline held index written.1 written.2 →
      Returns program call mode pipeline held after ⟨mode.step call, below⟩ below inner) :
    Returns program call mode pipeline held chain ⟨.code (mw.bodyCode ⟨call, position⟩), stack⟩
      stack (inner.then rest) := by
  have answered := serving.setMessage written
  refine .move (advance_access serving _ _) (by simp) ?_
  simp only [body]
  refine .move (advance_next answered member _) (by simp) ?_
  exact (serves _ _ answered.disarm).pop fun ends verdict last ended finished =>
    ⟨true, last, ended, rest_reaches finished rest verdict⟩

end Pieces

/-- The middleware at the position a driver claims. -/
theorem getElem?_of_drop {pipeline : List MiddlewareId} {index : Nat} {mw : MiddlewareId}
    {later : List MiddlewareId} (left : pipeline.drop index = mw :: later) :
    index < pipeline.length ∧ pipeline[index]? = some mw ∧ pipeline.drop (index + 1) = later := by
  have within : index < pipeline.length := by
    rcases Nat.lt_or_ge index pipeline.length with within | beyond
    · exact within
    · rw [List.drop_eq_nil_of_le beyond] at left
      cases left
  rw [List.drop_eq_getElem_cons within] at left
  obtain ⟨rfl, rest⟩ := List.cons.inj left
  exact ⟨within, List.getElem?_eq_getElem within, rest⟩

/-! ## The synchronous driver -/

section Sync

variable {base : Program γ} {mws : MiddlewareId → SyncMiddleware γ} {call : CallId}
  {pipeline : List MiddlewareId} {chain : Chain γ} {held : List Nat} {index : Nat} {ctx : γ}
  {res : Response} {stack : List (Frame γ)} {mw : MiddlewareId}

/-- An open step claims its position. -/
theorem advance_syncStep (serving : Serving chain call .sync pipeline held index ctx res)
    (within : index < pipeline.length) (present : pipeline[index]? = some mw) :
    advance (base.synchronous mws) chain ⟨.syncStep call, stack⟩ =
      some ⟨some (.claimed call index), claimNext chain call,
        ⟨.code ((mws mw).selectCode call), .syncSelect call index :: stack⟩⟩ := by
  obtain ⟨run, found, -, rfl, rfl, closed, late, -⟩ := serving.run
  have opened : stepClosed chain run = false := by
    rw [closed]
    exact decide_eq_false (Nat.not_le_of_lt within)
  simp only [advance, found, Option.bind_some, executeNextSync, opened, late, present,
    Bool.false_eq_true, if_false]
  rfl

/-- A step past the end of the pipeline returns. -/
theorem advance_syncStep_closed (serving : Serving chain call .sync pipeline held index ctx res)
    (beyond : pipeline.length ≤ index) :
    advance (base.synchronous mws) chain ⟨.syncStep call, stack⟩ =
      some ⟨none, chain, ⟨.returned false, stack⟩⟩ := by
  obtain ⟨run, found, -, rfl, rfl, closed, -⟩ := serving.run
  have shut : stepClosed chain run = true := closed.trans (decide_eq_true beyond)
  simp only [advance, found, Option.bind_some, executeNextSync, shut, if_true]

/-- A middleware that takes the request is started. -/
theorem advance_syncSelect (serving : Serving chain call .sync pipeline held index ctx res)
    {position : Nat} (present : pipeline[position]? = some mw) :
    advance (base.synchronous mws) chain ⟨.returned true, .syncSelect call position :: stack⟩ =
      some ⟨some (.started call position), chain.addClosure call position,
        ⟨.code ((mws mw).bodyCode ⟨call, position⟩), .syncBody call position :: stack⟩⟩ := by
  obtain ⟨run, found, -, rfl, -⟩ := serving.run
  simp only [advance, resume, if_true, found, present]
  rfl

/-- A body that has returned is counted. -/
theorem syncBody_returns (serving : Serving chain call .sync pipeline held index ctx res)
    (position : Nat) (verdict : Bool) :
    Returns (base.synchronous mws) call .sync pipeline held chain
      ⟨.returned verdict, .syncBody call position :: stack⟩ stack ⟨[], ctx, res⟩ := by
  obtain ⟨run, found, -⟩ := serving.run
  have counted : advance (base.synchronous mws) chain
      ⟨.returned verdict, .syncBody call position :: stack⟩ =
        some ⟨none, chain.countExecution run position, ⟨.returned false, stack⟩⟩ := by
    simp only [advance, resume, found]
  exact ⟨false, index, by simp, .move counted (by simp) (.done (serving.countExecution _ _))⟩

/-- **`execute` serves a pipeline as `syncServe` says.** -/
theorem syncStep_returns {later : List MiddlewareId} (left : pipeline.drop index = later)
    (serving : Serving chain call .sync pipeline held index ctx res) :
    Returns (base.synchronous mws) call .sync pipeline held chain ⟨.syncStep call, stack⟩
      stack (syncServe index (later.map mws) ctx res) := by
  induction later generalizing chain held index ctx res stack with
  | nil =>
      exact .move (advance_syncStep_closed serving (List.drop_eq_nil_iff.mp left)) (by simp)
        ⟨false, index, by simp, .done serving⟩
  | cons mw later inductionHypothesis =>
      obtain ⟨within, present, rest⟩ := getElem?_of_drop left
      refine .move (advance_syncStep serving within present) (by simp) ?_
      refine .after (select_reaches serving.claimNext (mws mw)) fun after answered => ?_
      simp only [List.map_cons, syncServe]
      cases selected : (mws mw).shouldExecute ctx with
      | false =>
          rw [if_neg (by simp)]
          exact .move rfl (by simp) (inductionHypothesis rest answered)
      | true =>
          rw [if_pos rfl]
          have opened := answered.addClosure within
          rcases body : (mws mw).body ctx res with ⟨written, next⟩
          cases next with
          | none =>
              change Returns _ _ _ _ _ _ _ _ (Served.after ⟨[], written.1, written.2⟩ index)
              refine .starting (advance_syncSelect answered present) (.drop index ?_)
              exact .after (body_reaches opened body) fun ends finished =>
                syncBody_returns finished index true
          | some next =>
              refine .starting (advance_syncSelect answered present) (.drop index ?_)
              refine (body_returns opened List.mem_cons_self body fun ends below serves =>
                inductionHypothesis rest serves).through fun ends verdict last _ finished => ?_
              exact syncBody_returns finished index verdict

end Sync

/-! ## The asynchronous driver -/

section Async

variable {base : Program γ} {mws : MiddlewareId → SyncMiddleware γ} {call : CallId}
  {pipeline : List MiddlewareId} {chain : Chain γ} {held : List Nat} {index : Nat} {ctx : γ}
  {res : Response} {stack : List (Frame γ)} {mw : MiddlewareId}

/-- An open step claims its position. -/
theorem advance_asyncStep (serving : Serving chain call .async pipeline held index ctx res)
    (within : index < pipeline.length) (present : pipeline[index]? = some mw) :
    advance (base.synchronous mws) chain ⟨.asyncStep call, stack⟩ =
      some ⟨some (.claimed call index), claimNext chain call,
        ⟨.code ((mws mw).selectCode call), .asyncSelect call index :: stack⟩⟩ := by
  obtain ⟨run, found, -, rfl, rfl, closed, late, -⟩ := serving.run
  have opened : stepClosed chain run = false := by
    rw [closed]
    exact decide_eq_false (Nat.not_le_of_lt within)
  simp only [advance, found, Option.bind_some, executeNextAsyncStep, opened, late, present,
    Bool.false_eq_true, if_false, Bool.false_and]
  rfl

/-- A step past the end of the pipeline completes the run, or finds it completed. -/
theorem asyncStep_closed_returns (serving : Serving chain call .async pipeline held index ctx res)
    (beyond : pipeline.length ≤ index) :
    Returns (base.synchronous mws) call .async pipeline held chain ⟨.asyncStep call, stack⟩ stack
      ⟨[], ctx, res⟩ := by
  obtain ⟨run, found, -, rfl, rfl, closed, -, cancelled, timedOut, -⟩ := serving.run
  have shut : stepClosed chain run = true := closed.trans (decide_eq_true beyond)
  have step : advance (base.synchronous mws) chain ⟨.asyncStep call, stack⟩ =
      some ⟨none, chain, ⟨.completeRun call .Continue "", stack⟩⟩ := by
    simp only [advance, found, Option.bind_some, executeNextAsyncStep, shut, cancelled, timedOut,
      if_true, Bool.false_eq_true, if_false]
  refine .move step (by simp) ?_
  have finished := serving.tryFinishRun
  have complete : advance (base.synchronous mws) chain ⟨.completeRun call .Continue "", stack⟩ =
      some (completeAsyncRun (base.synchronous mws) chain call .Continue "" stack) := rfl
  unfold completeAsyncRun at complete
  rcases outcome : chain.tryFinishRun call with ⟨won, after⟩
  rw [outcome] at complete finished
  -- the winner unregisters the run, and calls the completion callback if there is one
  have ends : ∀ completion verdict, Returns (base.synchronous mws) call .async run.pipeline held
      after ⟨.finishing .cancelGlobal call completion (.ret verdict), stack⟩ stack ⟨[], ctx, res⟩ :=
    fun completion verdict => .after (finishing_reaches finished completion _)
      fun _ done => .move rfl (by simp) ⟨verdict, _, fun _ => beyond, .done done⟩
  cases won with
  | false => exact .move complete (by simp) ⟨false, _, fun _ => beyond, .done finished⟩
  | true =>
      simp only at complete
      split at complete
      · exact .move complete (by simp) (ends _ false)
      · exact .move complete (by simp) (ends _ true)

/-- A middleware that takes the request is started through the default adapter. -/
theorem advance_asyncSelect (serving : Serving chain call .async pipeline held index ctx res)
    {position : Nat} (present : pipeline[position]? = some mw) :
    advance (base.synchronous mws) chain ⟨.returned true, .asyncSelect call position :: stack⟩ =
      some ⟨some (.started call position), chain.addClosure call position,
        ⟨.code ((mws mw).bodyCode ⟨call, position⟩),
          .adapterBody ⟨call, position⟩ :: .asyncBody call position :: stack⟩⟩ := by
  obtain ⟨run, found, -, rfl, -⟩ := serving.run
  simp only [advance, resume, if_true, found, present]
  rfl

/-- The default adapter reports `Continue` for a body that has returned. -/
theorem adapterBody_returns {served : Served γ}
    (serving : Serving chain call .async pipeline held index ctx res) (position : Nat)
    (verdict : Bool)
    (serves : ∀ (after : Chain γ) (below : List (Frame γ)),
      Serving after call .async pipeline held index ctx res →
      Returns (base.synchronous mws) call .async pipeline held after ⟨.asyncStep call, below⟩ below
        served) :
    Returns (base.synchronous mws) call .async pipeline held chain
      ⟨.returned verdict, .adapterBody ⟨call, position⟩ :: .asyncBody call position :: stack⟩ stack
      served := by
  refine .move rfl (by simp) ?_
  obtain ⟨run, found, -⟩ := serving.run
  have callback : advance (base.synchronous mws) chain
      ⟨.asyncCallback ⟨call, position⟩ .Continue "",
        .adapterCallback ⟨call, position⟩ :: .asyncBody call position :: stack⟩ =
      some ⟨some (.signalled call position (.callback .Continue)),
        (chain.disarm call).countExecution run position,
        ⟨.asyncStep call,
          .adapterCallback ⟨call, position⟩ :: .asyncBody call position :: stack⟩⟩ := by
    simp only [advance, withRun, found, Option.map_some]
    rfl
  refine .move callback (by simp) ?_
  refine (serves _ _ (serving.disarm.countExecution run position)).through
    fun ends returned last ended done => ?_
  exact .move rfl (by simp) (.move rfl (by simp) ⟨false, last, ended, .done done⟩)

/-- **`execute_async` serves a pipeline as `asyncServe` says.** -/
theorem asyncStep_returns {later : List MiddlewareId} (left : pipeline.drop index = later)
    (serving : Serving chain call .async pipeline held index ctx res) :
    Returns (base.synchronous mws) call .async pipeline held chain ⟨.asyncStep call, stack⟩
      stack (asyncServe index (later.map mws) ctx res) := by
  induction later generalizing chain held index ctx res stack with
  | nil => exact asyncStep_closed_returns serving (List.drop_eq_nil_iff.mp left)
  | cons mw later inductionHypothesis =>
      obtain ⟨within, present, rest⟩ := getElem?_of_drop left
      refine .move (advance_asyncStep serving within present) (by simp) ?_
      refine .after (select_reaches serving.claimNext (mws mw)) fun after answered => ?_
      simp only [List.map_cons, asyncServe]
      cases selected : (mws mw).shouldExecute ctx with
      | false =>
          rw [if_neg (by simp)]
          exact .move rfl (by simp) (inductionHypothesis rest answered)
      | true =>
          rw [if_pos rfl]
          have opened := answered.addClosure within
          rcases body : (mws mw).body ctx res with ⟨written, next⟩
          cases next with
          | none =>
              -- the body has returned, and the adapter goes on with the next position
              refine .starting (advance_asyncSelect answered present) (.drop index ?_)
              refine .after (body_reaches opened body) fun ends finished => ?_
              exact adapterBody_returns finished index true fun _ _ serves =>
                inductionHypothesis rest serves
          | some next =>
              -- everything was served inside `next()`, so the adapter finds the end
              refine .starting (advance_asyncSelect answered present) (.drop index ?_)
              refine (body_returns opened List.mem_cons_self body fun _ _ serves =>
                inductionHypothesis rest serves).through fun ends verdict last ended finished => ?_
              exact adapterBody_returns finished index verdict fun _ _ serves =>
                asyncStep_closed_returns serves (ended rfl)

end Async

/-! ## The two calls -/

/-- What a caller gets from one call which nothing interferes with: the
positions it starts and the response it leaves. -/
def Outcome (program : Program γ) (chain : Chain γ) (operation : Operation γ)
    (started : List Nat) (res : Response) : Prop :=
  ∃ events after verdict,
    Walk (solo program) (chain, ⟨.code (.invoke operation (.orThrow (.ret true))), []⟩) events
      (after, ⟨.returned verdict, []⟩) ∧
    startedPositions chain.calls.length events = started ∧
    after.calls[chain.calls.length]?.map Call.res = some res

/-- A call has one outcome. -/
theorem Outcome.unique {program : Program γ} {chain : Chain γ} {operation : Operation γ}
    {started others : List Nat} {res answer : Response}
    (one : Outcome program chain operation started res)
    (two : Outcome program chain operation others answer) : started = others ∧ res = answer := by
  obtain ⟨events, after, verdict, walk, rfl, left⟩ := one
  obtain ⟨more, ends, returned, again, rfl, kept⟩ := two
  obtain ⟨rfl, same⟩ := walk.end_unique again rfl rfl
  cases same
  rw [left] at kept
  exact ⟨rfl, Option.some.inj kept⟩

section Calls

variable {base : Program γ} {mws : MiddlewareId → SyncMiddleware γ} {chain : Chain γ} {ctx : γ}
  {res : Response}

/-- A call that was just entered serves from the first position. -/
theorem serving_enter (unpaused : chain.paused = false)
    (noTimeout : chain.settings.globalTimeout = 0) (full : ¬ chain.settings.mws.isEmpty = true)
    (mode : Mode) (callback : Option CallbackId) :
    Serving ((chain.enter mode ctx res callback).registerRun chain.calls.length)
      chain.calls.length mode chain.settings.mws [] 0 ctx res :=
  ⟨unpaused, _, _, List.getElem?_concat_length, if_neg full, rfl, rfl, rfl, rfl, rfl, rfl, rfl,
    noTimeout, by simp⟩

/-- A call that returns to its caller has the outcome that was served. -/
theorem outcome_of_returns {program : Program γ} {operation : Operation γ} {mode : Mode}
    {pipeline : List MiddlewareId} {held : List Nat} {served : Served γ}
    (returns : Returns program chain.calls.length mode pipeline held chain
      ⟨.code (.invoke operation (.orThrow (.ret true))), []⟩ [] served) :
    Outcome program chain operation served.started served.res := by
  obtain ⟨verdict, last, -, events, after, walk, serving, started⟩ := returns
  obtain ⟨-, entry, run, found, -, -, answer, -⟩ := serving
  exact ⟨events, after, verdict, walk, started, by simp [found, answer]⟩

/-- A call on an empty chain starts nothing and leaves the response alone. -/
theorem outcome_of_passed {program : Program γ} {operation : Operation γ} {mode : Mode}
    {callback : Option CallbackId} {completion : Option (MiddlewareResult × String)}
    {thread : Thread γ} {verdict : Bool}
    (advanced : advance program chain ⟨.code (.invoke operation (.orThrow (.ret true))), []⟩ =
      some ⟨some (.passed chain.calls.length completion), chain.enter mode ctx res callback,
        thread⟩)
    (rest : Walk (solo program) (chain.enter mode ctx res callback, thread) []
      (chain.enter mode ctx res callback, ⟨.returned verdict, []⟩)) :
    Outcome program chain operation [] res :=
  ⟨_, _, verdict, .move (solo_of_advance advanced) rest, rfl, by simp [Chain.enter]⟩

/-- Leaving `execute` returns to its caller. -/
theorem executeTry_returns {program : Program γ} {call : CallId} {mode : Mode}
    {pipeline : List MiddlewareId} {held : List Nat} {index : Nat} {stack : List (Frame γ)}
    (serving : Serving chain call mode pipeline held index ctx res)
    (ended : mode = .async → pipeline.length ≤ index) (verdict : Bool) :
    Returns program call mode pipeline held chain ⟨.returned verdict, .executeTry call :: stack⟩
      stack ⟨[], ctx, res⟩ := by
  have finished := serving.tryFinishRun
  have leave : advance program chain ⟨.returned verdict, .executeTry call :: stack⟩ =
      some (leaveRun chain call (.ret false) stack) := rfl
  unfold leaveRun at leave
  rcases outcome : chain.tryFinishRun call with ⟨won, after⟩
  rw [outcome] at leave finished
  have returns : ∀ {ends : Chain γ}, Serving ends call mode pipeline held index ctx res →
      Returns program call mode pipeline held ends ⟨.code (.ret false), stack⟩ stack
        ⟨[], ctx, res⟩ :=
    fun done => .move rfl (by simp) ⟨false, index, ended, .done done⟩
  cases won with
  | false => exact .move leave (by simp) (returns finished)
  | true =>
      exact .move leave (by simp) (.after (finishing_reaches finished none _) fun _ => returns)

/-- The caller returns once its call has. -/
theorem await_returns {program : Program γ} {call : CallId} {mode : Mode}
    {pipeline : List MiddlewareId} {held : List Nat} {index : Nat} {stack : List (Frame γ)}
    (serving : Serving chain call mode pipeline held index ctx res)
    (ended : mode = .async → pipeline.length ≤ index) (verdict : Bool) :
    Returns program call mode pipeline held chain
      ⟨.returned verdict, .await (.orThrow (.ret true)) :: stack⟩ stack ⟨[], ctx, res⟩ :=
  .move rfl (by simp) (.move rfl (by simp) ⟨true, index, ended, .done serving⟩)

/-- The outcome of `execute`. -/
theorem execute_outcome (unpaused : chain.paused = false)
    (noTimeout : chain.settings.globalTimeout = 0) :
    Outcome (base.synchronous mws) chain (.execute ctx res)
      (syncServe 0 (chain.settings.mws.map mws) ctx res).started
      (syncServe 0 (chain.settings.mws.map mws) ctx res).res := by
  by_cases empty : chain.settings.mws.isEmpty = true
  · rw [List.isEmpty_iff.mp empty]
    have passes : advance (base.synchronous mws) chain
        ⟨.code (.invoke (.execute ctx res) (.orThrow (.ret true))), []⟩ =
        some ⟨some (.passed chain.calls.length none), chain.enter .sync ctx res none,
          ⟨.returned false, [.await (.orThrow (.ret true))]⟩⟩ := by
      simp only [advance, runCode, invoke, execute, empty, if_true]
    exact outcome_of_passed passes (.silent rfl (.silent rfl .done))
  · have enters : advance (base.synchronous mws) chain
        ⟨.code (.invoke (.execute ctx res) (.orThrow (.ret true))), []⟩ =
        some ⟨some (.registered chain.calls.length .sync chain.settings.mws.length),
          (chain.enter .sync ctx res none).registerRun chain.calls.length,
          ⟨.syncStep chain.calls.length,
            [.executeTry chain.calls.length, .await (.orThrow (.ret true))]⟩⟩ := by
      simp only [advance, runCode, invoke, execute, if_neg empty]
    have served : Returns (base.synchronous mws) chain.calls.length .sync chain.settings.mws []
        ((chain.enter .sync ctx res none).registerRun chain.calls.length)
        ⟨.syncStep chain.calls.length,
          [.executeTry chain.calls.length, .await (.orThrow (.ret true))]⟩
        [.executeTry chain.calls.length, .await (.orThrow (.ret true))]
        (syncServe 0 (chain.settings.mws.map mws) ctx res) :=
      syncStep_returns rfl (serving_enter unpaused noTimeout empty .sync none)
    have left := served.through fun ends verdict last ended serving =>
      executeTry_returns serving ended verdict
    exact outcome_of_returns (.move enters (by simp) (left.through
      fun ends verdict last ended serving => await_returns serving ended verdict))

/-- The outcome of `execute_async`. -/
theorem executeAsync_outcome (unpaused : chain.paused = false)
    (noTimeout : chain.settings.globalTimeout = 0) (callback : Option CallbackId) :
    Outcome (base.synchronous mws) chain (.executeAsync ctx res callback)
      (asyncServe 0 (chain.settings.mws.map mws) ctx res).started
      (asyncServe 0 (chain.settings.mws.map mws) ctx res).res := by
  by_cases empty : chain.settings.mws.isEmpty = true
  · rw [List.isEmpty_iff.mp empty]
    cases callback with
    | none =>
        have passes : advance (base.synchronous mws) chain
            ⟨.code (.invoke (.executeAsync ctx res none) (.orThrow (.ret true))), []⟩ =
            some ⟨some (.passed chain.calls.length none), chain.enter .async ctx res none,
              ⟨.returned false, [.await (.orThrow (.ret true))]⟩⟩ := by
          simp only [advance, runCode, invoke, executeAsync, empty, if_true]
        exact outcome_of_passed passes (.silent rfl (.silent rfl .done))
    | some callback =>
        have passes : advance (base.synchronous mws) chain
            ⟨.code (.invoke (.executeAsync ctx res (some callback)) (.orThrow (.ret true))), []⟩ =
            some ⟨some (.passed chain.calls.length (some (.Continue, ""))),
              chain.enter .async ctx res (some callback),
              ⟨.code (.ret true), [.await (.orThrow (.ret true))]⟩⟩ := by
          simp only [advance, runCode, invoke, executeAsync, empty, if_true]
          rfl
        exact outcome_of_passed passes (.silent rfl (.silent rfl (.silent rfl .done)))
  · have untimed : ∀ entered : Chain γ, entered.settings = chain.settings →
        entered.setupGlobalTimeout chain.calls.length = entered := by
      intro entered same
      simp [Chain.setupGlobalTimeout, same, noTimeout]
    have enters : advance (base.synchronous mws) chain
        ⟨.code (.invoke (.executeAsync ctx res callback) (.orThrow (.ret true))), []⟩ =
        some ⟨some (.registered chain.calls.length .async chain.settings.mws.length),
          (chain.enter .async ctx res callback).registerRun chain.calls.length,
          ⟨.asyncStep chain.calls.length,
            [.executeAsyncTry chain.calls.length, .await (.orThrow (.ret true))]⟩⟩ := by
      simp only [advance, runCode, invoke, executeAsync, if_neg empty]
      rw [untimed ((chain.enter .async ctx res callback).registerRun chain.calls.length) rfl]
    have served : Returns (base.synchronous mws) chain.calls.length .async chain.settings.mws []
        ((chain.enter .async ctx res callback).registerRun chain.calls.length)
        ⟨.asyncStep chain.calls.length,
          [.executeAsyncTry chain.calls.length, .await (.orThrow (.ret true))]⟩
        [.executeAsyncTry chain.calls.length, .await (.orThrow (.ret true))]
        (asyncServe 0 (chain.settings.mws.map mws) ctx res) :=
      asyncStep_returns rfl (serving_enter unpaused noTimeout empty .async callback)
    exact outcome_of_returns (.move enters (by simp) (served.through
      fun ends verdict last ended serving =>
        .move rfl (by simp) (await_returns serving ended false)))

/-- **Both drivers agree** on a pipeline of synchronous middlewares, in the
positions they start and in the response they leave, exactly when the first
middleware to return without `next()` is followed only by middlewares that
decline the context it leaves. -/
theorem drivers_agree_iff (base : Program γ) (mws : MiddlewareId → SyncMiddleware γ)
    (chain : Chain γ) (ctx : γ) (res : Response) (callback : Option CallbackId)
    (unpaused : chain.paused = false) (noTimeout : chain.settings.globalTimeout = 0) :
    (∃ started answer,
        Outcome (base.synchronous mws) chain (.execute ctx res) started answer ∧
        Outcome (base.synchronous mws) chain (.executeAsync ctx res callback) started answer) ↔
      stopsLast (chain.settings.mws.map mws) ctx res = true := by
  have sync : Outcome (base.synchronous mws) chain (.execute ctx res) _ _ :=
    execute_outcome unpaused noTimeout
  have async : Outcome (base.synchronous mws) chain (.executeAsync ctx res callback) _ _ :=
    executeAsync_outcome unpaused noTimeout callback
  constructor
  · rintro ⟨started, answer, one, two⟩
    obtain ⟨same, -⟩ := one.unique sync
    obtain ⟨again, -⟩ := two.unique async
    exact stopsLast_of_started (again.symm.trans same)
  · intro last
    rw [asyncServe_of_stopsLast last] at async
    exact ⟨_, _, sync, async⟩

/-- A middleware which answers 401 and does not call `next()`. -/
def SyncMiddleware.unauthorized : SyncMiddleware Unit where
  shouldExecute _ := true
  body ctx res := ((ctx, { res with status := 401 }), none)

/-- A middleware which answers 200 and calls `next()`. -/
def SyncMiddleware.accepting : SyncMiddleware Unit where
  shouldExecute _ := true
  body ctx res := ((ctx, { res with status := 200 }), some Prod.mk)

/-- The refusing middleware comes last: the drivers agree. -/
theorem drivers_agree_refused_last :
    ∃ started answer,
      Outcome (Program.inert.synchronous fun mw => if mw = 0 then .accepting else .unauthorized)
        (.fresh (.plain [0, 1]) (fun _ => ⟨0, 0, 0, 0⟩) 0) (.execute () ⟨200, [], ""⟩) started
        answer ∧
      Outcome (Program.inert.synchronous fun mw => if mw = 0 then .accepting else .unauthorized)
        (.fresh (.plain [0, 1]) (fun _ => ⟨0, 0, 0, 0⟩) 0)
        (.executeAsync () ⟨200, [], ""⟩ none) started answer :=
  (drivers_agree_iff _ _ _ _ _ _ rfl rfl).mpr rfl

/-- The refusing middleware comes first: `execute` answers 401, `execute_async`
starts the next middleware and answers 200. -/
theorem drivers_differ_refused_first :
    ¬ ∃ started answer,
      Outcome (Program.inert.synchronous fun mw => if mw = 0 then .unauthorized else .accepting)
        (.fresh (.plain [0, 1]) (fun _ => ⟨0, 0, 0, 0⟩) 0) (.execute () ⟨200, [], ""⟩) started
        answer ∧
      Outcome (Program.inert.synchronous fun mw => if mw = 0 then .unauthorized else .accepting)
        (.fresh (.plain [0, 1]) (fun _ => ⟨0, 0, 0, 0⟩) 0)
        (.executeAsync () ⟨200, [], ""⟩ none) started answer := by
  rintro ⟨started, answer, one, two⟩
  have sync : started = [0] ∧ answer = ⟨401, [], ""⟩ := one.unique (execute_outcome rfl rfl)
  have async : started = [0, 1] ∧ answer = ⟨200, [], ""⟩ :=
    two.unique (executeAsync_outcome rfl rfl none)
  rw [sync.1] at async
  exact absurd async.1 (by decide)

end Calls

end Foxhttp.Middleware
