import Foxhttp.Middleware.Registry

/-!
# The coroutine bridge

`await_middleware_chain_async` calls `execute_async` with a completion callback
which posts a function to the executor, and then suspends its frame on a timer
which that function cancels. The executor runs nothing else while the frame is
inside `execute_async`; other threads may call the chain at any time, which is
more than a single-threaded executor allows. When an exception leaves
`execute_async` the frame is unwound with its timer, whether or not the callback
has posted its function or is still to do so.
-/

namespace Foxhttp.Middleware

open Foxhttp.Library

variable {γ : Type}

/-! ## The frame and its executor -/

/-- Where the awaiting frame is. -/
inductive Phase where
  /-- Inside `execute_async`. -/
  | calling
  /-- In `co_await done.async_wait(...)`. -/
  | suspended
  /-- The wait was cancelled, and its completion is in the queue. -/
  | waking
  | resumed
  | unwound
  deriving DecidableEq, Repr

/-- An awaiting frame: the call it made, the thread which makes it, and how many
functions the completion callback has posted which did not run yet. -/
structure Awaiting where
  call : CallId
  thread : Nat
  phase : Phase
  posted : Nat
  deriving DecidableEq, Repr

/-- What happens to the frame. -/
inductive FrameEvent where
  | suspended
  /-- An exception leaves `execute_async`. -/
  | unwound
  /-- A posted function cancels the wait of the suspended frame. -/
  | cancelled
  /-- A posted function runs while the frame is not suspended. -/
  | stray
  | resumed
  deriving DecidableEq, Repr

/-- What a move of the bridge reports. -/
inductive BridgeEvent where
  | chain (event : Event)
  | frame (event : FrameEvent)
  deriving DecidableEq, Repr

/-- The chain with a frame which may await it. -/
structure Bridge (γ : Type) where
  world : World γ
  awaiting : Option Awaiting

/-- What happens next. -/
inductive BridgeChoice (γ : Type) where
  | chain (choice : Choice γ)
  /-- The frame calls `execute_async`. -/
  | await (ctx : γ) (res : Response)
  /-- `execute_async` has ended, and the frame suspends or is unwound. -/
  | leave
  /-- The executor runs a posted function. -/
  | runPosted
  /-- The executor runs the completion of the wait. -/
  | wake

/-- The completion callback of the frame, whose code posts the function and does
nothing else. -/
def Program.posting (program : Program γ) (callback : CallbackId) : Program γ :=
  { program with completion := fun other call result message =>
      if other = callback then .ret true else program.completion other call result message }

/-- The frame in its call of `execute_async`, the next of the chain. -/
def Awaiting.begun (world : World γ) : Awaiting where
  call := world.chain.calls.length
  thread := world.threads.length
  phase := .calling
  posted := 0

/-- Count the function which the completion callback posts. -/
def Awaiting.heard (event : Option Event) (awaiting : Awaiting) : Awaiting :=
  if event.any (Event.completes awaiting.call) then
    { awaiting with posted := awaiting.posted + 1 }
  else awaiting

variable (program : Program γ) (callback : CallbackId)

/-- `await_middleware_chain_async` up to its call of `execute_async`. -/
def awaitMiddlewareChainAsync (world : World γ) (ctx : γ) (res : Response) :
    Option BridgeEvent × Bridge γ :=
  let move := executeAsync (program.posting callback) world.chain ctx res (some callback)
    [.await (.orThrow (.ret true))]
  (move.event.map .chain,
    { world := { chain := move.chain, threads := world.threads ++ [move.thread] },
      awaiting := some ((Awaiting.begun world).heard move.event) })

/-- `await_middleware_chain_async` once `execute_async` has returned or thrown:
`co_await done.async_wait(...)`, or the end of the frame. -/
def leaveCall (bridge : Bridge γ) (awaiting : Awaiting) : Option (Option BridgeEvent × Bridge γ) :=
  match awaiting.phase, bridge.world.threads[awaiting.thread]? with
  | .calling, some ⟨.returned _, []⟩ =>
      some (some (.frame .suspended),
        { bridge with awaiting := some { awaiting with phase := .suspended } })
  | .calling, some ⟨.thrown _, []⟩ =>
      some (some (.frame .unwound),
        { bridge with awaiting := some { awaiting with phase := .unwound } })
  | _, _ => none

/-- `raw->cancel(ignored)`, once the executor is free. -/
def runPosted (bridge : Bridge γ) (awaiting : Awaiting) : Option (Option BridgeEvent × Bridge γ) :=
  if awaiting.posted = 0 ∨ awaiting.phase = .calling then none
  else
    let ran := { awaiting with posted := awaiting.posted - 1 }
    if awaiting.phase = .suspended then
      some (some (.frame .cancelled),
        { bridge with awaiting := some { ran with phase := .waking } })
    else some (some (.frame .stray), { bridge with awaiting := some ran })

/-- The completion of the cancelled wait resumes the frame. -/
def wake (bridge : Bridge γ) (awaiting : Awaiting) : Option (Option BridgeEvent × Bridge γ) :=
  if awaiting.phase = .waking then
    some (some (.frame .resumed),
      { bridge with awaiting := some { awaiting with phase := .resumed } })
  else none

/-- One move of the bridge. -/
def bridgeStep (bridge : Bridge γ) : BridgeChoice γ → Option (Option BridgeEvent × Bridge γ)
  | .chain choice =>
      (step (program.posting callback) bridge.world choice).map fun (event, world) =>
        (event.map .chain, ⟨world, bridge.awaiting.map (Awaiting.heard event)⟩)
  | .await ctx res =>
      match bridge.awaiting with
      | none => some (awaitMiddlewareChainAsync program callback bridge.world ctx res)
      | some _ => none
  | .leave => bridge.awaiting.bind (leaveCall bridge)
  | .runPosted => bridge.awaiting.bind (runPosted bridge)
  | .wake => bridge.awaiting.bind (wake bridge)

/-- A fresh chain which no frame awaits yet. -/
def bridgeSystem : System (Bridge γ) (BridgeChoice γ) BridgeEvent where
  Initial bridge := (system program).Initial bridge.world ∧ bridge.awaiting = none
  step := bridgeStep program callback

/-! ## What the bridge has to keep -/

def BridgeEvent.chain? : BridgeEvent → Option Event
  | .chain event => some event
  | .frame _ => none

def BridgeEvent.frame? : BridgeEvent → Option FrameEvent
  | .chain _ => none
  | .frame event => some event

/-- What the chain reported. -/
def chainEvents (events : List BridgeEvent) : List Event :=
  events.filterMap BridgeEvent.chain?

/-- What happened to the frame. -/
def frameEvents (events : List BridgeEvent) : List FrameEvent :=
  events.filterMap BridgeEvent.frame?

/-- How often the completion callback of a frame was invoked. -/
def Awaiting.invoked (events : List BridgeEvent) (awaiting : Awaiting) : Nat :=
  completionCount awaiting.call (chainEvents events)

/-- The frame is resumed or unwound. -/
def FrameEvent.ends : FrameEvent → Bool
  | .unwound | .resumed => true
  | _ => false

/-- `execute_async` has ended and the executor has nothing left to run for the
frame. -/
def Awaiting.Settled (awaiting : Awaiting) : Prop :=
  awaiting.phase ≠ .calling ∧ awaiting.phase ≠ .waking ∧ awaiting.posted = 0

/-- The bridge neither hangs nor resumes a dead frame. -/
structure Bridged (events : List BridgeEvent) (bridge : Bridge γ) : Prop where
  /-- The frame is resumed or unwound at most once. -/
  atMostOnce : (frameEvents events).countP FrameEvent.ends ≤ 1
  /-- A posted function only runs while the frame is suspended. -/
  inTime : .stray ∉ frameEvents events
  /-- A frame with nothing left to run for it was resumed or unwound, unless
  `execute_async` has returned and nobody has signalled yet. -/
  ended : ∀ awaiting, bridge.awaiting = some awaiting → awaiting.Settled →
    (frameEvents events).countP FrameEvent.ends = 1 ∨
      awaiting.phase = .suspended ∧ awaiting.invoked events = 0
  /-- Once `execute_async` has ended, the executor comes to resume the frame when
  the completion callback was invoked. -/
  resumes : ∀ awaiting, bridge.awaiting = some awaiting → awaiting.phase ≠ .calling →
    0 < awaiting.invoked events →
    ∃ queue reached, (bridgeSystem program callback).follow System.anyMove events bridge queue =
      some reached ∧ reached.2.world = bridge.world ∧ .resumed ∈ frameEvents reached.1

/-- The completion callback has not been invoked when an exception leaves
`execute_async`, and is not invoked after that. -/
def unwindsApart (events : List BridgeEvent) (bridge : Bridge γ) : Option BridgeEvent → Bool
  | some (.frame .unwound) => bridge.awaiting.all fun awaiting => awaiting.invoked events == 0
  | some (.chain event) => bridge.awaiting.all fun awaiting =>
      !(awaiting.phase == .unwound && event.completes awaiting.call)
  | _ => true

/-! ## The moves of the bridge -/

/-- What the executor and the frame do to an awaiting frame. -/
inductive Awaiting.Moves (awaiting : Awaiting) : FrameEvent → Awaiting → Prop where
  | suspend (calling : awaiting.phase = .calling) :
      Moves awaiting .suspended { awaiting with phase := .suspended }
  | unwind (calling : awaiting.phase = .calling) :
      Moves awaiting .unwound { awaiting with phase := .unwound }
  | cancel (posted : 0 < awaiting.posted) (suspended : awaiting.phase = .suspended) :
      Moves awaiting .cancelled
        { awaiting with phase := .waking, posted := awaiting.posted - 1 }
  | stray (posted : 0 < awaiting.posted) (left : awaiting.phase ≠ .calling)
      (notSuspended : awaiting.phase ≠ .suspended) :
      Moves awaiting .stray { awaiting with posted := awaiting.posted - 1 }
  | resume (waking : awaiting.phase = .waking) :
      Moves awaiting .resumed { awaiting with phase := .resumed }

/-- What a move of the bridge can do. -/
inductive BridgeMove (bridge : Bridge γ) : Option BridgeEvent → Bridge γ → Prop where
  | chain {choice event world}
      (moved : step (program.posting callback) bridge.world choice = some (event, world)) :
      BridgeMove bridge (event.map .chain)
        ⟨world, bridge.awaiting.map (Awaiting.heard event)⟩
  | await (ctx : γ) (res : Response) (idle : bridge.awaiting = none) :
      BridgeMove bridge (awaitMiddlewareChainAsync program callback bridge.world ctx res).1
        (awaitMiddlewareChainAsync program callback bridge.world ctx res).2
  | frame {awaiting event after} (found : bridge.awaiting = some awaiting)
      (moved : awaiting.Moves event after) :
      BridgeMove bridge (some (.frame event)) { bridge with awaiting := some after }

variable {program callback} {bridge next : Bridge γ} {event : Option BridgeEvent}

theorem leaveCall_moves {awaiting : Awaiting} (found : bridge.awaiting = some awaiting)
    (moved : leaveCall bridge awaiting = some (event, next)) :
    BridgeMove program callback bridge event next := by
  rw [leaveCall] at moved
  split at moved
  · rename_i calling _
    cases moved
    exact .frame found (.suspend calling)
  · rename_i calling _
    cases moved
    exact .frame found (.unwind calling)
  · cases moved

theorem runPosted_moves {awaiting : Awaiting} (found : bridge.awaiting = some awaiting)
    (moved : runPosted bridge awaiting = some (event, next)) :
    BridgeMove program callback bridge event next := by
  rw [runPosted] at moved
  split at moved
  · cases moved
  · rename_i free
    obtain ⟨posted, left⟩ := not_or.mp free
    dsimp only at moved
    split at moved
    · rename_i suspended
      cases moved
      exact .frame found (.cancel (Nat.pos_of_ne_zero posted) suspended)
    · rename_i notSuspended
      cases moved
      exact .frame found (.stray (Nat.pos_of_ne_zero posted) left notSuspended)

theorem wake_moves {awaiting : Awaiting} (found : bridge.awaiting = some awaiting)
    (moved : wake bridge awaiting = some (event, next)) :
    BridgeMove program callback bridge event next := by
  rw [wake] at moved
  split at moved
  · rename_i waking
    cases moved
    exact .frame found (.resume waking)
  · cases moved

theorem bridgeStep_moves {choice : BridgeChoice γ}
    (moved : bridgeStep program callback bridge choice = some (event, next)) :
    BridgeMove program callback bridge event next := by
  cases choice with
  | chain choice =>
      obtain ⟨⟨chainEvent, world⟩, stepped, same⟩ := Option.map_eq_some_iff.mp moved
      cases same
      exact .chain stepped
  | await ctx res =>
      simp only [bridgeStep] at moved
      split at moved
      · rename_i idle
        cases moved
        exact .await ctx res idle
      · cases moved
  | leave =>
      obtain ⟨awaiting, found, moved⟩ := Option.bind_eq_some_iff.mp moved
      exact leaveCall_moves found moved
  | runPosted =>
      obtain ⟨awaiting, found, moved⟩ := Option.bind_eq_some_iff.mp moved
      exact runPosted_moves found moved
  | wake =>
      obtain ⟨awaiting, found, moved⟩ := Option.bind_eq_some_iff.mp moved
      exact wake_moves found moved

/-! ## The run of the chain -/

theorem chainEvents_chain (events : List BridgeEvent) (event : Option Event) :
    chainEvents (events ++ (event.map BridgeEvent.chain).toList) =
      chainEvents events ++ event.toList := by
  rw [chainEvents, List.filterMap_append]
  cases event <;> rfl

theorem chainEvents_frame (events : List BridgeEvent) (event : FrameEvent) :
    chainEvents (events ++ [.frame event]) = chainEvents events := by
  rw [chainEvents, List.filterMap_append]
  exact List.append_nil _

theorem frameEvents_chain (events : List BridgeEvent) (event : Option Event) :
    frameEvents (events ++ (event.map BridgeEvent.chain).toList) = frameEvents events := by
  rw [frameEvents, List.filterMap_append]
  cases event <;> exact List.append_nil _

theorem frameEvents_frame (events : List BridgeEvent) (event : FrameEvent) :
    frameEvents (events ++ [.frame event]) = frameEvents events ++ [event] := by
  rw [frameEvents, List.filterMap_append]
  rfl

/-- Beginning to await is a thread which calls `execute_async` at once. -/
theorem awaitMiddlewareChainAsync_runs {events : List Event} {world : World γ}
    (run : (system (program.posting callback)).Runs System.anyMove events world) (ctx : γ)
    (res : Response) :
    ∃ event : Option Event,
      (awaitMiddlewareChainAsync program callback world ctx res).1 = event.map BridgeEvent.chain ∧
      (system (program.posting callback)).Runs System.anyMove (events ++ event.toList)
        (awaitMiddlewareChainAsync program callback world ctx res).2.world := by
  refine ⟨_, rfl, ?_⟩
  let call : Code γ := .invoke (.executeAsync ctx res (some callback)) (.orThrow (.ret true))
  let spawned : World γ := { world with threads := world.threads ++ [⟨.code call, []⟩] }
  have prior : (system (program.posting callback)).Runs System.anyMove events spawned := by
    have moved : (system (program.posting callback)).step world (.spawn call) =
        some (none, spawned) := rfl
    simpa using run.move moved trivial
  have moved : (system (program.posting callback)).step spawned (.thread world.threads.length) =
      some ((executeAsync (program.posting callback) world.chain ctx res (some callback)
        [.await (.orThrow (.ret true))]).event,
        (awaitMiddlewareChainAsync program callback world ctx res).2.world) := by
    have thread : spawned.threads[world.threads.length]? = some ⟨.code call, []⟩ :=
      List.getElem?_concat_length
    simp only [system, step, thread]
    simp [spawned, call, advance, runCode, invoke, awaitMiddlewareChainAsync]
  exact prior.move moved trivial

/-- Along a run of the bridge the chain makes a run. -/
theorem chain_runs {guard : System.Guard (Bridge γ) BridgeEvent} {events : List BridgeEvent}
    (run : (bridgeSystem program callback).Runs guard events bridge) :
    (system (program.posting callback)).Runs System.anyMove (chainEvents events) bridge.world := by
  induction run with
  | initial valid => exact .initial valid.1
  | @move events bridge choice event next prior moved allowed inductionHypothesis =>
      cases bridgeStep_moves moved with
      | chain stepped =>
          rw [chainEvents_chain]
          exact inductionHypothesis.move stepped trivial
      | await ctx res idle =>
          obtain ⟨event, same, begun⟩ := awaitMiddlewareChainAsync_runs inductionHypothesis ctx res
          rw [same, chainEvents_chain]
          exact begun
      | frame found moved =>
          rw [Option.toList_some, chainEvents_frame]
          exact inductionHypothesis

section Invoked

variable {guard : System.Guard (Bridge γ) BridgeEvent} {events : List BridgeEvent}
  (run : (bridgeSystem program callback).Runs guard events bridge) {awaiting : Awaiting}

include run

theorem chain_registered : Registered (chainEvents events) bridge.world.ledger :=
  run_registered (chain_runs run)

/-- The completion callback of a frame is invoked at most once. -/
theorem invoked_le_one : awaiting.invoked events ≤ 1 :=
  Nat.le_trans (completionCount_le _ _) ((chain_registered run).ends_le_one _)

/-- The callback of a call to come was not invoked. -/
theorem invoked_next (isNext : awaiting.call = bridge.world.chain.calls.length) :
    awaiting.invoked events = 0 := by
  have unended := ((chain_registered run).fresh awaiting.call (Nat.le_of_eq isNext.symm)).2
  exact Nat.le_zero.mp (Nat.le_trans (completionCount_le _ _) (Nat.le_of_eq unended))

end Invoked

/-! ## What a frame went through -/

/-- What has happened to a frame of a run in which nothing strays. -/
def Phase.history : Phase → List FrameEvent
  | .calling => []
  | .suspended => [.suspended]
  | .waking => [.suspended, .cancelled]
  | .resumed => [.suspended, .cancelled, .resumed]
  | .unwound => [.unwound]

/-- How many posted functions have run. -/
def Phase.ran : Phase → Nat
  | .waking | .resumed => 1
  | _ => 0

/-- The books of a frame: its history, and a function posted for each time the
completion callback was invoked, which is never together with an exception. -/
structure Kept (events : List BridgeEvent) (awaiting : Awaiting) : Prop where
  history : frameEvents events = awaiting.phase.history
  posted : awaiting.invoked events = awaiting.posted + awaiting.phase.ran
  apart : awaiting.phase = .unwound → awaiting.invoked events = 0

theorem Awaiting.phase_heard (awaiting : Awaiting) (event : Option Event) :
    (awaiting.heard event).phase = awaiting.phase := by
  rw [Awaiting.heard]
  split <;> rfl

/-- A function is posted for each time the callback is invoked. -/
theorem Awaiting.invoked_heard (events : List BridgeEvent) (awaiting : Awaiting)
    (event : Option Event) :
    (awaiting.heard event).invoked (events ++ (event.map BridgeEvent.chain).toList) +
        awaiting.posted =
      awaiting.invoked events + (awaiting.heard event).posted := by
  have count : (chainEvents events ++ event.toList).countP (Event.completes awaiting.call) =
      (chainEvents events).countP (Event.completes awaiting.call) +
        if event.any (Event.completes awaiting.call) then 1 else 0 := by
    rw [List.countP_append]
    cases event <;> simp [List.countP_cons]
  rw [Awaiting.heard]
  split
  · rename_i completes
    simp only [Awaiting.invoked, completionCount, chainEvents_chain, count, completes, if_true]
    omega
  · rename_i other
    simp only [Awaiting.invoked, completionCount, chainEvents_chain, count, other]
    rfl

namespace Kept

variable {events : List BridgeEvent} {awaiting : Awaiting}

/-- An event of the chain keeps the books. -/
theorem heard (kept : Kept events awaiting) {event : Option Event}
    (apart : awaiting.phase = .unwound → event.any (Event.completes awaiting.call) = false) :
    Kept (events ++ (event.map BridgeEvent.chain).toList) (awaiting.heard event) := by
  have invoked := awaiting.invoked_heard events event
  have posted := kept.posted
  refine { history := ?_, posted := ?_, apart := fun unwound => ?_ }
  · rw [frameEvents_chain, awaiting.phase_heard]
    exact kept.history
  · rw [awaiting.phase_heard]
    omega
  · rw [awaiting.phase_heard] at unwound
    have unheard : awaiting.heard event = awaiting :=
      if_neg (Bool.eq_false_iff.mp (apart unwound))
    have uninvoked := kept.apart unwound
    rw [unheard] at invoked ⊢
    omega

/-- A move of the frame keeps the books, when its callback is invoked once and
not before an exception. -/
theorem moved (kept : Kept events awaiting) (once : awaiting.invoked events ≤ 1)
    {event : FrameEvent} {after : Awaiting} (moves : awaiting.Moves event after)
    (apart : event = .unwound → awaiting.invoked events = 0) :
    Kept (events ++ [.frame event]) after := by
  have same (other : Awaiting) (isCall : other.call = awaiting.call) :
      other.invoked (events ++ [.frame event]) = awaiting.invoked events := by
    rw [Awaiting.invoked, Awaiting.invoked, chainEvents_frame, isCall]
  have history := kept.history
  have posted := kept.posted
  cases moves with
  | suspend calling =>
      rw [calling] at history posted
      exact { history := by rw [frameEvents_frame, history]; rfl
              posted := (same _ rfl).trans posted
              apart := nofun }
  | unwind calling =>
      rw [calling] at history posted
      exact { history := by rw [frameEvents_frame, history]; rfl
              posted := (same _ rfl).trans posted
              apart := fun _ => (same _ rfl).trans (apart rfl) }
  | cancel isPosted suspended =>
      rw [suspended] at history posted
      exact { history := by rw [frameEvents_frame, history]; rfl
              posted := (same _ rfl).trans (posted.trans (Nat.sub_add_cancel isPosted).symm)
              apart := nofun }
  | stray isPosted left notSuspended =>
      -- Only one function is posted, and a frame which is past it or unwound has none.
      have nonePosted : awaiting.posted = 0 := by
        cases phase : awaiting.phase with
        | calling => exact absurd phase left
        | suspended => exact absurd phase notSuspended
        | waking | resumed =>
            simp only [phase, Phase.ran] at posted
            omega
        | unwound =>
            have uninvoked := kept.apart phase
            omega
      omega
  | resume waking =>
      rw [waking] at history posted
      exact { history := by rw [frameEvents_frame, history]; rfl
              posted := (same _ rfl).trans posted
              apart := nofun }

end Kept

/-- The books of the bridge. -/
structure BridgeKept (events : List BridgeEvent) (bridge : Bridge γ) : Prop where
  idle : bridge.awaiting = none → frameEvents events = []
  frame : ∀ awaiting, bridge.awaiting = some awaiting → Kept events awaiting

/-- What the condition asks of an event of the chain. -/
theorem apart_of_guard {events : List BridgeEvent} {chainEvent : Option Event}
    (allowed : unwindsApart events bridge (chainEvent.map BridgeEvent.chain) = true)
    {awaiting : Awaiting} (found : bridge.awaiting = some awaiting)
    (unwound : awaiting.phase = .unwound) :
    chainEvent.any (Event.completes awaiting.call) = false := by
  cases chainEvent with
  | none => rfl
  | some chainEvent =>
      simpa [unwindsApart, found, unwound] using allowed

/-- Every move which meets the condition keeps the books. -/
theorem run_kept {events : List BridgeEvent}
    (run : (bridgeSystem program callback).Runs (System.Guard.of unwindsApart) events bridge) :
    BridgeKept events bridge := by
  refine run.invariant ?_ ?_
  · rintro bridge ⟨-, idle⟩
    exact ⟨fun _ => rfl, fun awaiting found => by rw [idle] at found; cases found⟩
  · intro events bridge choice event next prior kept moved allowed
    cases bridgeStep_moves moved with
    | @chain _ chainEvent world stepped =>
        refine ⟨fun idle => ?_, fun after found => ?_⟩
        · rw [frameEvents_chain]
          exact kept.idle (Option.map_eq_none_iff.mp idle)
        · obtain ⟨awaiting, isAwaiting, rfl⟩ := Option.map_eq_some_iff.mp found
          exact (kept.frame awaiting isAwaiting).heard (apart_of_guard allowed isAwaiting)
    | await ctx res idle =>
        refine ⟨nofun, fun after found => ?_⟩
        cases found
        have begun : Kept events (Awaiting.begun bridge.world) :=
          { history := kept.idle idle, posted := invoked_next prior rfl, apart := nofun }
        exact begun.heard nofun
    | @frame awaiting frameEvent after found moves =>
        refine ⟨nofun, fun other isOther => ?_⟩
        cases isOther
        refine (kept.frame awaiting found).moved (invoked_le_one prior) moves ?_
        rintro rfl
        simpa [System.Guard.of, unwindsApart, found] using allowed

/-! ## The bridge -/

theorem countP_history (phase : Phase) : phase.history.countP FrameEvent.ends ≤ 1 := by
  cases phase <;> decide

theorem stray_not_mem_history (phase : Phase) : .stray ∉ phase.history := by
  cases phase <;> decide

/-- The executor resumes a suspended frame for which a function is posted. -/
theorem resumes_of_kept {events : List BridgeEvent} {awaiting : Awaiting}
    (found : bridge.awaiting = some awaiting) (kept : Kept events awaiting)
    (left : awaiting.phase ≠ .calling) (invoked : 0 < awaiting.invoked events) :
    ∃ queue reached, (bridgeSystem program callback).follow System.anyMove events bridge queue =
      some reached ∧ reached.2.world = bridge.world ∧ .resumed ∈ frameEvents reached.1 := by
  have posted := kept.posted
  cases phase : awaiting.phase with
  | calling => exact absurd phase left
  | unwound => exact absurd (kept.apart phase) (Nat.ne_of_gt invoked)
  | resumed =>
      refine ⟨[], (events, bridge), rfl, rfl, ?_⟩
      rw [kept.history, phase]
      decide
  | waking =>
      refine ⟨[.wake], (events ++ [.frame .resumed],
        { bridge with awaiting := some { awaiting with phase := .resumed } }), ?_, rfl, ?_⟩
      · simp [System.follow, bridgeSystem, bridgeStep, found, wake, phase, System.anyMove]
      · simp [frameEvents, BridgeEvent.frame?]
  | suspended =>
      have isPosted : awaiting.posted ≠ 0 := by
        simp only [phase, Phase.ran] at posted
        omega
      let ended : Awaiting :=
        { awaiting with phase := .resumed, posted := awaiting.posted - 1 }
      refine ⟨[.runPosted, .wake], (events ++ [.frame .cancelled, .frame .resumed],
        { bridge with awaiting := some ended }), ?_, rfl, ?_⟩
      · simp [System.follow, bridgeSystem, bridgeStep, found, runPosted, wake, phase, isPosted,
          System.anyMove, ended]
      · simp [frameEvents, BridgeEvent.frame?]

/-- In every run in which no exception leaves `execute_async` of a call whose
completion callback is invoked, the bridge neither hangs nor resumes a dead
frame. -/
theorem bridged_of_unwindsApart {events : List BridgeEvent}
    (run : (bridgeSystem program callback).Runs (System.Guard.of unwindsApart) events bridge) :
    Bridged program callback events bridge := by
  have books := run_kept run
  have history : frameEvents events = [] ∨ ∃ phase : Phase, frameEvents events = phase.history := by
    cases awaits : bridge.awaiting with
    | none => exact .inl (books.idle awaits)
    | some awaiting => exact .inr ⟨_, (books.frame awaiting awaits).history⟩
  refine { atMostOnce := ?_, inTime := ?_, ended := ?_, resumes := ?_ }
  · rcases history with none | ⟨phase, same⟩
    · rw [none]
      exact Nat.zero_le 1
    · rw [same]
      exact countP_history phase
  · rcases history with none | ⟨phase, same⟩
    · rw [none]
      exact List.not_mem_nil
    · rw [same]
      exact stray_not_mem_history phase
  · rintro awaiting found ⟨left, notWaking, emptied⟩
    have kept := books.frame awaiting found
    have posted := kept.posted
    rw [kept.history]
    cases phase : awaiting.phase with
    | calling => exact absurd phase left
    | waking => exact absurd phase notWaking
    | suspended =>
        simp only [phase, Phase.ran, emptied] at posted
        exact .inr ⟨rfl, posted⟩
    | resumed | unwound => exact .inl (by decide)
  · intro awaiting found left invoked
    exact resumes_of_kept found (books.frame awaiting found) left invoked

/-- A fresh chain with these settings, and no frame. -/
def Bridge.fresh (settings : Settings) : Bridge γ where
  world := ⟨.fresh settings (fun _ => ⟨0, 0, 0, 0⟩) 0, []⟩
  awaiting := none

/-- The frame awaits, and its thread makes this many moves. -/
def awaits (ctx : γ) (moves : Nat) : List (BridgeChoice γ) :=
  .await ctx ⟨200, [], ""⟩ :: List.replicate moves (.chain (.thread 0))

/-- A middleware which signals from another thread once its body has returned. -/
theorem late_signal_bridged :
    ∃ reached, (bridgeSystem (Program.overriding fun _ _ => .ret true) 0).follow
        (System.Guard.of unwindsApart) [] (Bridge.fresh (.plain [0]))
        (awaits () 8 ++ [.leave, .chain (.spawn (.signal ⟨0, 0⟩ .Stop))] ++
          List.replicate 6 (.chain (.thread 1)) ++ [.runPosted, .wake]) = some reached ∧
      .resumed ∈ frameEvents reached.1 ∧
      Bridged (Program.overriding fun _ _ => .ret true) 0 reached.1 reached.2 := by
  have start : (bridgeSystem (Program.overriding fun _ _ => .ret true) 0).Runs
      (System.Guard.of unwindsApart) [] (Bridge.fresh (.plain [0]) : Bridge Unit) :=
    .initial ⟨⟨_, _, _, rfl⟩, rfl⟩
  exact start.reaches rfl fun run => ⟨by decide, bridged_of_unwindsApart run⟩

/-- A middleware which throws something other than a `std::exception`: the
completion callback is invoked with an error, the frame is unwound, and the
posted function cancels a timer which is gone. -/
theorem foreign_exception_strays :
    ¬ ∀ (program : Program Unit) (callback : CallbackId) (events : List BridgeEvent)
      (bridge : Bridge Unit),
      (bridgeSystem program callback).Runs System.anyMove events bridge →
      Bridged program callback events bridge := by
  intro alwaysBridged
  have start : (bridgeSystem (Program.overriding fun _ _ => .throw .foreign) 0).Runs
      System.anyMove [] (Bridge.fresh (.plain [0]) : Bridge Unit) :=
    .initial ⟨⟨_, _, _, rfl⟩, rfl⟩
  have reaches : ∃ reached, (bridgeSystem (Program.overriding fun _ _ => .throw .foreign) 0).follow
      System.anyMove [] (Bridge.fresh (.plain [0]) : Bridge Unit)
        (awaits () 13 ++ [.leave, .runPosted]) = some reached ∧
      .stray ∈ frameEvents reached.1 ∧
      Bridged (Program.overriding fun _ _ => .throw .foreign) 0 reached.1 reached.2 :=
    start.reaches rfl fun run => ⟨by decide, alwaysBridged _ _ _ _ run⟩
  obtain ⟨reached, -, strays, bridged⟩ := reaches
  exact bridged.inTime strays

end Foxhttp.Middleware
