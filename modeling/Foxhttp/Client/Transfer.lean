import Foxhttp.Client.RequestBuilder

/-!
# The transfer of a request

`run_callbacks` transfers a request over a stream of its own and posts one of the
callbacks. The name is resolved without a time limit. `expires_after` limits all that
is done on the stream until it is set again: once for `http`, and once more before the
handshake for `https`. The timeouts of the client and of the builder are not read.
-/

namespace Foxhttp.Client

open Foxhttp.Library

/-- What the coroutine is waiting for. -/
inductive TransferStage where
  /-- Its start, by `co_spawn`. -/
  | spawned
  | resolving
  | connecting
  | handshaking
  | writing
  | reading
  /-- The transfer is over. -/
  | ended
deriving DecidableEq

/-- Whether an operation on the stream is pending, which its timer limits. -/
def TransferStage.onStream : TransferStage → Bool
  | .connecting | .handshaking | .writing | .reading => true
  | .spawned | .resolving | .ended => false

/-- A transfer of a request which ends in a response or an error. -/
structure Transfer (Success Failure Error Reply : Type) where
  spec : RequestSpec Success Failure
  /-- Whether there is a TLS context. -/
  hasContext : Bool
  now : Nat := 0
  stage : TransferStage := .spawned
  /-- When the timer of the stream expires. -/
  deadline : Nat := 0
  /-- The callback which is posted and has not run. -/
  posted : Option (Except Error Reply) := none

/-- What happens to a transfer. -/
inductive TransferChoice (Error Reply : Type) where
  | tick (elapsed : Nat)
  | spawn
  /-- The operation succeeds; the last one with a response. -/
  | succeed
  | reply (res : Reply)
  | fail (ec : Error)
  /-- The timer of the stream expires. -/
  | expire
  /-- The posted callback runs. -/
  | callback

/-- What is seen of a transfer. -/
inductive TransferEvent (Error Reply : Type) where
  | resolved (now : Nat)
  | connected (now : Nat)
  | finished (now : Nat) (result : Except Error Reply)
  | called (result : Except Error Reply)

namespace Transfer

variable {Success Failure Error Reply : Type}

/-- Whether there is a callback for a result. -/
def wants (transfer : Transfer Success Failure Error Reply) : Except Error Reply → Bool
  | .ok _ => transfer.spec.onSuccess.isSome
  | .error _ => transfer.spec.onError.isSome

/-- The end of `run_callbacks`. -/
def finish (transfer : Transfer Success Failure Error Reply) (result : Except Error Reply) :
    Option (Option (TransferEvent Error Reply) × Transfer Success Failure Error Reply) :=
  some (some (.finished transfer.now result),
    { transfer with
      stage := .ended
      posted := if transfer.wants result then some result else none })

/-- What a transfer makes of what happens to it. -/
def step (notSupported timedOut : Error) (ioTimeout handshakeTimeout : Nat)
    (transfer : Transfer Success Failure Error Reply) :
    TransferChoice Error Reply →
      Option (Option (TransferEvent Error Reply) × Transfer Success Failure Error Reply)
  | .tick elapsed => some (none, { transfer with now := transfer.now + elapsed })
  | .spawn =>
      if transfer.stage = .spawned then
        if transfer.spec.base.https ∧ transfer.hasContext = false then
          transfer.finish (.error notSupported)
        else some (none, { transfer with stage := .resolving })
      else none
  | .succeed =>
      match transfer.stage with
      | .resolving =>
          some (some (.resolved transfer.now),
            { transfer with stage := .connecting, deadline := transfer.now + ioTimeout })
      | .connecting =>
          if transfer.spec.base.https then
            some (some (.connected transfer.now),
              { transfer with
                stage := .handshaking
                deadline := transfer.now + handshakeTimeout })
          else some (some (.connected transfer.now), { transfer with stage := .writing })
      | .handshaking => some (none, { transfer with stage := .writing })
      | .writing => some (none, { transfer with stage := .reading })
      | .spawned | .reading | .ended => none
  | .reply res => if transfer.stage = .reading then transfer.finish (.ok res) else none
  | .fail ec =>
      if transfer.stage.onStream ∨ transfer.stage = .resolving then transfer.finish (.error ec)
      else none
  | .expire =>
      if transfer.stage.onStream ∧ transfer.deadline ≤ transfer.now then
        transfer.finish (.error timedOut)
      else none
  | .callback =>
      transfer.posted.map fun result => (some (.called result), { transfer with posted := none })

/-- Transfers of a request. -/
def system (notSupported timedOut : Error) (ioTimeout handshakeTimeout : Nat)
    (spec : RequestSpec Success Failure) (hasContext : Bool) :
    System (Transfer Success Failure Error Reply) (TransferChoice Error Reply)
      (TransferEvent Error Reply) where
  Initial transfer := transfer = { spec := spec, hasContext := hasContext }
  step := step notSupported timedOut ioTimeout handshakeTimeout

end Transfer

variable {Error Reply : Type}

/-- How a transfer ended. -/
def finishes (events : List (TransferEvent Error Reply)) : List (Nat × Except Error Reply) :=
  events.filterMap fun
    | .finished now result => some (now, result)
    | _ => none

/-- The callbacks which ran, with what they were given. -/
def callbacks (events : List (TransferEvent Error Reply)) : List (Except Error Reply) :=
  events.filterMap fun
    | .called result => some result
    | _ => none

theorem finishes_append (events more : List (TransferEvent Error Reply)) :
    finishes (events ++ more) = finishes events ++ finishes more :=
  List.filterMap_append

theorem callbacks_append (events more : List (TransferEvent Error Reply)) :
    callbacks (events ++ more) = callbacks events ++ callbacks more :=
  List.filterMap_append

namespace Transfer

variable {Success Failure : Type} {notSupported timedOut : Error}
  {ioTimeout handshakeTimeout slack : Nat} {spec : RequestSpec Success Failure}
  {hasContext : Bool} {transfer next : Transfer Success Failure Error Reply}
  {event : Option (TransferEvent Error Reply)} {events : List (TransferEvent Error Reply)}
  {guard : System.Guard (Transfer Success Failure Error Reply) (TransferEvent Error Reply)}

/-! ## What a move does -/

/-- All that a move can do. -/
inductive Moves (notSupported : Error) (ioTimeout handshakeTimeout : Nat)
    (transfer : Transfer Success Failure Error Reply) :
    Option (TransferEvent Error Reply) → Transfer Success Failure Error Reply → Prop
  | ticked (elapsed : Nat) :
      Moves notSupported ioTimeout handshakeTimeout transfer none
        { transfer with now := transfer.now + elapsed }
  | began (spawned : transfer.stage = .spawned) :
      Moves notSupported ioTimeout handshakeTimeout transfer none
        { transfer with stage := .resolving }
  | resolved (resolving : transfer.stage = .resolving) :
      Moves notSupported ioTimeout handshakeTimeout transfer (some (.resolved transfer.now))
        { transfer with stage := .connecting, deadline := transfer.now + ioTimeout }
  | connectedPlain (connecting : transfer.stage = .connecting)
      (plain : transfer.spec.base.https = false) :
      Moves notSupported ioTimeout handshakeTimeout transfer (some (.connected transfer.now))
        { transfer with stage := .writing }
  | connectedTls (connecting : transfer.stage = .connecting)
      (https : transfer.spec.base.https = true) :
      Moves notSupported ioTimeout handshakeTimeout transfer (some (.connected transfer.now))
        { transfer with stage := .handshaking, deadline := transfer.now + handshakeTimeout }
  | went {stage : TransferStage}
      (before : transfer.stage = .handshaking ∨ transfer.stage = .writing)
      (after : stage = .writing ∨ stage = .reading) :
      Moves notSupported ioTimeout handshakeTimeout transfer none { transfer with stage := stage }
  | finished (result : Except Error Reply)
      (pending : transfer.stage.onStream = true ∨ transfer.stage = .resolving ∨
        transfer.stage = .spawned ∧ result = .error notSupported) :
      Moves notSupported ioTimeout handshakeTimeout transfer
        (some (.finished transfer.now result))
        { transfer with
          stage := .ended
          posted := if transfer.wants result then some result else none }
  | called {result : Except Error Reply} (posted : transfer.posted = some result) :
      Moves notSupported ioTimeout handshakeTimeout transfer (some (.called result))
        { transfer with posted := none }

theorem step_moves {choice : TransferChoice Error Reply}
    (stepped : transfer.step notSupported timedOut ioTimeout handshakeTimeout choice =
      some (event, next)) :
    Moves notSupported ioTimeout handshakeTimeout transfer event next := by
  cases choice with
  | tick elapsed =>
      cases stepped
      exact .ticked elapsed
  | spawn =>
      obtain ⟨spawned, outcome⟩ := Option.ite_none_right_eq_some.mp stepped
      split at outcome <;> cases outcome
      · exact .finished _ (.inr (.inr ⟨spawned, rfl⟩))
      · exact .began spawned
  | succeed =>
      simp only [step] at stepped
      split at stepped
      · rename_i resolving
        cases stepped
        exact .resolved resolving
      · rename_i connecting
        split at stepped <;> cases stepped
        · rename_i https
          exact .connectedTls connecting https
        · rename_i plain
          exact .connectedPlain connecting (Bool.eq_false_iff.mpr plain)
      · rename_i handshaking
        cases stepped
        exact .went (.inl handshaking) (.inl rfl)
      · rename_i writing
        cases stepped
        exact .went (.inr writing) (.inr rfl)
      all_goals cases stepped
  | reply res =>
      obtain ⟨reading, outcome⟩ := Option.ite_none_right_eq_some.mp stepped
      cases outcome
      exact .finished _ (.inl (by rw [reading]; rfl))
  | fail ec =>
      obtain ⟨pending, outcome⟩ := Option.ite_none_right_eq_some.mp stepped
      cases outcome
      exact .finished _ (pending.imp_right .inl)
  | expire =>
      obtain ⟨⟨pending, -⟩, outcome⟩ := Option.ite_none_right_eq_some.mp stepped
      cases outcome
      exact .finished _ (.inl pending)
  | callback =>
      obtain ⟨result, posted, outcome⟩ := Option.map_eq_some_iff.mp stepped
      cases outcome
      exact .called posted

/-! ## One callback -/

/-- The callback for how the transfer ended, and no other, was called or is posted. -/
inductive Reports (events : List (TransferEvent Error Reply))
    (transfer : Transfer Success Failure Error Reply) : Prop
  | pending (running : transfer.stage ≠ .ended) (unfinished : finishes events = [])
      (silent : callbacks events = []) (posted : transfer.posted = none)
  | ended (now : Nat) (result : Except Error Reply) (isOver : transfer.stage = .ended)
      (finished : finishes events = [(now, result)])
      (one : callbacks events ++ transfer.posted.toList =
        if transfer.wants result then [result] else [])

theorem Reports.step (reports : Reports events transfer)
    (moves : Moves notSupported ioTimeout handshakeTimeout transfer event next) :
    Reports (events ++ event.toList) next := by
  -- An event which is neither the end nor a callback.
  have goesOn {event : Option (TransferEvent Error Reply)}
      {next : Transfer Success Failure Error Reply} (was : transfer.stage ≠ .ended)
      (finish : finishes event.toList = []) (callback : callbacks event.toList = [])
      (running : next.stage ≠ .ended) (posted : next.posted = transfer.posted) :
      Reports (events ++ event.toList) next := by
    cases reports with
    | pending _ unfinished silent nothing =>
        refine .pending running ?_ ?_ (posted.trans nothing)
        · rw [finishes_append, unfinished, finish, List.append_nil]
        · rw [callbacks_append, silent, callback, List.append_nil]
    | ended now result isOver _ _ => exact absurd isOver was
  cases moves with
  | ticked elapsed =>
      rw [Option.toList_none, List.append_nil]
      cases reports with
      | pending running unfinished silent posted => exact .pending running unfinished silent posted
      | ended now result isOver finished one => exact .ended now result isOver finished one
  | began spawned => exact goesOn (by simp [spawned]) rfl rfl (by simp) rfl
  | resolved resolving => exact goesOn (by simp [resolving]) rfl rfl (by simp) rfl
  | connectedPlain connecting _ => exact goesOn (by simp [connecting]) rfl rfl (by simp) rfl
  | connectedTls connecting _ => exact goesOn (by simp [connecting]) rfl rfl (by simp) rfl
  | went before after =>
      refine goesOn ?_ rfl rfl ?_ rfl
      · rcases before with before | before <;> simp [before]
      · rcases after with rfl | rfl <;> simp
  | finished result pending =>
      have running : transfer.stage ≠ .ended := by
        rintro isOver
        rw [isOver] at pending
        simp [TransferStage.onStream] at pending
      cases reports with
      | pending _ unfinished silent posted =>
          refine .ended transfer.now result rfl ?_ ?_
          · rw [finishes_append, unfinished]
            rfl
          · rw [callbacks_append, silent]
            change (if transfer.wants result then some result else none).toList = _
            split
            · rename_i wanted
              exact (if_pos wanted).symm
            · rename_i unwanted
              exact (if_neg unwanted).symm
      | ended now result isOver _ _ => exact absurd isOver running
  | @called result posted =>
      cases reports with
      | pending _ _ _ nothing => cases nothing.symm.trans posted
      | ended now last isOver finished one =>
          refine .ended now last isOver ?_ ?_
          · rw [finishes_append, finished]
            rfl
          · rw [posted] at one
            rw [callbacks_append]
            exact (List.append_nil _).trans one

/-- **A request is answered once**: in every run, no callback runs before the transfer
is over, and behind it the one for its result runs once, if there is one, and the other
never. -/
theorem one_callback
    (run : (system notSupported timedOut ioTimeout handshakeTimeout spec hasContext).Runs guard
      events transfer) :
    (transfer.stage ≠ .ended ∧ callbacks events = []) ∨
      ∃ now result, finishes events = [(now, result)] ∧
        callbacks events ++ transfer.posted.toList =
          if transfer.wants result then [result] else [] := by
  have reports : Reports events transfer := by
    induction run with
    | initial isInitial =>
        cases isInitial
        exact .pending (by simp) rfl rfl rfl
    | move _ stepped _ inductionHypothesis => exact inductionHypothesis.step (step_moves stepped)
  cases reports with
  | pending running _ silent _ => exact .inl ⟨running, silent⟩
  | ended now result _ finished one => exact .inr ⟨now, result, finished, one⟩

/-- A request over TLS to one of the addresses of a name, with both callbacks. -/
def overTls : RequestSpec Nat Nat where
  base := ⟨true, "a".toList, "443".toList, "a".toList⟩
  method := .get
  targetPath := "/".toList
  onSuccess := some 1
  onError := some 2

/-- The response arrives, and its callback runs. -/
theorem one_callback_success :
    ∃ reached, (system 0 1 30 30 overTls true).follow System.anyMove [] ⟨overTls, true, 0, .spawned,
        0, none⟩ [.spawn, .succeed, .succeed, .succeed, .succeed, .reply 200, .callback] =
          some reached ∧
      ((reached.2.stage ≠ .ended ∧ callbacks reached.1 = []) ∨
        ∃ now result, finishes reached.1 = [(now, result)] ∧
          callbacks reached.1 ++ reached.2.posted.toList =
            if reached.2.wants result then [result] else []) :=
  (System.Runs.initial rfl).reaches rfl fun run => one_callback run

/-! ## Time limits -/

/-- No operation on the stream is pending for longer than its timer allows. -/
def OnTime (slack : Nat) (transfer : Transfer Success Failure Error Reply) : Prop :=
  transfer.stage.onStream = true → transfer.now ≤ transfer.deadline + slack

/-- A time is within the limits of what is on the stream, with an extra for the handshake. -/
structure Within (https : Bool) (ioTimeout handshakeTimeout slack : Nat)
    (events : List (TransferEvent Error Reply)) (time : Nat) : Prop where
  resolved : ∀ start, .resolved start ∈ events →
    time ≤ start + ioTimeout + if https then slack + handshakeTimeout else 0
  connected : https = true → ∀ start, .connected start ∈ events → time ≤ start + handshakeTimeout

theorem Within.silent {https : Bool} {time : Nat} {event : TransferEvent Error Reply}
    (within : Within https ioTimeout handshakeTimeout slack events time)
    (notResolved : ∀ start, event ≠ .resolved start)
    (notConnected : ∀ start, event ≠ .connected start) :
    Within https ioTimeout handshakeTimeout slack (events ++ [event]) time where
  resolved start member := by
    rcases List.mem_append.mp member with earlier | isLast
    · exact within.resolved start earlier
    · exact absurd (List.mem_singleton.mp isLast).symm (notResolved start)
  connected isHttps start member := by
    rcases List.mem_append.mp member with earlier | isLast
    · exact within.connected isHttps start earlier
    · exact absurd (List.mem_singleton.mp isLast).symm (notConnected start)

/-- The timer of the stream goes by what was resolved and connected when. -/
structure Timed (ioTimeout handshakeTimeout slack : Nat)
    (events : List (TransferEvent Error Reply)) (transfer : Transfer Success Failure Error Reply) :
    Prop where
  unresolved : transfer.stage = .spawned ∨ transfer.stage = .resolving →
    ∀ start, .resolved start ∉ events
  unconnected : transfer.stage = .spawned ∨ transfer.stage = .resolving ∨
    transfer.stage = .connecting → ∀ start, .connected start ∉ events
  connecting : transfer.stage = .connecting → ∀ start, .resolved start ∈ events →
    transfer.deadline ≤ start + ioTimeout
  onStream : transfer.stage.onStream = true →
    Within transfer.spec.base.https ioTimeout handshakeTimeout slack events transfer.deadline
  finished : ∀ time result, .finished time result ∈ events →
    ∃ limit, Within transfer.spec.base.https ioTimeout handshakeTimeout slack events limit ∧
      time ≤ limit + slack

theorem Reports.unfinished (reports : Reports events transfer) (running : transfer.stage ≠ .ended)
    (time : Nat) (result : Except Error Reply) : .finished time result ∉ events := by
  intro member
  cases reports with
  | pending _ unfinished _ _ =>
      have listed : (time, result) ∈ finishes events := List.mem_filterMap.mpr ⟨_, member, rfl⟩
      rw [unfinished] at listed
      cases listed
  | ended _ _ isOver _ _ => exact running isOver

/-- What is not the last event was there before. -/
theorem mem_before {one last : TransferEvent Error Reply} (member : one ∈ events ++ [last])
    (other : one ≠ last) : one ∈ events :=
  (List.mem_append.mp member).resolve_right fun isLast => other (List.mem_singleton.mp isLast)

theorem Timed.step (timed : Timed ioTimeout handshakeTimeout slack events transfer)
    (reports : Reports events transfer) (onTime : transfer.OnTime slack)
    (moves : Moves notSupported ioTimeout handshakeTimeout transfer event next) :
    Timed ioTimeout handshakeTimeout slack (events ++ event.toList) next := by
  -- While the transfer is running, nothing is finished.
  have none {last : TransferEvent Error Reply} (running : transfer.stage ≠ .ended)
      (other : ∀ time result, .finished time result ≠ last) (time : Nat)
      (result : Except Error Reply) : .finished time result ∉ events ++ [last] := fun member =>
    reports.unfinished running time result (mem_before member (other time result))
  cases moves with
  | ticked elapsed =>
      rw [Option.toList_none, List.append_nil]
      exact ⟨timed.unresolved, timed.unconnected, timed.connecting, timed.onStream, timed.finished⟩
  | began spawned =>
      rw [Option.toList_none, List.append_nil]
      exact ⟨fun _ => timed.unresolved (.inl spawned), fun _ => timed.unconnected (.inl spawned),
        fun connecting => (by cases connecting), fun pending => (by cases pending), timed.finished⟩
  | resolved resolving =>
      have unconnected : ∀ start, .connected start ∉ events ++ [.resolved transfer.now] :=
        fun start member => timed.unconnected (.inr (.inl resolving)) start
          (mem_before member (by simp))
      have isNow {start : Nat} (member : .resolved start ∈ events ++ [.resolved transfer.now]) :
          start = transfer.now := by
        rcases List.mem_append.mp member with earlier | isLast
        · exact absurd earlier (timed.unresolved (.inr resolving) start)
        · cases List.mem_singleton.mp isLast
          rfl
      refine ⟨fun early => (by simp at early), fun _ => unconnected, fun _ start member => ?_,
        fun _ => ⟨fun start member => ?_, fun _ start member => absurd member (unconnected start)⟩,
        fun time result member => absurd member (none (by simp [resolving]) (by simp) time result)⟩
      · rw [isNow member]
      · rw [isNow member]
        exact Nat.le_add_right _ _
  | connectedPlain connecting plain =>
      have within := timed.onStream (by rw [connecting]; rfl)
      refine ⟨fun early => (by simp at early), fun early => (by simp at early),
        fun again => (by cases again), fun _ => ⟨fun start member => ?_, fun isHttps => ?_⟩,
        fun time result member => absurd member (none (by simp [connecting]) (by simp) time result)⟩
      · exact within.resolved start (mem_before member (by simp))
      · cases plain.symm.trans isHttps
  | connectedTls connecting https =>
      have late := onTime (by rw [connecting]; rfl)
      refine ⟨fun early => (by simp at early), fun early => (by simp at early),
        fun again => (by cases again), fun _ => ⟨fun start member => ?_, fun _ start member => ?_⟩,
        fun time result member => absurd member (none (by simp [connecting]) (by simp) time result)⟩
      · have limit := timed.connecting connecting start (mem_before member (by simp))
        change transfer.now + handshakeTimeout ≤
          start + ioTimeout + if transfer.spec.base.https then slack + handshakeTimeout else 0
        rw [if_pos https]
        omega
      · rcases List.mem_append.mp member with earlier | isLast
        · exact absurd earlier (timed.unconnected (.inr (.inr connecting)) start)
        · cases List.mem_singleton.mp isLast
          exact Nat.le_refl _
  | went before after =>
      rw [Option.toList_none, List.append_nil]
      refine ⟨fun early => ?_, fun early => ?_, fun connecting => ?_, fun _ => ?_, timed.finished⟩
      · rcases after with rfl | rfl <;> simp at early
      · rcases after with rfl | rfl <;> simp at early
      · rcases after with rfl | rfl <;> cases connecting
      · exact timed.onStream (by rcases before with before | before <;> (rw [before]; rfl))
  | finished result pending =>
      refine ⟨fun early => (by simp at early), fun early => (by simp at early),
        fun connecting => (by cases connecting), fun pending => (by cases pending),
        fun time last member => ?_⟩
      have running : transfer.stage ≠ .ended := by
        rintro isOver
        rw [isOver] at pending
        simp [TransferStage.onStream] at pending
      rcases List.mem_append.mp member with earlier | isLast
      · exact absurd earlier (reports.unfinished running time last)
      · cases List.mem_singleton.mp isLast
        rcases pending with onStream | early
        · exact ⟨_, (timed.onStream onStream).silent (by simp) (by simp), onTime onStream⟩
        · have early : transfer.stage = .spawned ∨ transfer.stage = .resolving :=
            early.elim .inr fun spawned => .inl spawned.1
          refine ⟨transfer.now, ⟨fun start member => ?_, fun _ start member => ?_⟩,
            Nat.le_add_right _ _⟩
          · exact absurd (mem_before member (by simp)) (timed.unresolved early start)
          · exact absurd (mem_before member (by simp))
              (timed.unconnected (early.imp_right .inl) start)
  | @called result posted =>
      have silent {time : Nat} (within : Within transfer.spec.base.https ioTimeout handshakeTimeout
          slack events time) : Within transfer.spec.base.https ioTimeout handshakeTimeout slack
            (events ++ [.called result]) time := within.silent (by simp) (by simp)
      refine ⟨fun early start member => ?_, fun early start member => ?_,
        fun connecting start member => ?_, fun onStream => silent (timed.onStream onStream),
        fun time last member => ?_⟩
      · exact timed.unresolved early start (mem_before member (by simp))
      · exact timed.unconnected early start (mem_before member (by simp))
      · exact timed.connecting connecting start (mem_before member (by simp))
      · obtain ⟨limit, within, atMost⟩ := timed.finished time last (mem_before member (by simp))
        exact ⟨limit, silent within, atMost⟩

theorem timed_runs
    (run : (system notSupported timedOut ioTimeout handshakeTimeout spec hasContext).Runs
      (fun _ transfer _ => transfer.OnTime slack) events transfer) :
    Timed ioTimeout handshakeTimeout slack events transfer ∧ Reports events transfer ∧
      transfer.spec = spec := by
  induction run with
  | initial isInitial =>
      cases isInitial
      refine ⟨⟨?_, ?_, ?_, ?_, ?_⟩, .pending (by simp) rfl rfl rfl, rfl⟩
      · exact fun _ _ member => by cases member
      · exact fun _ _ member => by cases member
      · exact fun connecting => by cases connecting
      · exact fun pending => by cases pending
      · exact fun _ _ member => by cases member
  | move _ stepped onTime inductionHypothesis =>
      obtain ⟨timed, reports, isSpec⟩ := inductionHypothesis
      have moves := step_moves stepped
      refine ⟨timed.step reports onTime moves, reports.step moves, ?_⟩
      cases moves <;> exact isSpec

/-- **Transfers end in time**: when the timer of the stream is at most `slack` late, a
transfer whose name is resolved is over after the I/O timeout, and over TLS after the
handshake timeout on top of it. Over TLS, all that follows the connect has only the time
of a handshake. -/
theorem transfer_ends_in_time
    (run : (system notSupported timedOut ioTimeout handshakeTimeout spec hasContext).Runs
      (fun _ transfer _ => transfer.OnTime slack) events transfer)
    (onTime : transfer.OnTime slack) :
    (∀ start, .resolved start ∈ events →
      (start + ioTimeout + (if spec.base.https then slack + handshakeTimeout else 0) + slack <
        transfer.now → transfer.stage = .ended) ∧
      ∀ time result, .finished time result ∈ events →
        time ≤ start + ioTimeout + (if spec.base.https then slack + handshakeTimeout else 0) +
          slack) ∧
    (spec.base.https = true → ∀ start, .connected start ∈ events →
      (start + handshakeTimeout + slack < transfer.now → transfer.stage = .ended) ∧
      ∀ time result, .finished time result ∈ events → time ≤ start + handshakeTimeout + slack) := by
  obtain ⟨timed, -, rfl⟩ := timed_runs run
  -- What is on the stream is within its limits.
  have ends (early : transfer.stage ≠ .spawned ∧ transfer.stage ≠ .resolving) :
      transfer.stage = .ended ∨ transfer.stage.onStream = true := by
    cases stage : transfer.stage <;> simp_all [TransferStage.onStream]
  constructor
  · intro start resolved
    have early : transfer.stage ≠ .spawned ∧ transfer.stage ≠ .resolving :=
      ⟨fun spawned => timed.unresolved (.inl spawned) start resolved,
        fun resolving => timed.unresolved (.inr resolving) start resolved⟩
    refine ⟨fun late => ?_, fun time result finished => ?_⟩
    · refine (ends early).resolve_right fun onStream => ?_
      have limit := (timed.onStream onStream).resolved start resolved
      have := onTime onStream
      omega
    · obtain ⟨limit, within, atMost⟩ := timed.finished time result finished
      have := within.resolved start resolved
      omega
  · intro https start connected
    have early : transfer.stage ≠ .spawned ∧ transfer.stage ≠ .resolving :=
      ⟨fun spawned => timed.unconnected (.inl spawned) start connected,
        fun resolving => timed.unconnected (.inr (.inl resolving)) start connected⟩
    refine ⟨fun late => ?_, fun time result finished => ?_⟩
    · refine (ends early).resolve_right fun onStream => ?_
      have limit := (timed.onStream onStream).connected https start connected
      have := onTime onStream
      omega
    · obtain ⟨limit, within, atMost⟩ := timed.finished time result finished
      have := within.connected https start connected
      omega

instance (transfer : Transfer Success Failure Error Reply) : Decidable (transfer.OnTime slack) :=
  inferInstanceAs (Decidable (transfer.stage.onStream = true → _))

/-- A server which does not answer. -/
theorem transfer_ends_in_time_unanswered :
    ∃ reached, (system 0 1 30 20 overTls true).follow (fun _ transfer _ => transfer.OnTime 1) []
        (⟨overTls, true, 0, .spawned, 0, none⟩ : Transfer Nat Nat Nat Nat) [.spawn, .tick 5,
          .succeed, .tick 4, .succeed, .succeed, .succeed, .tick 20, .expire] = some reached ∧
      ∀ time result, .finished time result ∈ reached.1 → time ≤ 9 + 20 + 1 := by
  refine (System.Runs.initial rfl).reaches rfl fun run => ?_
  have ends := transfer_ends_in_time run (fun onStream => by cases onStream)
  exact (ends.2 rfl 9 (by simp)).2

end Transfer

end Foxhttp.Client
