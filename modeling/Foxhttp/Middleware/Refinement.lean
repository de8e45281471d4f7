import Foxhttp.Middleware.Ledger

/-!
# The machine keeps the position ledger

Each function of the chain gets one statement of what it books: nothing, or one
event which the ledger allows and whose effect on the ledger is the effect of
the function on the chain. Together they make the machine a refinement of the
ledger, and everything proved about ledger traces holds of every run.
-/

namespace Foxhttp.Middleware

open Foxhttp.Library

variable {γ : Type} (program : Program γ)

/-- The exchange leaves its thread in the rest of `try_finish_run`, with the
completion it reports. -/
def Event.LeadsTo (control : Control γ) : Event → Prop
  | .finished call completion => ∃ after, control = .finishing .cancelGlobal call completion after
  | _ => True

/-- A move books its event, seen from what its own thread was in the middle of. -/
def Booked (chain : Chain γ) (unsettled : Unsettled) (move : Move γ) : Prop :=
  match move.event with
  | none => move.chain.ledger move.thread.unsettled = chain.ledger unsettled
  | some event =>
      (chain.ledger unsettled).Enabled event ∧
        move.chain.ledger move.thread.unsettled = (chain.ledger unsettled).apply event ∧
        event.LeadsTo move.thread.control

/-- A thread with this stack, in the middle of finishing no run. -/
def unsettledOn (stack : List (Frame γ)) : Unsettled where
  evaluating := evaluatingOn stack
  finishing _ := 0

theorem unsettled_of_idle {control : Control γ} (idle : control.finishes? = none)
    (stack : List (Frame γ)) : Thread.unsettled ⟨control, stack⟩ = unsettledOn stack := by
  simp [Thread.unsettled, unsettledOn, idle]

/-- An activation outside `should_execute` is no unsettled step. -/
theorem evaluatingOn_cons (frame : Frame γ) (stack : List (Frame γ))
    (quiet : ∀ call position, frame.selects call position = false) :
    evaluatingOn (frame :: stack) = evaluatingOn stack := by
  funext call position
  simp [evaluatingOn, quiet]

theorem unsettledOn_cons (frame : Frame γ) (stack : List (Frame γ))
    (quiet : ∀ call position, frame.selects call position = false) :
    unsettledOn (frame :: stack) = unsettledOn stack := by
  rw [unsettledOn, evaluatingOn_cons frame stack quiet]
  rfl

section Ledger

variable (chain : Chain γ) (stack : List (Frame γ)) (call : CallId) (position : Nat)

/-- An activation inside `should_execute` is one more unsettled step. -/
theorem ledger_select (frame : Frame γ)
    (selects : ∀ other index, frame.selects other index = (call == other && position == index)) :
    chain.ledger (unsettledOn (frame :: stack)) =
      (chain.ledger (unsettledOn stack)).countAt call position (· + 1) := by
  refine Ledger.ext rfl rfl rfl rfl ?_ rfl
  funext other index
  simp only [Chain.ledger, unsettledOn, evaluatingOn, List.countP_cons, selects, Ledger.countAt,
    Bool.and_eq_true, beq_iff_eq]
  by_cases same : other = call ∧ index = position
  · obtain ⟨rfl, rfl⟩ := same
    simp
  · rw [if_neg same, if_neg fun equal => same ⟨equal.1.symm, equal.2.symm⟩, Nat.add_zero]

/-- Settling a step undoes the count its claim added. -/
theorem Ledger.countAt_pred_succ (ledger : Ledger) :
    (ledger.countAt call position (· + 1)).countAt call position (· - 1) = ledger := by
  refine Ledger.ext rfl rfl rfl rfl ?_ rfl
  funext other index
  by_cases same : other = call ∧ index = position
  · obtain ⟨rfl, rfl⟩ := same
    simp [Ledger.countAt]
  · simp only [Ledger.countAt, if_neg same]

/-- A position with an unsettled step on the stack can be settled. -/
theorem Ledger.countAt_pos (ledger : Ledger) :
    0 < (ledger.countAt call position (· + 1)).evaluating call position := by
  simp [Ledger.countAt]

theorem ledger_markTimedOut (unsettled : Unsettled) :
    (markTimedOut chain call).ledger unsettled =
      (chain.ledger unsettled).modify call fun view => { view with timedOut := true } :=
  chain.ledger_modifyState unsettled call _ _ fun _ => rfl

theorem ledger_claimNext (unsettled : Unsettled) :
    (claimNext chain call).ledger unsettled =
      (chain.ledger unsettled).modify call
        fun view => { view with currentIndex := view.currentIndex + 1 } :=
  chain.ledger_modifyState unsettled call _ _ fun _ => rfl

/-- `cancel()` books the flag, and nothing for a call without a run. -/
theorem ledger_cancelRun (unsettled : Unsettled) :
    (chain.cancelRun call).ledger unsettled =
      (chain.ledger unsettled).modify call fun view => { view with cancelled := true } := by
  unfold Chain.cancelRun
  split
  · rename_i absent
    refine Ledger.ext ?_ rfl rfl rfl rfl rfl
    funext other
    by_cases same : other = call
    · subst same
      simp [Chain.ledger, Ledger.modify, absent]
    · simp [Chain.ledger, Ledger.modify, same]
  · rw [Chain.ledger_cancelTimer, Chain.ledger_cancelTimer]
    exact chain.ledger_modifyState unsettled call _ _ fun _ => rfl

/-- The two outcomes of the exchange: nothing happens, or an unfinished run is
finished. -/
theorem tryFinishRun_cases :
    chain.tryFinishRun call = (false, chain) ∨
      ∃ run, chain.run? call = some run ∧ run.state.finished = false ∧
        chain.tryFinishRun call =
          (true, chain.modifyState call fun state => { state with finished := true }) := by
  unfold Chain.tryFinishRun
  cases found : chain.run? call with
  | none => exact .inl rfl
  | some run =>
      cases finished : run.state.finished with
      | true => exact .inl (by simp [finished])
      | false => exact .inr ⟨run, rfl, finished, by simp [finished]⟩

end Ledger

section Functions

variable {program} {chain : Chain γ} {call : CallId} {stack : List (Frame γ)}

/-- A silent move books nothing when it keeps the books and the unsettled steps. -/
theorem Booked.silent {after : Chain γ} {control : Control γ} {next : List (Frame γ)}
    (idle : control.finishes? = none)
    (books : ∀ unsettled, after.ledger unsettled = chain.ledger unsettled)
    (steps : evaluatingOn next = evaluatingOn stack) :
    Booked chain (unsettledOn stack) ⟨none, after, ⟨control, next⟩⟩ := by
  simp only [Booked, books, unsettled_of_idle idle, unsettledOn, steps]

/-- An event of a thread which goes on finishing no run. -/
theorem Booked.reports {unsettled : Unsettled} {event : Event} {after : Chain γ}
    {control : Control γ} {next : List (Frame γ)} (idle : control.finishes? = none)
    (leads : event.LeadsTo control) (enabled : (chain.ledger unsettled).Enabled event)
    (books : after.ledger (unsettledOn next) = (chain.ledger unsettled).apply event) :
    Booked chain unsettled ⟨some event, after, ⟨control, next⟩⟩ := by
  simp only [Booked, unsettled_of_idle idle]
  exact ⟨enabled, books, leads⟩

/-- A note is an event which the ledger does not depend on. -/
theorem Booked.note {event : Event} {after : Chain γ} {control : Control γ}
    {next : List (Frame γ)}
    (idle : control.finishes? = none) (leads : event.LeadsTo control)
    (enabled : ∀ ledger : Ledger, ledger.Enabled event)
    (ignored : ∀ ledger : Ledger, ledger.apply event = ledger)
    (books : ∀ unsettled, after.ledger unsettled = chain.ledger unsettled)
    (steps : evaluatingOn next = evaluatingOn stack) :
    Booked chain (unsettledOn stack) ⟨some event, after, ⟨control, next⟩⟩ := by
  refine .reports idle leads (enabled _) ?_
  rw [books, ignored, unsettledOn, steps]
  rfl

/-- The exchange books the finish of its run, which is left to be unregistered. -/
theorem finished_booked {run : Run} {next : List (Frame γ)} (found : chain.run? call = some run)
    (down : run.state.finished = false) (completion : Option (MiddlewareResult × String))
    (after : Code γ) (steps : evaluatingOn next = evaluatingOn stack) :
    Booked chain (unsettledOn stack)
      ⟨some (.finished call completion),
        chain.modifyState call fun state => { state with finished := true },
        ⟨.finishing .cancelGlobal call completion after, next⟩⟩ := by
  have marked : (chain.modifyState call fun state => { state with finished := true }).ledger
      (Thread.unsettled ⟨.finishing .cancelGlobal call completion after, next⟩) = _ :=
    chain.ledger_modifyState _ call _ (fun view => { view with finished := true }) fun _ => rfl
  refine ⟨⟨run.view, by simp [Chain.ledger, found], down⟩, marked.trans ?_, after, rfl⟩
  refine Ledger.ext rfl rfl rfl rfl steps ?_
  funext other
  simp [Chain.ledger, Thread.unsettled, Control.finishes?, unsettledOn, Ledger.apply,
    Ledger.countFinishing, Ledger.modify, eq_comm]

theorem completeAsyncRun_booked (result : MiddlewareResult) (message : String) :
    Booked chain (unsettledOn stack)
      (completeAsyncRun program chain call result message stack) := by
  unfold completeAsyncRun
  rcases tryFinishRun_cases chain call with lost | ⟨run, found, down, won⟩
  · rw [lost]
    exact .silent rfl (fun _ => rfl) rfl
  · rw [won]
    simp only
    split <;> exact finished_booked found down _ _ rfl

/-- The rest of `try_finish_run` books that the run is unregistered. -/
theorem finishRun_booked (run : Run) (stage : FinishStage)
    (completion : Option (MiddlewareResult × String)) (after : Code γ) :
    Booked chain (Thread.unsettled ⟨.finishing stage call completion after, stack⟩)
      (finishRun chain run stage call completion after stack) := by
  cases stage with
  | cancelGlobal | cancelMiddleware => exact chain.ledger_cancelTimer _ _
  | unregister =>
      refine ⟨by simp [Ledger.Enabled, Chain.ledger, Thread.unsettled, Control.finishes?], ?_,
        trivial⟩
      refine Ledger.ext rfl rfl rfl rfl rfl ?_
      funext other
      by_cases same : other = call <;>
        simp [finishRun, Chain.ledger, Thread.unsettled, Control.finishes?, Ledger.apply,
          Ledger.countFinishing, same, eq_comm]

theorem leaveRun_booked (rest : Code γ) :
    Booked chain (unsettledOn stack) (leaveRun chain call rest stack) := by
  unfold leaveRun
  rcases tryFinishRun_cases chain call with lost | ⟨run, found, down, won⟩
  · rw [lost]
    exact .silent rfl (fun _ => rfl) rfl
  · rw [won]
    exact finished_booked found down _ _ rfl

theorem catchUnknown_booked (e : Exn) :
    Booked chain (unsettledOn stack) (catchUnknown program chain call e stack) := by
  unfold catchUnknown
  split
  · exact leaveRun_booked _
  · rcases tryFinishRun_cases chain call with lost | ⟨run, found, down, won⟩
    · rw [lost]
      exact .silent rfl (fun _ => rfl) rfl
    · rw [won]
      exact finished_booked found down _ _ (evaluatingOn_cons _ _ fun _ _ => rfl)

theorem handleErrorRun_booked (run : Run) (e : Exn) :
    Booked chain (unsettledOn stack) (handleErrorRun program chain call run e stack) := by
  unfold handleErrorRun
  split
  · exact .note rfl trivial (fun _ => trivial) (fun _ => rfl) (fun _ => rfl)
      (evaluatingOn_cons _ _ fun _ _ => rfl)
  · exact .note rfl trivial (fun _ => trivial) (fun _ => rfl) (fun _ => by simp) rfl

theorem handleTimeoutRun_booked (run : Run) :
    Booked chain (unsettledOn stack) (handleTimeoutRun program chain call run stack) := by
  unfold handleTimeoutRun
  split
  · exact .note rfl trivial (fun _ => trivial) (fun _ => rfl) (fun _ => rfl)
      (evaluatingOn_cons _ _ fun _ _ => rfl)
  · exact .note rfl trivial (fun _ => trivial) (fun _ => rfl) (fun _ => by simp) rfl

theorem answerTimeout_booked (run : Run) :
    Booked chain (unsettledOn stack) (answerTimeout program chain call run stack) := by
  unfold answerTimeout
  split
  · exact .note rfl trivial (fun _ => trivial) (fun _ => rfl) (fun _ => rfl) rfl
  · exact .note rfl trivial (fun _ => trivial) (fun _ => rfl) (fun _ => by simp) rfl

/-- What a test of the guard tells the ledger. -/
theorem open_of_stepClosed {run : Run} (opened : stepClosed chain run = false)
    (unsettled : Unsettled) : (chain.ledger unsettled).Open run.view := by
  simp only [stepClosed, Bool.or_eq_false_iff, decide_eq_false_iff_not, Nat.not_le] at opened
  obtain ⟨⟨⟨cancelled, timedOut⟩, paused⟩, within⟩ := opened
  exact ⟨cancelled, timedOut, paused, within⟩

/-- Claiming the next position of an open run, with the step now unsettled. -/
theorem claim_booked {run : Run} {control : Control γ} {frame : Frame γ}
    (idle : control.finishes? = none) (found : chain.run? call = some run)
    (opened : stepClosed chain run = false)
    (selects : ∀ other index, frame.selects other index =
      (call == other && run.state.currentIndex == index)) :
    Booked chain (unsettledOn stack)
      ⟨some (.claimed call run.state.currentIndex), claimNext chain call,
        ⟨control, frame :: stack⟩⟩ := by
  refine .reports idle trivial
    ⟨run.view, by simp [Chain.ledger, found], open_of_stepClosed opened _, rfl⟩ ?_
  rw [ledger_select _ _ _ _ _ selects, ledger_claimNext]
  rfl

/-- The mark of a timeout found at a step. -/
theorem timedOut_booked {run : Run} {control : Control γ} (timer : Option TimerId)
    (idle : control.finishes? = none) (found : chain.run? call = some run)
    (fresh : run.state.timedOut = false) :
    Booked chain (unsettledOn stack)
      ⟨some (.timedOut call timer), markTimedOut chain call, ⟨control, stack⟩⟩ :=
  .reports idle trivial ⟨run.view, by simp [Chain.ledger, found], fresh⟩
    (ledger_markTimedOut chain call _)

theorem timedOut_of_stepClosed {run : Run} (opened : stepClosed chain run = false) :
    run.state.timedOut = false :=
  (open_of_stepClosed opened ⟨fun _ _ => 0, fun _ => 0⟩).2.1

theorem executeNextAsyncStep_booked {run : Run} {move : Move γ}
    (found : chain.run? call = some run)
    (moved : executeNextAsyncStep program chain call run stack = some move) :
    Booked chain (unsettledOn stack) move := by
  unfold executeNextAsyncStep at moved
  split at moved
  · cases moved
    exact .silent rfl (fun _ => rfl) rfl
  · rename_i opened
    have opened : stepClosed chain run = false := by simpa using opened
    split at moved
    · cases moved
      exact timedOut_booked none rfl found (timedOut_of_stepClosed opened)
    · split at moved
      · cases moved
      · cases moved
        exact claim_booked rfl found opened fun _ _ => rfl

theorem executeNextSync_booked {run : Run} {move : Move γ}
    (found : chain.run? call = some run)
    (moved : executeNextSync program chain call run stack = some move) :
    Booked chain (unsettledOn stack) move := by
  unfold executeNextSync at moved
  split at moved
  · cases moved
    exact .silent rfl (fun _ => rfl) rfl
  · rename_i opened
    have opened : stepClosed chain run = false := by simpa using opened
    split at moved
    · cases moved
      exact timedOut_booked none rfl found (timedOut_of_stepClosed opened)
    · split at moved
      · cases moved
      · cases moved
        exact claim_booked rfl found opened fun _ _ => rfl

/-- A verdict settles the step whose activation it returns to. -/
theorem settle_booked {position : Nat} {event : Event} {after : Chain γ} {control : Control γ}
    {next : List (Frame γ)} {frame : Frame γ} (idle : control.finishes? = none)
    (leads : event.LeadsTo control)
    (enabled : ∀ ledger : Ledger, 0 < ledger.evaluating call position → ledger.Enabled event)
    (settles : ∀ ledger : Ledger, ledger.apply event = ledger.countAt call position (· - 1))
    (selects : ∀ other index, frame.selects other index =
      (call == other && position == index))
    (books : ∀ unsettled, after.ledger unsettled = chain.ledger unsettled)
    (steps : evaluatingOn next = evaluatingOn stack) :
    Booked chain (unsettledOn (frame :: stack)) ⟨some event, after, ⟨control, next⟩⟩ := by
  refine .reports idle leads ?_ ?_
  · rw [ledger_select chain stack call position frame selects]
    exact enabled _ (Ledger.countAt_pos call position _)
  · rw [ledger_select chain stack call position frame selects, settles, Ledger.countAt_pred_succ,
      books, unsettledOn, steps]
    rfl

theorem startAsyncBody_booked (position : Nat) (mw : MiddlewareId) :
    Booked chain (unsettledOn (.asyncSelect call position :: stack))
      (startAsyncBody program chain call position mw stack) := by
  have quiet : ∀ tail : List (Frame γ), evaluatingOn (.asyncBody call position :: tail) =
      evaluatingOn tail := fun tail => evaluatingOn_cons _ _ fun _ _ => rfl
  unfold startAsyncBody
  simp only
  split
  · exact settle_booked rfl trivial (fun _ positive => positive) (fun _ => rfl) (fun _ _ => rfl)
      (fun _ => by simp) (quiet stack)
  · exact settle_booked rfl trivial (fun _ positive => positive) (fun _ => rfl) (fun _ _ => rfl)
      (fun _ => by simp) ((evaluatingOn_cons _ _ fun _ _ => rfl).trans (quiet stack))

theorem startSyncBody_booked (position : Nat) (mw : MiddlewareId) :
    Booked chain (unsettledOn (.syncSelect call position :: stack))
      (startSyncBody program chain call position mw stack) :=
  settle_booked rfl trivial (fun _ positive => positive) (fun _ => rfl) (fun _ _ => rfl)
    (fun _ => by simp) (evaluatingOn_cons _ _ fun _ _ => rfl)

theorem asyncCallback_booked (handle : Handle) (run : Run) (result : MiddlewareResult)
    (message : String) :
    Booked chain (unsettledOn stack) (asyncCallback chain handle run result message stack) := by
  refine .note ?_ trivial (fun _ => trivial) (fun _ => rfl) (fun _ => by simp) rfl
  cases result <;> rfl

theorem next_booked (handle : Handle) (run : Run) :
    Booked chain (unsettledOn stack) (next chain handle run stack) := by
  refine .note ?_ trivial (fun _ => trivial) (fun _ => rfl) (fun _ => by simp) rfl
  cases run.mode <;> rfl

/-- The runs of a chain which has entered one more call. -/
theorem run?_append (entry : Call γ) (other : CallId) :
    ({ chain with calls := chain.calls ++ [entry] } : Chain γ).run? other =
      if other = chain.calls.length then entry.run else chain.run? other := by
  unfold Chain.run?
  rcases Nat.lt_trichotomy other chain.calls.length with earlier | rfl | later
  · rw [List.getElem?_append_left earlier, if_neg (Nat.ne_of_lt earlier)]
  · simp
  · have beyond : chain.calls.length + 1 ≤ other := later
    rw [if_neg (Nat.ne_of_gt later), List.getElem?_eq_none (by simpa using beyond),
      List.getElem?_eq_none (Nat.le_of_lt later)]

/-- A call on an empty chain enters no run. -/
theorem ledger_enter_empty (mode : Mode) (ctx : γ) (res : Response)
    (callback : Option CallbackId) (empty : chain.settings.mws.isEmpty = true)
    (completion : Option (MiddlewareResult × String)) (unsettled : Unsettled) :
    (chain.enter mode ctx res callback).ledger unsettled =
      (chain.ledger unsettled).apply (.passed chain.calls.length completion) := by
  refine Ledger.ext ?_ (by simp [Chain.enter, Chain.ledger, Ledger.apply]) rfl rfl rfl rfl
  funext other
  simp only [Chain.ledger, Chain.enter, run?_append, empty, if_true, Ledger.apply]
  split
  · rename_i same
    subst same
    simp [Chain.run?]
  · rfl

/-- A call on a chain with middlewares enters and registers its run. -/
theorem ledger_enter_run (mode : Mode) (ctx : γ) (res : Response)
    (callback : Option CallbackId) (full : chain.settings.mws.isEmpty = false)
    (unsettled : Unsettled) :
    ((chain.enter mode ctx res callback).registerRun chain.calls.length).ledger unsettled =
      (chain.ledger unsettled).apply
        (.registered chain.calls.length mode chain.settings.mws.length) := by
  refine Ledger.ext ?_ (by simp [Chain.enter, Chain.registerRun, Chain.ledger, Ledger.apply])
    rfl rfl rfl rfl
  funext other
  simp only [Chain.ledger, Chain.enter, full, Ledger.apply]
  change Option.map Run.view (Chain.run? { chain with calls := chain.calls ++ [_] } other) = _
  rw [run?_append]
  split <;> rfl

theorem registered_enabled (mode : Mode) (full : chain.settings.mws.isEmpty = false)
    (unsettled : Unsettled) :
    (chain.ledger unsettled).Enabled
      (.registered chain.calls.length mode chain.settings.mws.length) := by
  refine ⟨rfl, ?_⟩
  cases settings : chain.settings.mws with
  | nil => simp [settings] at full
  | cons mw rest => simp

theorem execute_booked (ctx : γ) (res : Response) :
    Booked chain (unsettledOn stack) (execute chain ctx res stack) := by
  unfold execute
  split
  · rename_i empty
    exact ⟨rfl, ledger_enter_empty _ _ _ _ empty _ _, trivial⟩
  · rename_i full
    have full : chain.settings.mws.isEmpty = false := by simpa using full
    refine ⟨registered_enabled _ full _, ?_, trivial⟩
    rw [← unsettledOn_cons (.executeTry chain.calls.length) stack fun _ _ => rfl]
    exact ledger_enter_run _ _ _ _ full _

theorem executeAsync_booked (ctx : γ) (res : Response) (callback : Option CallbackId) :
    Booked chain (unsettledOn stack) (executeAsync program chain ctx res callback stack) := by
  unfold executeAsync
  split
  · rename_i empty
    split
    · exact ⟨rfl, ledger_enter_empty _ _ _ _ empty _ _, trivial⟩
    · exact ⟨rfl, ledger_enter_empty _ _ _ _ empty _ _, trivial⟩
  · rename_i full
    have full : chain.settings.mws.isEmpty = false := by simpa using full
    refine ⟨registered_enabled _ full _, ?_, trivial⟩
    rw [← unsettledOn_cons (.executeAsyncTry chain.calls.length) stack fun _ _ => rfl,
      Chain.ledger_setupGlobalTimeout]
    exact ledger_enter_run _ _ _ _ full _

theorem invoke_booked {operation : Operation γ} {move : Move γ}
    (moved : invoke program chain stack operation = some move) :
    Booked chain (unsettledOn stack) move := by
  cases operation with
  | next handle =>
      simp only [invoke] at moved
      split at moved
      · cases moved
      · split at moved
        · cases moved
          exact next_booked _ _
        · cases moved
  | callback handle result message =>
      simp only [invoke] at moved
      split at moved
      · cases moved
      · split at moved
        · cases moved
          exact .silent rfl (fun _ => rfl) rfl
        · cases moved
  | execute ctx res =>
      cases moved
      exact execute_booked _ _
  | executeAsync ctx res callback =>
      cases moved
      exact executeAsync_booked _ _ _
  | cancel =>
      cases moved
      exact .silent rfl (fun _ => rfl) rfl
  | pause =>
      cases moved
      exact ⟨trivial, rfl, trivial⟩
  | resume =>
      cases moved
      exact ⟨trivial, rfl, trivial⟩
  | configure settings =>
      cases moved
      exact .silent rfl (fun _ => rfl) rfl

theorem runCode_booked {code : Code γ} {move : Move γ}
    (moved : runCode program chain stack code = some move) :
    Booked chain (unsettledOn stack) move := by
  cases code with
  | ret verdict =>
      cases moved
      exact .silent rfl (fun _ => rfl) rfl
  | throw e =>
      cases moved
      exact .silent rfl (fun _ => rfl) rfl
  | access other write rest =>
      simp only [runCode] at moved
      split at moved
      · cases moved
      · cases moved
        exact .silent rfl (fun _ => by simp) rfl
  | invoke operation rest =>
      rw [← unsettledOn_cons (.await rest) stack fun _ _ => rfl]
      exact invoke_booked moved

theorem timerHandler_booked {timer : TimerId} {move : Move γ}
    (moved : timerHandler chain timer stack = some move) :
    Booked chain (unsettledOn stack) move := by
  unfold timerHandler at moved
  split at moved
  · cases moved
  · split at moved
    · cases moved
    · rename_i run found
      split at moved
      · cases moved
        exact .note rfl trivial (fun _ => trivial) (fun _ => rfl) (fun _ => rfl) rfl
      · rename_i unmarked
        have unmarked : run.state.timedOut = false := by simpa using unmarked
        split at moved
        · cases moved
          exact timedOut_booked _ rfl found unmarked
        · cases moved
          have marked : Booked chain (unsettledOn stack)
              ⟨_, _, ⟨.returned false, stack⟩⟩ := timedOut_booked (some timer) rfl found unmarked
          exact ⟨marked.1, by rw [Chain.ledger_countTimeout]; exact marked.2.1, trivial⟩

/-- A silent return to, or unwinding of, an activation outside `should_execute`. -/
theorem Booked.pop {after : Chain γ} {control : Control γ} {frame : Frame γ}
    (idle : control.finishes? = none) (quiet : ∀ other index, frame.selects other index = false)
    (books : ∀ unsettled, after.ledger unsettled = chain.ledger unsettled) :
    Booked chain (unsettledOn (frame :: stack)) ⟨none, after, ⟨control, stack⟩⟩ :=
  .silent idle books (evaluatingOn_cons frame stack quiet).symm

/-- A move booked below an activation outside `should_execute` is booked from it. -/
theorem Booked.below {frame : Frame γ} {move : Move γ}
    (quiet : ∀ other index, frame.selects other index = false)
    (booked : Booked chain (unsettledOn stack) move) :
    Booked chain (unsettledOn (frame :: stack)) move := by
  rwa [unsettledOn_cons frame stack quiet]

theorem resume_booked {verdict : Bool} {frame : Frame γ} {move : Move γ}
    (moved : resume program chain verdict stack frame = some move) :
    Booked chain (unsettledOn (frame :: stack)) move := by
  cases frame with
  | asyncSelect other position =>
      simp only [resume] at moved
      split at moved
      · split at moved
        · cases moved
        · split at moved
          · cases moved
          · cases moved
            exact startAsyncBody_booked _ _
      · cases moved
        exact settle_booked rfl trivial (fun _ positive => positive) (fun _ => rfl) (fun _ _ => rfl)
          (fun _ => rfl) rfl
  | syncSelect other position =>
      simp only [resume] at moved
      split at moved
      · split at moved
        · cases moved
        · split at moved
          · cases moved
          · cases moved
            exact startSyncBody_booked _ _
      · cases moved
        exact settle_booked rfl trivial (fun _ positive => positive) (fun _ => rfl) (fun _ _ => rfl)
          (fun _ => rfl) rfl
  | adapterBody handle =>
      cases moved
      exact .below (fun _ _ => rfl)
        (.silent rfl (fun _ => rfl) (evaluatingOn_cons _ _ fun _ _ => rfl))
  | syncBody other position =>
      simp only [resume] at moved
      split at moved
      · cases moved
      · cases moved
        exact .pop rfl (fun _ _ => rfl) fun _ => by simp
  | executeTry other =>
      cases moved
      exact .below (fun _ _ => rfl) (leaveRun_booked _)
  | timerDone timer =>
      simp only [resume] at moved
      split at moved
      · cases moved
        exact .pop rfl (fun _ _ => rfl) fun _ => by simp
      · cases moved
  | await _ | asyncBody _ _ | adapterCallback _ | errorHandled _ _ | timeoutHandled _
  | executeAsyncTry _ | rethrow _ =>
      cases moved
      exact .pop rfl (fun _ _ => rfl) fun _ => rfl

theorem unwind_booked {e : Exn} {frame : Frame γ} {move : Move γ}
    (moved : unwind program chain e stack frame = some move) :
    Booked chain (unsettledOn (frame :: stack)) move := by
  cases frame with
  | asyncSelect other position =>
      cases moved
      exact settle_booked rfl trivial (fun _ positive => positive) (fun _ => rfl) (fun _ _ => rfl)
        (fun _ => rfl) rfl
  | syncSelect other position =>
      cases moved
      exact settle_booked rfl trivial (fun _ positive => positive) (fun _ => rfl) (fun _ _ => rfl)
        (fun _ => rfl) rfl
  | asyncBody other position =>
      simp only [unwind] at moved
      split at moved
      · cases moved
        exact .pop rfl (fun _ _ => rfl) fun _ => by simp
      · cases moved
        exact .pop rfl (fun _ _ => rfl) fun _ => rfl
      · cases moved
  | adapterBody handle | adapterCallback handle =>
      simp only [unwind] at moved
      split at moved <;> cases moved <;> exact .pop rfl (fun _ _ => rfl) fun _ => rfl
  | executeAsyncTry other =>
      simp only [unwind] at moved
      split at moved
      · cases moved
        exact .pop rfl (fun _ _ => rfl) fun _ => rfl
      · cases moved
        exact .below (fun _ _ => rfl) (catchUnknown_booked _)
  | syncBody other position =>
      simp only [unwind] at moved
      split at moved
      · split at moved
        · cases moved
          exact .below (fun _ _ => rfl)
            (.note rfl trivial (fun _ => trivial) (fun _ => rfl) (fun _ => by simp) rfl)
        · cases moved
          exact .below (fun _ _ => rfl)
            (.note rfl trivial (fun _ => trivial) (fun _ => rfl) (fun _ => by simp) rfl)
      · cases moved
        exact .pop rfl (fun _ _ => rfl) fun _ => rfl
      · cases moved
  | executeTry other =>
      cases moved
      exact .below (fun _ _ => rfl) (leaveRun_booked _)
  | timerDone timer =>
      simp only [unwind] at moved
      split at moved
      · cases moved
        exact .pop rfl (fun _ _ => rfl) fun _ => by simp
      · cases moved
  | await _ | errorHandled _ _ | timeoutHandled _ | rethrow _ =>
      cases moved
      exact .pop rfl (fun _ _ => rfl) fun _ => rfl

/-- Every move of a thread books nothing, or one event which the ledger allows. -/
theorem advance_booked {thread : Thread γ} {move : Move γ}
    (moved : advance program chain thread = some move) : Booked chain thread.unsettled move := by
  obtain ⟨control, stack⟩ := thread
  cases control with
  | code code => exact runCode_booked moved
  | asyncCallback handle result message =>
      obtain ⟨run, -, rfl⟩ := Option.map_eq_some_iff.mp moved
      exact asyncCallback_booked _ _ _ _
  | asyncStep other =>
      obtain ⟨run, found, moved⟩ := Option.bind_eq_some_iff.mp moved
      exact executeNextAsyncStep_booked found moved
  | syncStep other =>
      obtain ⟨run, found, moved⟩ := Option.bind_eq_some_iff.mp moved
      exact executeNextSync_booked found moved
  | handleError other e =>
      obtain ⟨run, -, rfl⟩ := Option.map_eq_some_iff.mp moved
      exact handleErrorRun_booked _ _
  | handleTimeout other =>
      obtain ⟨run, -, rfl⟩ := Option.map_eq_some_iff.mp moved
      exact handleTimeoutRun_booked _
  | answerTimeout other =>
      obtain ⟨run, -, rfl⟩ := Option.map_eq_some_iff.mp moved
      exact answerTimeout_booked _
  | completeRun other result message =>
      cases moved
      exact completeAsyncRun_booked _ _
  | finishing stage other completion after =>
      obtain ⟨run, -, rfl⟩ := Option.map_eq_some_iff.mp moved
      exact finishRun_booked run stage completion after
  | timerHandler timer => exact timerHandler_booked moved
  | cancelling calls =>
      cases calls with
      | nil =>
          cases moved
          exact .silent rfl (fun _ => rfl) rfl
      | cons other rest =>
          cases moved
          exact ⟨trivial, ledger_cancelRun chain other _, trivial⟩
  | returned verdict =>
      cases stack with
      | nil => cases moved
      | cons frame rest => exact resume_booked moved
  | thrown e =>
      cases stack with
      | nil => cases moved
      | cons frame rest => exact unwind_booked moved

end Functions

/-! ## From one thread to all of them -/

/-- A thread's move changes how many threads have a property. -/
theorem countP_set {threads : List (Thread γ)} {index : Nat} {thread : Thread γ}
    (found : threads[index]? = some thread) (after : Thread γ) (test : Thread γ → Bool) :
    (threads.set index after).countP test + (if test thread then 1 else 0) =
      threads.countP test + if test after then 1 else 0 := by
  obtain ⟨within, rfl⟩ := List.getElem?_eq_some_iff.mp found
  have counted : (if test threads[index] then 1 else 0) ≤ threads.countP test := by
    split
    · rename_i passes
      exact List.countP_pos_iff.mpr ⟨_, List.getElem_mem within, passes⟩
    · exact Nat.zero_le _
  rw [List.countP_set within]
  omega

/-- What the threads of a world are in the middle of is what one of them is, and
the others are. -/
theorem unsettled_set {world : World γ} {index : Nat} {thread : Thread γ}
    (found : world.threads[index]? = some thread) :
    ∃ others : Unsettled, ∀ (chain : Chain γ) (after : Thread γ),
      World.ledger ⟨chain, world.threads.set index after⟩ =
        (chain.ledger after.unsettled).plus others := by
  obtain ⟨within, rfl⟩ := List.getElem?_eq_some_iff.mp found
  let waiting (threads : List (Thread γ)) : World γ := ⟨world.chain, threads⟩
  let before := waiting (world.threads.take index)
  let behind := waiting (world.threads.drop (index + 1))
  refine ⟨⟨fun call position => before.evaluating call position + behind.evaluating call position,
    fun call => before.finishing call + behind.finishing call⟩, fun chain after => ?_⟩
  refine Ledger.ext rfl rfl rfl rfl ?_ ?_
  · funext call position
    simp only [World.ledger, World.evaluating, Chain.ledger, Ledger.plus, Thread.unsettled, before,
      behind, waiting, evaluatingOn, List.set_eq_take_append_cons_drop, within, if_true,
      List.flatMap_append, List.flatMap_cons, List.countP_append]
    omega
  · funext call
    simp only [World.ledger, World.finishing, Chain.ledger, Ledger.plus, Thread.unsettled, before,
      behind, waiting, List.set_eq_take_append_cons_drop, within, if_true, List.countP_append,
      List.countP_cons, decide_eq_true_eq]
    omega

/-- A world as one thread's view of it with the others' unsettled steps. -/
theorem ledger_thread {world : World γ} {index : Nat} {thread : Thread γ}
    (found : world.threads[index]? = some thread) {others : Unsettled}
    (split : ∀ (chain : Chain γ) (after : Thread γ),
      World.ledger ⟨chain, world.threads.set index after⟩ =
        (chain.ledger after.unsettled).plus others) :
    world.ledger = (world.chain.ledger thread.unsettled).plus others := by
  obtain ⟨within, rfl⟩ := List.getElem?_eq_some_iff.mp found
  rw [← split world.chain world.threads[index], List.set_getElem_self]

/-- A new thread is in the middle of nothing. -/
theorem ledger_spawn (world : World γ) (chain : Chain γ) (thread : Thread γ)
    (books : ∀ unsettled, chain.ledger unsettled = world.chain.ledger unsettled)
    (idle : thread.control.finishes? = none)
    (steps : ∀ call position, evaluatingOn thread.stack call position = 0) :
    World.ledger ⟨chain, world.threads ++ [thread]⟩ = world.ledger := by
  have same : World.evaluating ⟨chain, world.threads ++ [thread]⟩ = world.evaluating := by
    funext call position
    have none := steps call position
    simp only [World.evaluating, evaluatingOn, List.flatMap_append, List.flatMap_cons,
      List.flatMap_nil, List.append_nil, List.countP_append] at none ⊢
    omega
  have still : World.finishing ⟨chain, world.threads ++ [thread]⟩ = world.finishing := by
    funext call
    simp [World.finishing, idle]
  simp only [World.ledger, same, still, books]

/-- A move of a world which is not a thread's keeps the books silently. -/
theorem step_environment {world after : World γ} {choice : Choice γ} {event : Option Event}
    (moved : step program world choice = some (event, after))
    (environment : ∀ index, choice ≠ .thread index) :
    event = none ∧ after.ledger = world.ledger := by
  cases choice with
  | thread index => exact absurd rfl (environment index)
  | spawn code =>
      cases moved
      exact ⟨rfl, ledger_spawn world world.chain _ (fun _ => rfl) rfl fun _ _ => rfl⟩
  | tick duration =>
      cases moved
      exact ⟨rfl, rfl⟩
  | expire timer =>
      simp only [step] at moved
      split at moved
      · split at moved
        · cases moved
          exact ⟨rfl, rfl⟩
        · cases moved
      · cases moved
  | dispatch timer alive =>
      simp only [step] at moved
      split at moved
      · split at moved
        · cases moved
          exact ⟨rfl, ledger_spawn world _ _ (fun _ => by simp) rfl fun _ _ => rfl⟩
        · split at moved
          · cases moved
          · cases moved
            exact ⟨rfl, rfl⟩
      · cases moved

/-- A move of a thread, taken apart. -/
theorem step_thread {world after : World γ} {index : Nat} {event : Option Event}
    (moved : step program world (.thread index) = some (event, after)) :
    ∃ thread move, world.threads[index]? = some thread ∧
      advance program world.chain thread = some move ∧ event = move.event ∧
      after = ⟨move.chain, world.threads.set index move.thread⟩ := by
  simp only [step] at moved
  split at moved
  · cases moved
  · rename_i thread found
    split at moved
    · cases moved
    · rename_i move advanced
      cases moved
      exact ⟨thread, move, found, advanced, rfl, rfl⟩

/-- What reports an event is a move of a thread. -/
theorem step_reports {world after : World γ} {choice : Choice γ} {event : Event}
    (moved : step program world choice = some (some event, after)) :
    ∃ index thread move, choice = .thread index ∧ world.threads[index]? = some thread ∧
      advance program world.chain thread = some move ∧ move.event = some event ∧
      after = ⟨move.chain, world.threads.set index move.thread⟩ := by
  by_cases own : ∃ index, choice = .thread index
  · obtain ⟨index, rfl⟩ := own
    obtain ⟨thread, move, found, advanced, reported, rfl⟩ := step_thread program moved
    exact ⟨index, thread, move, rfl, found, advanced, reported.symm, rfl⟩
  · have silent := (step_environment program moved (not_exists.mp own)).1
    cases silent

/-- **The machine refines the position ledger.** -/
theorem refines : Refinement (system program) ledgerSystem World.ledger where
  initial := by
    rintro world ⟨settings, stats, now, rfl⟩
    exact ⟨fun _ => rfl, rfl, rfl, fun _ _ => rfl, fun _ => rfl⟩
  silent := by
    intro world choice after moved
    by_cases own : ∃ index, choice = .thread index
    · obtain ⟨index, rfl⟩ := own
      obtain ⟨thread, move, found, advanced, silent, rfl⟩ := step_thread program moved
      obtain ⟨others, split⟩ := unsettled_set found
      have booked := advance_booked advanced
      rw [Booked, ← silent] at booked
      rw [split, booked, ledger_thread found split]
    · exact (step_environment program moved (not_exists.mp own)).2
  event := by
    intro world choice event after moved
    obtain ⟨index, thread, move, rfl, found, advanced, reported, rfl⟩ := step_reports program moved
    obtain ⟨others, split⟩ := unsettled_set found
    have booked := advance_booked advanced
    rw [Booked, reported] at booked
    obtain ⟨enabled, books, -⟩ := booked
    rw [split, books, ledger_thread found split]
    exact ⟨enabled.plus others, (Ledger.apply_plus enabled others).symm⟩

section Run

variable {program : Program γ} {guard : System.Guard (World γ) Event} {events : List Event}
  {world : World γ}

/-- The reports of a run, under any guard, are a trace of the ledger. -/
theorem run_trace (run : (system program).Runs guard events world) :
    ledgerSystem.Trace (fun _ _ _ => True) events world.ledger :=
  (refines program).trace (fun _ _ _ _ => trivial) run

theorem run_entered (run : (system program).Runs guard events world) :
    Entered events world.ledger :=
  trace_entered (run_trace run)

end Run

/-! ## The moves of the environment -/

/-- A thread which was just begun: foreign code, or the handler of a timer. -/
def Thread.Begun (thread : Thread γ) : Prop :=
  (∃ code, thread = ⟨.code code, []⟩) ∨
    ∃ timer, thread = ⟨.timerHandler timer, [.timerDone timer]⟩

/-- A move which is no thread's reports nothing, leaves the runs and begins at
most one thread. -/
theorem environment_moves {program : Program γ} {world after : World γ} {choice : Choice γ}
    {event : Option Event} (moved : step program world choice = some (event, after))
    (environment : ∀ index, choice ≠ .thread index) :
    event = none ∧ after.chain.calls = world.chain.calls ∧
      (after.threads = world.threads ∨
        ∃ thread, after.threads = world.threads ++ [thread] ∧ thread.Begun) := by
  cases choice with
  | thread index => exact absurd rfl (environment index)
  | spawn code =>
      cases moved
      exact ⟨rfl, rfl, .inr ⟨_, rfl, .inl ⟨code, rfl⟩⟩⟩
  | tick duration =>
      cases moved
      exact ⟨rfl, rfl, .inl rfl⟩
  | expire timer =>
      simp only [step] at moved
      split at moved
      · split at moved
        · cases moved
          exact ⟨rfl, rfl, .inl rfl⟩
        · cases moved
      · cases moved
  | dispatch timer alive =>
      simp only [step] at moved
      split at moved
      · split at moved
        · cases moved
          exact ⟨rfl, rfl, .inr ⟨_, rfl, .inr ⟨timer, rfl⟩⟩⟩
        · split at moved
          · cases moved
          · cases moved
            exact ⟨rfl, rfl, .inl rfl⟩
      · cases moved

/-- A move leaves the threads which it is not of where they are. -/
theorem step_other {program : Program γ} {world after : World γ} {choice : Choice γ}
    {event : Option Event} (moved : step program world choice = some (event, after))
    {index : Nat} {thread : Thread γ} (found : world.threads[index]? = some thread)
    (different : choice ≠ .thread index) : after.threads[index]? = some thread := by
  by_cases own : ∃ place, choice = .thread place
  · obtain ⟨place, rfl⟩ := own
    obtain ⟨-, move, -, -, -, rfl⟩ := step_thread program moved
    have apart : place ≠ index := fun same => different (congrArg Choice.thread same)
    exact (List.getElem?_set_ne apart).trans found
  · obtain ⟨-, -, same | ⟨new, grown, -⟩⟩ := environment_moves moved (not_exists.mp own)
    · rwa [same]
    · have within := (List.getElem?_eq_some_iff.mp found).1
      rwa [grown, List.getElem?_append_left within]

end Foxhttp.Middleware
