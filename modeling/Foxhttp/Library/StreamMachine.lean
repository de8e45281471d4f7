/-!
# Machines fed in chunks

A `StreamMachine` receives its input in chunks. After each chunk it takes turns
until it is idle or a turn asks for more. `Feeds` is the run over a list of
chunks whose turns all meet a condition, and a `Lookahead` relates the states
of such a run to the machine which has received everything at once.
-/

namespace Foxhttp.Library

universe u v w

/-- A machine which receives chunks and takes turns. A turn says whether the
next one may follow; each such turn leaves less work, and after the others
there is nothing to do. -/
structure StreamMachine (State : Type u) (Symbol : Type v) where
  receive : State → List Symbol → State
  idle : State → Bool
  turn : State → State × Bool
  work : State → Nat
  works : ∀ {state next}, turn state = (next, true) → work next < work state
  settles : ∀ {state next}, turn state = (next, false) →
    idle next = true ∨ turn next = (next, false)

namespace StreamMachine

variable {State : Type u} {Symbol : Type v}

/-- Take turns until the machine is idle or a turn asks for more. -/
def drain (machine : StreamMachine State Symbol) (state : State) : State :=
  if machine.idle state then state
  else
    match _turned : machine.turn state with
    | (next, true) => machine.drain next
    | (next, false) => next
termination_by machine.work state
decreasing_by exact machine.works _turned

/-- Receive one chunk and take the turns it allows. -/
def feed (machine : StreamMachine State Symbol) (state : State) (chunk : List Symbol) : State :=
  machine.drain (machine.receive state chunk)

/-- Feed the chunks in order. -/
def feedAll (machine : StreamMachine State Symbol) (state : State) (chunks : List (List Symbol)) :
    State :=
  chunks.foldl machine.feed state

variable {machine : StreamMachine State Symbol}

/-- The machine has nothing to do before the next chunk. -/
def Rests (machine : StreamMachine State Symbol) (state : State) : Prop :=
  machine.idle state = true ∨ machine.turn state = (state, false)

theorem drain_idle {state : State} (idle : machine.idle state = true) :
    machine.drain state = state := by
  rw [drain, if_pos idle]

theorem drain_turn {state next : State} (busy : machine.idle state = false)
    (turned : machine.turn state = (next, true)) : machine.drain state = machine.drain next := by
  rw [drain, if_neg (by simp [busy])]
  split
  · rename_i other turnedOther
    rw [turned] at turnedOther
    cases turnedOther
    rfl
  · rename_i other turnedOther
    rw [turned] at turnedOther
    cases turnedOther

theorem drain_stop {state next : State} (busy : machine.idle state = false)
    (turned : machine.turn state = (next, false)) : machine.drain state = next := by
  rw [drain, if_neg (by simp [busy])]
  split
  · rename_i other turnedOther
    rw [turned] at turnedOther
    cases turnedOther
  · rename_i other turnedOther
    rw [turned] at turnedOther
    cases turnedOther
    rfl

theorem drain_rests {state : State} (rests : machine.Rests state) :
    machine.drain state = state := by
  by_cases idle : machine.idle state = true
  · exact drain_idle idle
  · exact drain_stop (Bool.eq_false_iff.mpr idle) (rests.resolve_left idle)

theorem drain_stop_drain {state next : State} (busy : machine.idle state = false)
    (turned : machine.turn state = (next, false)) : machine.drain state = machine.drain next := by
  rw [drain_stop busy turned, drain_rests (machine.settles turned)]

/-! ## Runs under a condition -/

/-- A condition on a turn: the chunks still to come and the state before it. -/
abbrev Condition (State : Type u) (Symbol : Type v) := List (List Symbol) → State → Prop

variable {condition : Condition State Symbol}

/-- The turns after a chunk, each of them meeting the condition. -/
inductive Drains (machine : StreamMachine State Symbol) (condition : Condition State Symbol)
    (later : List (List Symbol)) : State → State → Prop where
  | idle {state} (idle : machine.idle state = true) : Drains machine condition later state state
  | stop {state next} (busy : machine.idle state = false) (allowed : condition later state)
      (turned : machine.turn state = (next, false)) : Drains machine condition later state next
  | turn {state next last} (busy : machine.idle state = false) (allowed : condition later state)
      (turned : machine.turn state = (next, true))
      (rest : Drains machine condition later next last) : Drains machine condition later state last

/-- The run over a list of chunks, each turn meeting the condition. -/
inductive Feeds (machine : StreamMachine State Symbol) (condition : Condition State Symbol) :
    State → List (List Symbol) → State → Prop where
  | done {state} : Feeds machine condition state [] state
  | feed {state chunk later middle last}
      (drains : Drains machine condition later (machine.receive state chunk) middle)
      (rest : Feeds machine condition middle later last) :
      Feeds machine condition state (chunk :: later) last

theorem drain_of_drains {later : List (List Symbol)} {state last : State}
    (drains : machine.Drains condition later state last) : machine.drain state = last := by
  induction drains with
  | idle idle => exact drain_idle idle
  | stop busy _ turned => exact drain_stop busy turned
  | turn busy _ turned _ inductionHypothesis =>
      rw [drain_turn busy turned, inductionHypothesis]

theorem rests_of_drains {later : List (List Symbol)} {state last : State}
    (drains : machine.Drains condition later state last) : machine.Rests last := by
  induction drains with
  | idle idle => exact .inl idle
  | stop _ _ turned => exact machine.settles turned
  | turn _ _ _ _ inductionHypothesis => exact inductionHypothesis

/-- A run under a condition is the run of the machine. -/
theorem feedAll_of_feeds {chunks : List (List Symbol)} {state last : State}
    (feeds : machine.Feeds condition state chunks last) : machine.feedAll state chunks = last := by
  induction feeds with
  | done => rfl
  | feed drains _ inductionHypothesis =>
      rw [feedAll, List.foldl_cons, feed, drain_of_drains drains]
      exact inductionHypothesis

/-! ## Lookahead -/

/-- A relation between a machine which waits for later chunks and one which has
them already: each allowed turn of the first is answered by turns of the
second, and a chunk received is a chunk fewer to come. -/
structure Lookahead (machine : StreamMachine State Symbol) (condition : Condition State Symbol)
    (Ahead : List (List Symbol) → State → State → Prop) : Prop where
  turns : ∀ {later state ahead next goes}, Ahead later state ahead →
    machine.idle state = false → condition later state → machine.turn state = (next, goes) →
    ∃ answer, Ahead later next answer ∧ machine.drain ahead = machine.drain answer
  receives : ∀ {chunk later state ahead}, Ahead (chunk :: later) state ahead →
    machine.Rests state → Ahead later (machine.receive state chunk) ahead

namespace Lookahead

variable {Ahead : List (List Symbol) → State → State → Prop}

theorem drains (lookahead : Lookahead machine condition Ahead) {later : List (List Symbol)}
    {state last ahead : State} (drains : machine.Drains condition later state last)
    (related : Ahead later state ahead) :
    ∃ answer, Ahead later last answer ∧ machine.drain ahead = machine.drain answer := by
  induction drains generalizing ahead with
  | idle _ => exact ⟨ahead, related, rfl⟩
  | stop busy allowed turned => exact lookahead.turns related busy allowed turned
  | turn busy allowed turned _ inductionHypothesis =>
      obtain ⟨middle, relatedMiddle, drainMiddle⟩ := lookahead.turns related busy allowed turned
      obtain ⟨answer, relatedAnswer, drainAnswer⟩ := inductionHypothesis relatedMiddle
      exact ⟨answer, relatedAnswer, drainMiddle.trans drainAnswer⟩

/-- At the end of a run the machine which had everything at once is related
with nothing more to come. -/
theorem feeds (lookahead : Lookahead machine condition Ahead) {chunks : List (List Symbol)}
    {state last ahead : State} (feeds : machine.Feeds condition state chunks last)
    (rests : machine.Rests state) (related : Ahead chunks state ahead) :
    machine.Rests last ∧
      ∃ answer, Ahead [] last answer ∧ machine.drain ahead = machine.drain answer := by
  induction feeds generalizing ahead with
  | done => exact ⟨rests, ahead, related, rfl⟩
  | feed drains _ inductionHypothesis =>
      obtain ⟨middle, relatedMiddle, drainMiddle⟩ :=
        lookahead.drains drains (lookahead.receives related rests)
      obtain ⟨restsLast, answer, relatedAnswer, drainAnswer⟩ :=
        inductionHypothesis (rests_of_drains drains) relatedMiddle
      exact ⟨restsLast, answer, relatedAnswer, drainMiddle.trans drainAnswer⟩

end Lookahead

/-! ## Invariants -/

/-- What receiving and every allowed turn preserve holds after a run. -/
theorem Drains.invariant {Inv : State → Prop}
    (turns : ∀ {later state next goes}, Inv state → machine.idle state = false →
      condition later state → machine.turn state = (next, goes) → Inv next)
    {later : List (List Symbol)} {state last : State}
    (drains : machine.Drains condition later state last) (holds : Inv state) : Inv last := by
  induction drains with
  | idle _ => exact holds
  | stop busy allowed turned => exact turns holds busy allowed turned
  | turn busy allowed turned _ inductionHypothesis =>
      exact inductionHypothesis (turns holds busy allowed turned)

theorem Feeds.invariant {Inv : State → Prop}
    (receives : ∀ {state} chunk, Inv state → Inv (machine.receive state chunk))
    (turns : ∀ {later state next goes}, Inv state → machine.idle state = false →
      condition later state → machine.turn state = (next, goes) → Inv next)
    {chunks : List (List Symbol)} {state last : State}
    (feeds : machine.Feeds condition state chunks last) (holds : Inv state) : Inv last := by
  induction feeds with
  | done => exact holds
  | feed drains _ inductionHypothesis =>
      exact inductionHypothesis (drains.invariant turns (receives _ holds))

/-- The machine always runs. -/
theorem drains_always (machine : StreamMachine State Symbol) (later : List (List Symbol))
    (state : State) : machine.Drains (fun _ _ => True) later state (machine.drain state) := by
  induction work : machine.work state using Nat.strongRecOn generalizing state with
  | ind work inductionHypothesis =>
    cases idle : machine.idle state with
    | true =>
        rw [drain_idle idle]
        exact .idle idle
    | false =>
        rcases turned : machine.turn state with ⟨next, goes⟩
        cases goes with
        | true =>
            rw [drain_turn idle turned]
            exact .turn idle trivial turned
              (inductionHypothesis _ (by rw [← work]; exact machine.works turned) next rfl)
        | false =>
            rw [drain_stop idle turned]
            exact .stop idle trivial turned

/-! ## Counted turns -/

/-- The turns after a chunk, counted: the loop of `drain` without its measure. -/
inductive Takes (machine : StreamMachine State Symbol) : Nat → State → State → Prop where
  | idle {state} (idle : machine.idle state = true) : Takes machine 0 state state
  | stop {state next} (busy : machine.idle state = false)
      (turned : machine.turn state = (next, false)) : Takes machine 1 state next
  | turn {turns state next last} (busy : machine.idle state = false)
      (turned : machine.turn state = (next, true)) (rest : Takes machine turns next last) :
      Takes machine (turns + 1) state last

/-- No more turns are taken than there is work, and one. -/
theorem takes_drain (machine : StreamMachine State Symbol) (state : State) :
    ∃ turns ≤ machine.work state + 1, machine.Takes turns state (machine.drain state) := by
  have drains := drains_always machine [] state
  generalize machine.drain state = last at drains
  induction drains with
  | idle idle => exact ⟨0, Nat.zero_le _, .idle idle⟩
  | stop busy _ turned => exact ⟨1, Nat.le_add_left 1 _, .stop busy turned⟩
  | turn busy _ turned _ inductionHypothesis =>
      obtain ⟨turns, few, takes⟩ := inductionHypothesis
      have less := machine.works turned
      exact ⟨turns + 1, by omega, .turn busy turned takes⟩

/-- Related states which turn alike drain alike. -/
theorem drain_related {Related : State → State → Prop}
    (idles : ∀ {state other}, Related state other → machine.idle state = machine.idle other)
    (turns : ∀ {state other}, Related state other →
      Related (machine.turn state).1 (machine.turn other).1 ∧
        (machine.turn state).2 = (machine.turn other).2)
    {state other : State} (related : Related state other) :
    Related (machine.drain state) (machine.drain other) := by
  have runs := drains_always machine [] state
  generalize machine.drain state = last at runs ⊢
  induction runs generalizing other with
  | idle idle =>
      rw [drain_idle ((idles related).symm.trans idle)]
      exact related
  | stop busy _ turned =>
      obtain ⟨relatedNext, goes⟩ := turns related
      rw [turned] at relatedNext goes
      rw [drain_stop ((idles related).symm.trans busy) (Prod.ext rfl goes.symm)]
      exact relatedNext
  | turn busy _ turned _ inductionHypothesis =>
      obtain ⟨relatedNext, goes⟩ := turns related
      rw [turned] at relatedNext goes
      rw [drain_turn ((idles related).symm.trans busy) (Prod.ext rfl goes.symm)]
      exact inductionHypothesis relatedNext

/-! ## Notes -/

/-- What is noted of the turns of a machine beside its state. A turn which
changes nothing is not noted. -/
structure Note (machine : StreamMachine State Symbol) (Noted : Type w) where
  note : State → Noted → Noted
  quiet : ∀ {state}, machine.turn state = (state, false) → ∀ noted, note state noted = noted

/-- The machine which takes notes. -/
def noting (machine : StreamMachine State Symbol) {Noted : Type w} (note : Note machine Noted) :
    StreamMachine (State × Noted) Symbol where
  receive noted chunk := (machine.receive noted.1 chunk, noted.2)
  idle noted := machine.idle noted.1
  turn noted := (((machine.turn noted.1).1, note.note noted.1 noted.2), (machine.turn noted.1).2)
  work noted := machine.work noted.1
  works turned := by
    obtain ⟨rfl, goes⟩ := Prod.mk.inj turned
    exact machine.works (Prod.ext rfl goes)
  settles turned := by
    obtain ⟨rfl, goes⟩ := Prod.mk.inj turned
    refine (machine.settles (Prod.ext rfl goes)).imp_right fun stays => ?_
    simp only [stays, note.quiet stays]

variable {Noted : Type w} {note : Note machine Noted}

/-- The turns of the machine are those of the machine which takes notes. -/
theorem Drains.forget {condition : Condition (State × Noted) Symbol}
    {later : List (List Symbol)} {noted last : State × Noted}
    (drains : (machine.noting note).Drains condition later noted last) :
    machine.drain noted.1 = last.1 := by
  induction drains with
  | idle idle => exact drain_idle idle
  | stop busy _ turned =>
      obtain ⟨rfl, goes⟩ := Prod.mk.inj turned
      exact @drain_stop _ _ machine _ _ busy (Prod.ext rfl goes)
  | turn busy _ turned _ inductionHypothesis =>
      obtain ⟨rfl, goes⟩ := Prod.mk.inj turned
      exact (@drain_turn _ _ machine _ _ busy (Prod.ext rfl goes)).trans inductionHypothesis

/-- A run which takes notes is a run of the machine. -/
theorem Feeds.forget {condition : Condition (State × Noted) Symbol}
    {chunks : List (List Symbol)} {noted last : State × Noted}
    (feeds : (machine.noting note).Feeds condition noted chunks last) :
    machine.feedAll noted.1 chunks = last.1 := by
  induction feeds with
  | done => rfl
  | @feed _ _ later _ _ drains _ inductionHypothesis =>
      have first := congrArg (fun state => machine.feedAll state later) drains.forget
      exact first.trans inductionHypothesis

end StreamMachine

end Foxhttp.Library
