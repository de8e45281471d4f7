import Foxhttp.Parser.Multipart

/-!
# Is a reset stream parser a new one?

`reset` leaves the current field and its name. A field left over is never looked
at: the next headers replace it. Its name is what `current_field_name` returns
and the progress callback gets, until another field has one.
-/

namespace Foxhttp.Parser.StreamParser

open Foxhttp.Library

/-- `get_result`, which moves the fields out. -/
def getResult (parser : StreamParser) : List MultipartField × StreamParser :=
  (parser.result, { parser with result := [] })

/-- `reset`. -/
def reset (parser : StreamParser) : StreamParser :=
  { parser with
    buffer := []
    result := []
    state := .boundary
    bytesProcessed := 0
    currentFieldSize := 0 }

/-- `abort`. -/
def abort (parser : StreamParser) : StreamParser :=
  { parser with state := .error }

/-- An operation of the parser. -/
inductive StreamCall where
  | feedData (data : Text)
  | getResult
  | abort
  | reset

/-- What an operation returns. -/
inductive Returned where
  | intact (isIntact : Bool)
  | result (fields : List MultipartField)
  | nothing

/-- What there is to see of an operation: what it returns, the callbacks it
calls, and what the parser says of itself behind it. -/
structure Observed where
  returned : Returned
  callbacks : List CallbackCall
  isComplete : Bool
  bytesProcessed : Nat
  currentFieldSize : Nat
  currentFieldName : Text

/-- The parser before an operation, none of whose callbacks has been called. -/
def uncalled (parser : StreamParser) : StreamParser :=
  { parser with calls := [] }

/-- An operation. -/
def perform (parser : StreamParser) : StreamCall → Returned × StreamParser
  | .feedData data =>
      (.intact (parser.uncalled.feedData data).isIntact, parser.uncalled.feedData data)
  | .getResult => (.result parser.uncalled.getResult.1, parser.uncalled.getResult.2)
  | .abort => (.nothing, parser.uncalled.abort)
  | .reset => (.nothing, parser.uncalled.reset)

/-- What there is to see when an operation has returned. -/
def observe (returned : Returned) (parser : StreamParser) : Observed where
  returned
  callbacks := parser.calls
  isComplete := parser.isComplete
  bytesProcessed := parser.bytesProcessed
  currentFieldSize := parser.currentFieldSize
  currentFieldName := parser.currentFieldName

/-- The parser after a sequence of operations. -/
def after (parser : StreamParser) (calls : List StreamCall) : StreamParser :=
  calls.foldl (fun parser call => (parser.perform call).2) parser

/-- What there is to see of a sequence of operations. -/
def observations : StreamParser → List StreamCall → List Observed
  | _, [] => []
  | parser, call :: rest =>
      observe (parser.perform call).1 (parser.perform call).2 ::
        observations (parser.perform call).2 rest

/-! ## The field which is left over -/

/-- Two parsers differ in the current field at most, and not inside of one. -/
structure Alike (parser other : StreamParser) : Prop where
  rest : other = { parser with currentField := other.currentField }
  field : parser.state = .content → other.currentField = parser.currentField

namespace Alike

variable {parser other : StreamParser}

/-- Outside of a field, any field may be left over. -/
theorem outside (rest : other = { parser with currentField := other.currentField })
    (notContent : parser.state ≠ .content) : Alike parser other :=
  ⟨rest, fun isContent => absurd isContent notContent⟩

theorem turn (alike : Alike parser other) :
    Alike parser.turn.1 other.turn.1 ∧ parser.turn.2 = other.turn.2 := by
  obtain ⟨rest, field⟩ := alike
  generalize other.currentField = left at rest field
  subst rest
  obtain ⟨config, fullBoundary, state, bytes, size, name, buffer, current, result⟩ := parser
  cases state with
  | boundary =>
      simp only [StreamParser.turn, processBoundary]
      split
      · split
        · exact ⟨.outside rfl (fun isContent => by cases isContent), rfl⟩
        · exact ⟨.outside rfl (fun isContent => by cases isContent), rfl⟩
      · split
        · exact ⟨.outside rfl (fun isContent => by cases isContent), rfl⟩
        · exact ⟨.outside rfl (fun isContent => by cases isContent), rfl⟩
  | headers =>
      simp only [StreamParser.turn, processHeaders]
      split
      · exact ⟨.outside rfl (fun isContent => by cases isContent), rfl⟩
      · exact ⟨⟨rfl, fun _ => rfl⟩, rfl⟩
  | content =>
      obtain rfl := field rfl
      exact ⟨⟨rfl, fun _ => rfl⟩, rfl⟩
  | complete => exact ⟨.outside rfl (fun isContent => by cases isContent), rfl⟩
  | error => exact ⟨.outside rfl (fun isContent => by cases isContent), rfl⟩

theorem feedData (alike : Alike parser other) (data : Text) :
    Alike (parser.feedData data) (other.feedData data) := by
  refine StreamMachine.drain_related (fun related => ?_) (fun related => related.turn) ?_
  · rw [related.rest]
    rfl
  · obtain ⟨rest, field⟩ := alike
    generalize other.currentField = left at rest field
    subst rest
    exact ⟨rfl, field⟩

/-- An operation on parsers which are alike looks the same. -/
theorem perform (alike : Alike parser.uncalled other.uncalled) (call : StreamCall) :
    Alike (parser.perform call).2 (other.perform call).2 ∧
      observe (parser.perform call).1 (parser.perform call).2 =
        observe (other.perform call).1 (other.perform call).2 := by
  obtain ⟨rest, field⟩ := alike
  cases call with
  | feedData data =>
      have fed := feedData ⟨rest, field⟩ data
      refine ⟨fed, ?_⟩
      simp only [StreamParser.perform]
      rw [fed.rest]
      rfl
  | getResult =>
      simp only [StreamParser.perform, getResult]
      rw [rest]
      exact ⟨⟨rfl, field⟩, rfl⟩
  | abort =>
      simp only [StreamParser.perform, abort]
      rw [rest]
      exact ⟨.outside rfl (fun isContent => by cases isContent), rfl⟩
  | reset =>
      simp only [StreamParser.perform, reset]
      rw [rest]
      exact ⟨.outside rfl (fun isContent => by cases isContent), rfl⟩

end Alike

/-- Parsers which are alike look the same under every sequence of operations. -/
theorem Alike.observations {parser other : StreamParser} (calls : List StreamCall)
    (alike : Alike parser.uncalled other.uncalled) :
    parser.observations calls = other.observations calls := by
  induction calls generalizing parser other with
  | nil => rfl
  | cons call rest inductionHypothesis =>
      obtain ⟨next, sameSight⟩ := alike.perform call
      have uncalled : Alike (parser.perform call).2.uncalled (other.perform call).2.uncalled := by
        refine ⟨?_, next.field⟩
        rw [next.rest]
        rfl
      rw [StreamParser.observations, StreamParser.observations, sameSight,
        inductionHypothesis uncalled]

/-! ## What no operation changes -/

/-- The settings, and which callbacks there are. -/
def settings (parser : StreamParser) : MultipartConfig × Text × Bool × Bool :=
  (parser.config, parser.fullBoundary, parser.hasProgressCallback, parser.hasErrorCallback)

theorem writeContentData_settings (parser : StreamParser) (size : Nat) :
    (parser.writeContentData size).settings = parser.settings := by
  rw [writeContentData]
  split
  · rfl
  · dsimp only
    split
    · split
      · rfl
      · split
        · rfl
        · rfl
    · split
      · rfl
      · rfl

theorem finalizeCurrentField_settings (parser : StreamParser) :
    parser.finalizeCurrentField.settings = parser.settings := by
  rw [finalizeCurrentField]
  cases parser.currentField with
  | none =>
      dsimp only
      split
      · rfl
      · rfl
  | some field =>
      dsimp only
      split
      · rfl
      · rfl

theorem turn_settings (parser : StreamParser) : parser.turn.1.settings = parser.settings := by
  rw [turn]
  split
  · rw [processBoundary]
    split
    · split
      · rfl
      · rfl
    · dsimp only
      split
      · rfl
      · rfl
  · rw [processHeaders]
    split
    · rfl
    · rfl
  · rw [processContent]
    split
    · split
      · exact parser.writeContentData_settings _
      · rfl
    · refine (finalizeCurrentField_settings _).trans ?_
      split
      · exact parser.writeContentData_settings _
      · rfl
  · rfl
  · rfl

theorem feedData_settings (parser : StreamParser) (data : Text) :
    (parser.feedData data).settings = parser.settings := by
  have runs := machine.drains_always [] (machine.receive parser data)
  refine @StreamMachine.Drains.invariant _ _ machine _ (settings · = parser.settings)
    (fun {_ state next goes} same _ _ turned => ?_) _ _ _ runs rfl
  rw [← same, ← state.turn_settings]
  exact congrArg (settings ·.1) turned.symm

theorem perform_settings (parser : StreamParser) (call : StreamCall) :
    (parser.perform call).2.settings = parser.settings := by
  cases call with
  | feedData data => exact parser.uncalled.feedData_settings data
  | getResult => rfl
  | abort => rfl
  | reset => rfl

theorem after_settings (parser : StreamParser) (calls : List StreamCall) :
    (parser.after calls).settings = parser.settings := by
  induction calls generalizing parser with
  | nil => rfl
  | cons call rest inductionHypothesis =>
      exact (inductionHypothesis _).trans (parser.perform_settings call)

/-! ## Resetting -/

/-- A reset parser of some settings is a new one of these, if it has no name left. -/
theorem alike_reset {boundary : Text} {config : MultipartConfig}
    {hasProgressCallback hasErrorCallback : Bool} {parser : StreamParser}
    (made : parser.settings =
      (new boundary config hasProgressCallback hasErrorCallback).settings)
    (noName : parser.currentFieldName = []) :
    Alike (new boundary config hasProgressCallback hasErrorCallback).uncalled
      parser.uncalled.reset.uncalled := by
  obtain ⟨ownConfig, fullBoundary, state, bytes, size, name, buffer, current, result, progress,
    error, called⟩ := parser
  simp only [settings, new, Prod.mk.injEq] at made
  obtain ⟨rfl, rfl, rfl, rfl⟩ := made
  obtain rfl : name = [] := noName
  exact ⟨rfl, nofun⟩

/-- **A reset stream parser is a new one**, whatever its history, exactly when
the current field had no name left. -/
theorem reset_is_new_iff (boundary : Text) (config : MultipartConfig)
    (hasProgressCallback hasErrorCallback : Bool) (history : List StreamCall) :
    (∀ calls, ((new boundary config hasProgressCallback hasErrorCallback).after
          (history ++ [.reset])).observations calls =
        (new boundary config hasProgressCallback hasErrorCallback).observations calls) ↔
      ((new boundary config hasProgressCallback hasErrorCallback).after
        history).currentFieldName = [] := by
  let fresh := new boundary config hasProgressCallback hasErrorCallback
  have isReset : fresh.after (history ++ [.reset]) = (fresh.after history).uncalled.reset := by
    rw [after, List.foldl_append]
    rfl
  change (∀ calls, (fresh.after (history ++ [.reset])).observations calls =
    fresh.observations calls) ↔ (fresh.after history).currentFieldName = []
  rw [isReset]
  constructor
  · intro same
    -- the name is there to see behind any operation
    have seen := same [.abort]
    rw [observations, observations] at seen
    exact congrArg Observed.currentFieldName (List.cons.inj seen).1
  · intro noName calls
    exact (Alike.observations calls (alike_reset (fresh.after_settings history) noName)).symm

/-- The name of a field outlives a reset. -/
theorem name_outlives_reset :
    ¬ ∀ (boundary : Text) (config : MultipartConfig) (hasProgressCallback hasErrorCallback : Bool)
      (history calls : List StreamCall),
      ((new boundary config hasProgressCallback hasErrorCallback).after
          (history ++ [.reset])).observations calls =
        (new boundary config hasProgressCallback hasErrorCallback).observations calls := by
  intro resetIsNew
  let fresh := new "b".toList {} false false
  let data := "--b\r\nContent-Disposition: form-data; name=\"a\"\r\n\r\n".toList
  have drains : ∃ last, machine.Drains (fun _ _ => True) [] (machine.receive fresh data) last ∧
      last.currentFieldName = ['a'] :=
    ⟨_, .turn rfl trivial rfl (.turn rfl trivial rfl (.idle rfl)), rfl⟩
  obtain ⟨last, drains, isName⟩ := drains
  have isLast : fresh.after [.feedData data] = last := StreamMachine.drain_of_drains drains
  have noName : (fresh.after [.feedData data]).currentFieldName = [] :=
    (reset_is_new_iff "b".toList {} false false [.feedData data]).mp (resetIsNew _ _ _ _ _)
  rw [isLast, isName] at noName
  cases noName

end Foxhttp.Parser.StreamParser
