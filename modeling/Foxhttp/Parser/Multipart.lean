import Mathlib.Algebra.Group.Nat.Defs
import Mathlib.Data.List.AList
import Foxhttp.Library.StreamMachine
import Foxhttp.Library.Text

/-!
# The multipart stream parser

`MultipartStreamParser` keeps what it has not used of its input in a buffer and
goes through the states boundary, headers and content for every field. Each
call of `feed_data` appends to the buffer and takes turns until a turn wants
more data. The content of a field is counted and not kept.
-/

namespace Foxhttp.Parser

open Foxhttp.Library

/-- The settings of `MultipartConfig` which the stream parser reads. -/
structure MultipartConfig where
  maxFieldSize : Nat := 10 * 1024 * 1024
  maxFileSize : Nat := 100 * 1024 * 1024
  memoryThreshold : Nat := 1024 * 1024

/-- `MultipartField`, as far as the stream parser fills it in. -/
structure MultipartField where
  name : Text := []
  filename : Text := []
  headers : AList (fun _ : Text => Text) := ∅
  content : Text := []

namespace MultipartField

/-- `MultipartField::is_file`. -/
def isFile (field : MultipartField) : Bool :=
  !field.filename.isEmpty

/-- `MultipartFieldImpl::to_lower`. -/
def toLower (str : Text) : Text :=
  str.map Char.toLower

/-- `MultipartField::add_header`. -/
def addHeader (field : MultipartField) (name value : Text) : MultipartField :=
  { field with headers := field.headers.insert (toLower name) value }

end MultipartField

/-- `MultipartStreamParserImpl::ParseState`. -/
inductive ParseState where
  | boundary
  | headers
  | content
  | complete
  | error
deriving DecidableEq, Repr

/-- A call of one of the callbacks, with its arguments. -/
inductive CallbackCall where
  | progress (bytesReceived totalBytes : Nat) (fieldName : Text)
  | error (message : String) (position : Nat)

/-- `MultipartStreamParserImpl`, with the callbacks called so far. -/
structure StreamParser where
  config : MultipartConfig
  fullBoundary : Text
  state : ParseState
  bytesProcessed : Nat
  currentFieldSize : Nat
  currentFieldName : Text
  buffer : Text
  currentField : Option MultipartField
  result : List MultipartField
  hasProgressCallback : Bool
  hasErrorCallback : Bool
  calls : List CallbackCall

namespace StreamParser

/-- The constructor of `MultipartStreamParser`. -/
def new (boundary : Text) (config : MultipartConfig)
    (hasProgressCallback hasErrorCallback : Bool) : StreamParser where
  config := config
  fullBoundary := "--".toList ++ boundary
  state := .boundary
  bytesProcessed := 0
  currentFieldSize := 0
  currentFieldName := []
  buffer := []
  currentField := none
  result := []
  hasProgressCallback := hasProgressCallback
  hasErrorCallback := hasErrorCallback
  calls := []

/-! ## Turns -/

/-- `handle_error`. -/
def handleError (parser : StreamParser) (error : String) : StreamParser :=
  { parser with
    state := .error
    calls :=
      if parser.hasErrorCallback then parser.calls ++ [.error error parser.bytesProcessed]
      else parser.calls }

/-- What `process_boundary` leaves of a text which starts with a line end. -/
def skipLineEnd (text : Text) : Text :=
  if "\r\n".toList <+: text then Text.erase text 0 2
  else if "\n".toList <+: text then Text.erase text 0 1
  else text

/-- `process_boundary`, with whether the loop goes on. -/
def processBoundary (parser : StreamParser) : StreamParser × Bool :=
  match Text.findText parser.buffer parser.fullBoundary 0 with
  | none =>
      if parser.fullBoundary.length + 100 < parser.buffer.length then
        (parser.handleError "Boundary not found in expected position", false)
      else (parser, false)
  | some boundaryPos =>
      let rest := Text.erase parser.buffer 0 (boundaryPos + parser.fullBoundary.length)
      if "--".toList <+: rest then ({ parser with buffer := rest, state := .complete }, true)
      else ({ parser with buffer := skipLineEnd rest, state := .headers }, true)

/-- The lines `std::getline` reads from a stream: the last one only when it is
not empty. -/
def getLines : Text → List Text
  | [] => []
  | c :: rest =>
      if c = '\n' then [] :: getLines rest
      else
        match getLines rest with
        | [] => [[c]]
        | line :: lines => (c :: line) :: lines

/-- A text without the blanks and tabs around it. -/
def trim (text : Text) : Text :=
  let isBlank := fun c => c == ' ' || c == '\t'
  ((text.dropWhile isBlank).reverse.dropWhile isBlank).reverse

/-- The quoted value of a parameter such as `name="..."`. -/
def quotedParameter (key value : Text) : Option Text :=
  (Text.findText value key 0).bind fun pos =>
    (Text.find value '"' (pos + key.length)).map fun stop =>
      Text.substr value (pos + key.length) (stop - (pos + key.length))

/-- What `process_headers` makes of one line: the field and the current name. -/
def parseHeaderLine (field : MultipartField) (currentFieldName line : Text) :
    MultipartField × Text :=
  let line := if line.getLast? = some '\r' then line.dropLast else line
  match Text.find line ':' 0 with
  | none => (field, currentFieldName)
  | some colonPos =>
      let name := trim (Text.substr line 0 colonPos)
      let value := trim (line.drop (colonPos + 1))
      let field := field.addHeader name value
      if name = "Content-Disposition".toList then
        let (field, currentFieldName) :=
          match quotedParameter "name=\"".toList value with
          | some found => ({ field with name := found }, found)
          | none => (field, currentFieldName)
        match quotedParameter "filename=\"".toList value with
        | some found => ({ field with filename := found }, currentFieldName)
        | none => (field, currentFieldName)
      else (field, currentFieldName)

/-- What `process_headers` makes of the header data. -/
def parseHeaderData (currentFieldName headerData : Text) : MultipartField × Text :=
  (getLines headerData).foldl (fun found line => parseHeaderLine found.1 found.2 line)
    ({}, currentFieldName)

/-- Where the headers end in a buffer, terminator included. -/
def headerEnd (buffer : Text) : Option Nat :=
  match Text.findText buffer "\r\n\r\n".toList 0 with
  | some pos => some (pos + 4)
  | none => (Text.findText buffer "\n\n".toList 0).map (· + 2)

/-- The difference of two sizes, which wraps. -/
def sizeSub (a b : Nat) : Nat :=
  if b ≤ a then a - b else a + 2 ^ 64 - b

/-- `process_headers`, with whether the loop goes on. -/
def processHeaders (parser : StreamParser) : StreamParser × Bool :=
  match headerEnd parser.buffer with
  | none => (parser, false)
  | some stop =>
      let headerData := Text.substr parser.buffer 0 (sizeSub stop 4)
      let (field, currentFieldName) := parseHeaderData parser.currentFieldName headerData
      ({ parser with
          buffer := Text.erase parser.buffer 0 stop
          currentField := some field
          currentFieldName := currentFieldName
          currentFieldSize := 0
          state := .content }, true)

/-- `switch_to_temp_file`, which does nothing. -/
def switchToTempFile (parser : StreamParser) : StreamParser :=
  parser

/-- `write_content_data` of that many bytes. -/
def writeContentData (parser : StreamParser) (size : Nat) : StreamParser :=
  match parser.currentField with
  | none => parser
  | some field =>
      let parser := { parser with currentFieldSize := parser.currentFieldSize + size }
      if field.isFile then
        if parser.config.maxFileSize < parser.currentFieldSize then
          parser.handleError "File size exceeds maximum allowed size"
        else if parser.config.memoryThreshold < parser.currentFieldSize then
          parser.switchToTempFile
        else parser
      else if parser.config.maxFieldSize < parser.currentFieldSize then
        parser.handleError "Field size exceeds maximum allowed size"
      else parser

/-- `finalize_current_field`. -/
def finalizeCurrentField (parser : StreamParser) : StreamParser :=
  let parser :=
    match parser.currentField with
    | some field => { parser with result := parser.result ++ [field], currentField := none }
    | none => parser
  if parser.hasProgressCallback then
    { parser with
      calls := parser.calls ++ [.progress parser.bytesProcessed 0 parser.currentFieldName] }
  else parser

/-- The loop of `process_content` which leaves line ends in front of a boundary
out. -/
def contentEnd (buffer : Text) : Nat → Nat
  | 0 => 0
  | stop + 1 =>
      if buffer[stop]? = some '\n' ∨ buffer[stop]? = some '\r' then contentEnd buffer stop
      else stop + 1

/-- `process_content`, with whether the loop goes on. -/
def processContent (parser : StreamParser) : StreamParser × Bool :=
  match Text.findText parser.buffer parser.fullBoundary 0 with
  | none =>
      if parser.fullBoundary.length + 100 < parser.buffer.length then
        ({ parser.writeContentData (parser.buffer.length - parser.fullBoundary.length - 10) with
            buffer := [] }, false)
      else (parser, false)
  | some boundaryPos =>
      let stop := contentEnd parser.buffer boundaryPos
      let written := if 0 < stop then parser.writeContentData stop else parser
      ({ { written with buffer := Text.erase parser.buffer 0 boundaryPos }.finalizeCurrentField with
          state := .boundary }, true)

/-- One turn of the loop of `feed_data`, with whether the loop goes on. -/
def turn (parser : StreamParser) : StreamParser × Bool :=
  match parser.state with
  | .boundary => parser.processBoundary
  | .headers => parser.processHeaders
  | .content => parser.processContent
  | .complete | .error => (parser, false)

/-- Whether the loop of `feed_data` ends before a turn. -/
def idle (parser : StreamParser) : Bool :=
  parser.buffer.isEmpty || parser.state == .complete || parser.state == .error

/-! ## What a turn leaves -/

theorem erase_front (text : Text) (count : Nat) : Text.erase text 0 count = text.drop count := by
  simp [Text.erase]

theorem skipLineEnd_length (text : Text) : (skipLineEnd text).length ≤ text.length := by
  rw [skipLineEnd]
  split
  · simp [erase_front]
  · split
    · simp [erase_front]
    · exact Nat.le_refl _

/-- Where the headers end, at least a line end has gone by. -/
theorem headerEnd_bounds {buffer : Text} {stop : Nat} (found : headerEnd buffer = some stop) :
    2 ≤ stop ∧ stop ≤ buffer.length := by
  rw [headerEnd] at found
  split at found
  · rename_i pos atPos
    cases found
    have bound := Text.findText_bound (by decide) atPos
    rw [show "\r\n\r\n".toList.length = 4 from rfl] at bound
    omega
  · obtain ⟨pos, atPos, rfl⟩ := Option.map_eq_some_iff.mp found
    have bound := Text.findText_bound (by decide) atPos
    rw [show "\n\n".toList.length = 2 from rfl] at bound
    omega

theorem handleError_idle (parser : StreamParser) (error : String) :
    (parser.handleError error).idle = true := by
  simp [idle, handleError]

theorem finalizeCurrentField_buffer (parser : StreamParser) :
    parser.finalizeCurrentField.buffer = parser.buffer := by
  rw [finalizeCurrentField]
  cases parser.currentField <;> (dsimp only; split <;> rfl)

/-- What the loop of `feed_data` still has to do: bytes, and states up to the
next headers. -/
def work (parser : StreamParser) : Nat :=
  3 * parser.buffer.length +
    match parser.state with
    | .content => 2
    | .boundary => 1
    | _ => 0

/-- A turn after which the loop goes on leaves less to do. -/
theorem turn_works {parser next : StreamParser} (turned : parser.turn = (next, true)) :
    next.work < parser.work := by
  unfold turn at turned
  split at turned
  · rename_i inBoundary
    unfold processBoundary at turned
    split at turned
    · split at turned <;> cases turned
    · rename_i pos found
      have dropped := List.length_drop (i := pos + parser.fullBoundary.length) (l := parser.buffer)
      have skipped := skipLineEnd_length (parser.buffer.drop (pos + parser.fullBoundary.length))
      simp only [erase_front] at turned
      split at turned <;> cases turned <;> simp only [work, inBoundary] <;> omega
  · rename_i inHeaders
    unfold processHeaders at turned
    split at turned
    · cases turned
    · rename_i stop found
      have bounds := headerEnd_bounds found
      cases turned
      simp only [work, inHeaders, erase_front, List.length_drop]
      omega
  · rename_i inContent
    unfold processContent at turned
    split at turned
    · split at turned <;> cases turned
    · rename_i pos found
      cases turned
      simp only [work, inContent, finalizeCurrentField_buffer, erase_front, List.length_drop]
      omega
  · cases turned
  · cases turned

/-- A turn after which the loop stops leaves nothing to do before more data. -/
theorem turn_settles {parser next : StreamParser} (turned : parser.turn = (next, false)) :
    next.idle = true ∨ next.turn = (next, false) := by
  have unchanged (same : parser = next) : next.idle = true ∨ next.turn = (next, false) :=
    .inr (same ▸ turned)
  unfold turn at turned
  split at turned
  · unfold processBoundary at turned
    split at turned
    · split at turned
      · cases turned
        exact .inl (handleError_idle parser _)
      · exact unchanged (congrArg Prod.fst turned)
    · dsimp only at turned
      split at turned <;> cases turned
  · unfold processHeaders at turned
    split at turned
    · exact unchanged (congrArg Prod.fst turned)
    · cases turned
  · unfold processContent at turned
    split at turned
    · split at turned
      · cases turned
        exact .inl rfl
      · exact unchanged (congrArg Prod.fst turned)
    · cases turned
  · exact unchanged (congrArg Prod.fst turned)
  · exact unchanged (congrArg Prod.fst turned)

/-! ## Feeding data -/

/-- The stream parser as a machine fed in chunks. `feed_data` appends to the
buffer and loops over the turns. -/
def machine : StreamMachine StreamParser Char where
  receive parser data :=
    { parser with
      buffer := parser.buffer ++ data
      bytesProcessed := parser.bytesProcessed + data.length }
  idle := idle
  turn := turn
  work := work
  works := turn_works
  settles := turn_settles

/-- The parser after `feed_data`. -/
def feedData (parser : StreamParser) (data : Text) : StreamParser :=
  machine.feed parser data

/-- What a buffer of this size and a state leave to do, as `work` counts it. -/
def measureOf (size : Nat) (state : ParseState) : Nat :=
  3 * size +
    match state with
    | .content => 2
    | .boundary => 1
    | _ => 0

theorem work_eq (parser : StreamParser) :
    parser.work = measureOf parser.buffer.length parser.state :=
  rfl

theorem measureOf_le (size : Nat) (state : ParseState) : measureOf size state ≤ 3 * size + 2 := by
  cases state <;> simp [measureOf]

/-- **`feed_data` ends**, for every parser and every chunk: it takes no more turns
than three for each character and three more, and each turn after which the loop
goes on lowers a measure of the size of the buffer and the state. -/
theorem feedData_ends :
    (∀ (parser : StreamParser) (data : Text),
      ∃ turns ≤ 3 * (parser.buffer.length + data.length) + 3,
        machine.Takes turns (machine.receive parser data) (parser.feedData data)) ∧
    ∀ parser next : StreamParser, parser.turn = (next, true) →
      measureOf next.buffer.length next.state < measureOf parser.buffer.length parser.state := by
  constructor
  · intro parser data
    obtain ⟨turns, few, takes⟩ := machine.takes_drain (machine.receive parser data)
    refine ⟨turns, Nat.le_trans few (Nat.succ_le_succ ?_), takes⟩
    have size : (machine.receive parser data).buffer.length =
        parser.buffer.length + data.length := List.length_append
    calc work (machine.receive parser data)
        ≤ 3 * (machine.receive parser data).buffer.length + 2 := measureOf_le _ _
      _ = 3 * (parser.buffer.length + data.length) + 2 := by rw [size]
  · intro parser next turned
    rw [← work_eq, ← work_eq]
    exact turn_works turned

/-- The parser after a sequence of `feed_data` calls. -/
def feedAll (parser : StreamParser) (chunks : List Text) : StreamParser :=
  machine.feedAll parser chunks

/-- `is_complete`. -/
def isComplete (parser : StreamParser) : Bool :=
  parser.state == .complete

/-- What `feed_data` returns. -/
def isIntact (parser : StreamParser) : Bool :=
  parser.state != .error

/-- Where a parser stands, for its caller. -/
inductive Outcome where
  | complete
  | error
  | needsMore
deriving DecidableEq, Repr

/-- The outcome which `is_complete` and the value of `feed_data` show. -/
def outcome (parser : StreamParser) : Outcome :=
  if parser.isComplete then .complete
  else if parser.isIntact then .needsMore
  else .error

end StreamParser

end Foxhttp.Parser
