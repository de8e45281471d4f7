import Foxhttp.Parser.Multipart

/-!
# Data in chunks

The turns of the stream parser decide on the buffer alone, and a later chunk
may change what the buffer says. `Foreseen` states for each turn when the bytes
to come leave its decision alone. A run whose turns are all foreseen ends like
the one call which gives all the bytes at once.
-/

namespace Foxhttp.Parser.StreamParser

open Foxhttp.Library

/-! ## Turns which later bytes leave alone -/

/-- A text in which a line end put in front would change where the headers end. -/
def OpensBlank (text : Text) : Prop :=
  "\r\n".toList <+: text ∨ "\n".toList <+: text ∨ "\n\n".toList <+: text.drop 1

/-- The boundary turn: the closing `--` is not cut, and neither is a line end
which the headers miss. Without a boundary, the buffer is only given up when no
boundary comes. -/
def ForeseenBoundary (later : Text) (parser : StreamParser) : Prop :=
  match Text.findText parser.buffer parser.fullBoundary 0 with
  | some pos =>
      let rest := parser.buffer.drop (pos + parser.fullBoundary.length)
      ("--".toList <+: rest ++ later → "--".toList <+: rest) ∧
        (skipLineEnd (rest ++ later) = skipLineEnd rest ++ later ∨
          ¬ OpensBlank (skipLineEnd (rest ++ later)))
  | none =>
      parser.fullBoundary.length + 100 < parser.buffer.length →
        ¬ parser.fullBoundary <:+: parser.buffer ++ later

/-- The headers turn: headers which end in bare line feeds have no other end in
what comes, and enough bytes in front for the four which are cut off. -/
def ForeseenHeaders (later : Text) (parser : StreamParser) : Prop :=
  Text.findText parser.buffer "\r\n\r\n".toList 0 = none →
    ∀ pos, Text.findText parser.buffer "\n\n".toList 0 = some pos →
      ¬ "\r\n\r\n".toList <:+: parser.buffer ++ later ∧ (2 ≤ pos ∨ later = [])

/-- The limit for the size of the current field. -/
def limit (parser : StreamParser) : Nat :=
  match parser.currentField with
  | some field => if field.isFile then parser.config.maxFileSize else parser.config.maxFieldSize
  | none => 0

/-- The bytes counted by flushes, from a buffer of some length on: a flush
leaves the length of the boundary and ten bytes out. -/
def counted (boundary pending : Nat) : List Text → Nat
  | [] => if boundary + 100 < pending then pending - boundary - 10 else 0
  | chunk :: later =>
      if boundary + 100 < pending then
        pending - boundary - 10 + counted boundary chunk.length later
      else counted boundary (pending + chunk.length) later

/-- The content turn: a flush has no start of a boundary in it. When a boundary
comes the counted bytes stay in the limit, and otherwise all flushes together
leave it if one flush would. -/
def ForeseenContent (later : List Text) (parser : StreamParser) : Prop :=
  Text.findText parser.buffer parser.fullBoundary 0 = none →
    parser.fullBoundary.length + 100 < parser.buffer.length →
      (∀ start < parser.buffer.length,
        ¬ parser.fullBoundary <+: (parser.buffer ++ later.flatten).drop start) ∧
      (parser.fullBoundary <:+: later.flatten →
        parser.currentFieldSize + (parser.buffer.length - parser.fullBoundary.length - 10) ≤
          parser.limit) ∧
      (¬ parser.fullBoundary <:+: later.flatten → parser.currentFieldSize = 0 →
        parser.limit < (parser.buffer ++ later.flatten).length - parser.fullBoundary.length - 10 →
          parser.limit < counted parser.fullBoundary.length parser.buffer.length later)

/-- The turn is the one which would be taken with the later chunks at hand. -/
def Foreseen (later : List Text) (parser : StreamParser) : Prop :=
  match parser.state with
  | .boundary => ForeseenBoundary later.flatten parser
  | .headers => ForeseenHeaders later.flatten parser
  | .content => ForeseenContent later parser
  | .complete | .error => True

/-! ## What the turns do -/

/-- Two parsers with the same settings, a boundary which is not empty, and the
same state and fields. -/
structure Agree (parser other : StreamParser) : Prop where
  marked : parser.fullBoundary ≠ []
  config : parser.config = other.config
  fullBoundary : parser.fullBoundary = other.fullBoundary
  state : parser.state = other.state
  currentFieldName : parser.currentFieldName = other.currentFieldName
  currentField : parser.currentField = other.currentField
  result : parser.result = other.result

theorem Agree.limit {parser other : StreamParser} (agree : Agree parser other) :
    parser.limit = other.limit := by
  rw [StreamParser.limit, StreamParser.limit, agree.currentField, agree.config]

theorem busy_iff {parser : StreamParser} :
    parser.idle = false ↔
      parser.buffer ≠ [] ∧ parser.state ≠ .complete ∧ parser.state ≠ .error := by
  simp [idle, and_assoc]

/-- Writing content counts it, and is an error beyond the limit. -/
theorem writeContentData_eq {parser : StreamParser} (current : parser.currentField ≠ none)
    (size : Nat) :
    ∃ calls, parser.writeContentData size =
      { parser with
        currentFieldSize := parser.currentFieldSize + size
        state := if parser.limit < parser.currentFieldSize + size then .error else parser.state
        calls := calls } := by
  obtain ⟨field, isCurrent⟩ := Option.ne_none_iff_exists'.mp current
  simp only [writeContentData, limit, isCurrent, handleError, switchToTempFile]
  by_cases file : field.isFile = true
  · by_cases tooLarge : parser.config.maxFileSize < parser.currentFieldSize + size
    · simp only [file, if_true, tooLarge]
      exact ⟨_, rfl⟩
    · simp only [file, if_true, tooLarge, if_false, ite_self]
      exact ⟨_, rfl⟩
  · by_cases tooLarge : parser.config.maxFieldSize < parser.currentFieldSize + size
    · simp only [file, Bool.false_eq_true, if_true, if_false, tooLarge]
      exact ⟨_, rfl⟩
    · simp only [file, Bool.false_eq_true, if_false, tooLarge]
      exact ⟨_, rfl⟩

/-- A boundary turn with the boundary in sight. -/
theorem processBoundary_found {parser : StreamParser} {pos : Nat}
    (found : Text.findText parser.buffer parser.fullBoundary 0 = some pos) :
    let rest := parser.buffer.drop (pos + parser.fullBoundary.length)
    parser.processBoundary =
      (if "--".toList <+: rest then { parser with buffer := rest, state := .complete }
        else { parser with buffer := skipLineEnd rest, state := .headers }, true) := by
  simp only [processBoundary, found, erase_front]
  split <;> rfl

/-- A content turn with the boundary in sight: the field is finished, and what
its size was is no longer of account. -/
theorem processContent_found {parser : StreamParser} {pos : Nat} {field : MultipartField}
    (found : Text.findText parser.buffer parser.fullBoundary 0 = some pos)
    (current : parser.currentField = some field) :
    ∃ size calls, parser.processContent =
      ({ parser with
          buffer := parser.buffer.drop pos
          state := .boundary
          currentFieldSize := size
          currentField := none
          result := parser.result ++ [field]
          calls := calls }, true) := by
  have someField : parser.currentField ≠ none := by simp [current]
  simp only [processContent, found, erase_front]
  have written : ∃ size state calls,
      (if 0 < contentEnd parser.buffer pos then
        parser.writeContentData (contentEnd parser.buffer pos) else parser) =
        { parser with currentFieldSize := size, state := state, calls := calls } := by
    split
    · obtain ⟨calls, isWritten⟩ := writeContentData_eq someField (contentEnd parser.buffer pos)
      exact ⟨_, _, calls, isWritten⟩
    · exact ⟨_, _, _, rfl⟩
  obtain ⟨size, state, calls, isWritten⟩ := written
  rw [isWritten]
  simp only [finalizeCurrentField, current]
  split <;> exact ⟨size, _, rfl⟩

/-- A content turn which gives the buffer up, without its end. -/
theorem processContent_flush {parser : StreamParser}
    (absent : Text.findText parser.buffer parser.fullBoundary 0 = none)
    (long : parser.fullBoundary.length + 100 < parser.buffer.length)
    (current : parser.currentField ≠ none) :
    let size := parser.currentFieldSize +
      (parser.buffer.length - parser.fullBoundary.length - 10)
    ∃ calls, parser.processContent =
      ({ parser with
          buffer := []
          currentFieldSize := size
          state := if parser.limit < size then .error else parser.state
          calls := calls }, false) := by
  obtain ⟨calls, written⟩ := writeContentData_eq current
    (parser.buffer.length - parser.fullBoundary.length - 10)
  simp only [processContent, absent, long, if_true, written]
  exact ⟨calls, rfl⟩

theorem processContent_wait {parser : StreamParser}
    (absent : Text.findText parser.buffer parser.fullBoundary 0 = none)
    (short : ¬ parser.fullBoundary.length + 100 < parser.buffer.length) :
    parser.processContent = (parser, false) := by
  simp only [processContent, absent, short, if_false]

/-! ## Headers behind a line end -/

/-- What stays in front of the headers when a line end is not skipped. -/
def Delayed (front text : Text) : Prop :=
  front = [] ∨ (front = "\r\n".toList ∨ front = "\n".toList) ∧ ¬ OpensBlank text

/-- A line end which is not skipped in a text is still there when more comes. -/
theorem skipLineEnd_append (rest later : Text) :
    ∃ front, (front = [] ∨ front = "\r\n".toList ∨ front = "\n".toList) ∧
      skipLineEnd rest ++ later = front ++ skipLineEnd (rest ++ later) := by
  have longer {needle : Text} (starts : needle <+: rest) : needle <+: rest ++ later :=
    starts.trans (List.prefix_append rest later)
  by_cases carriage : "\r\n".toList <+: rest
  · have enough : 2 ≤ rest.length := carriage.length_le
    refine ⟨[], .inl rfl, ?_⟩
    rw [skipLineEnd, skipLineEnd, if_pos carriage, if_pos (longer carriage), erase_front,
      erase_front, List.drop_append_of_le_length enough, List.nil_append]
  · by_cases bare : "\n".toList <+: rest
    · obtain ⟨tail, rfl⟩ := bare
      exact ⟨[], .inl rfl, by simp [skipLineEnd, erase_front]⟩
    · rw [skipLineEnd, if_neg carriage, if_neg bare, skipLineEnd]
      split
      · rename_i starts
        obtain ⟨tail, whole⟩ := starts
        exact ⟨_, .inr (.inl rfl), by rw [← whole, erase_front]; rfl⟩
      · split
        · rename_i starts
          obtain ⟨tail, whole⟩ := starts
          exact ⟨_, .inr (.inr rfl), by rw [← whole, erase_front]; rfl⟩
        · exact ⟨[], .inl rfl, rfl⟩

/-- No end of the headers starts in a line end which stays in front of them. -/
theorem Delayed.unmarked {front text needle : Text} (delayed : Delayed front text)
    (blank : needle = "\r\n\r\n".toList ∨ needle = "\n\n".toList) :
    ∀ start < front.length, ¬ needle <+: (front ++ text).drop start := by
  obtain rfl | ⟨rfl | rfl, closed⟩ := delayed
  · exact nofun
  · simp only [OpensBlank, not_or] at closed
    intro start inFront
    obtain rfl | rfl : start = 0 ∨ start = 1 := by
      simp at inFront
      omega
    · obtain rfl | rfl := blank
      · simpa using closed.1
      · simp
    · obtain rfl | rfl := blank
      · simp
      · simpa using closed.2.1
  · simp only [OpensBlank, not_or] at closed
    intro start inFront
    obtain rfl : start = 0 := by
      simp at inFront
      omega
    obtain rfl | rfl := blank
    · simp
    · simpa using closed.2.1

theorem headerEnd_delayed {front text : Text} (delayed : Delayed front text) :
    headerEnd (front ++ text) = (headerEnd text).map (front.length + ·) := by
  rw [headerEnd, headerEnd, Text.findText_skip (delayed.unmarked (.inl rfl)),
    Text.findText_skip (delayed.unmarked (.inr rfl))]
  cases Text.findText text "\r\n\r\n".toList 0 with
  | some pos => rfl
  | none => cases Text.findText text "\n\n".toList 0 <;> rfl

/-- The header data behind a line end is the header data without it. -/
theorem headerData_delayed {front text : Text} {stop : Nat} (delayed : Delayed front text)
    (ends : headerEnd text = some stop) :
    Text.substr (front ++ text) 0 (sizeSub (front.length + stop) 4) =
      front ++ Text.substr text 0 (sizeSub stop 4) := by
  obtain rfl | ⟨-, closed⟩ := delayed
  · simp
  · have enough : 4 ≤ stop := by
      rw [headerEnd] at ends
      split at ends
      · cases ends
        omega
      · obtain ⟨pos, found, rfl⟩ := Option.map_eq_some_iff.mp ends
        obtain ⟨-, here, -⟩ := Text.prefix_of_findText found
        simp only [OpensBlank, not_or] at closed
        have notFirst : pos ≠ 0 := by
          rintro rfl
          exact closed.2.1 ((show "\n".toList <+: "\n\n".toList by decide).trans here)
        have notSecond : pos ≠ 1 := by
          rintro rfl
          exact closed.2.2 here
        omega
    rw [sizeSub, if_pos (by omega), sizeSub, if_pos enough, Nat.add_sub_assoc enough, Text.substr,
      Text.substr, List.drop_zero, List.drop_zero, List.take_length_add_append]

/-- An empty line in front of the header data changes nothing. -/
theorem parseHeaderData_delayed {front : Text}
    (lineEnd : front = [] ∨ front = "\r\n".toList ∨ front = "\n".toList) (name data : Text) :
    parseHeaderData name (front ++ data) = parseHeaderData name data := by
  obtain rfl | rfl | rfl := lineEnd
  · rfl
  · have lines : getLines ("\r\n".toList ++ data) = ['\r'] :: getLines data := by
      simp [getLines]
    have ignored : parseHeaderLine {} name ['\r'] = ({}, name) := rfl
    rw [parseHeaderData, lines, List.foldl_cons, ignored, parseHeaderData]
  · have lines : getLines ("\n".toList ++ data) = [] :: getLines data := by
      simp [getLines]
    have ignored : parseHeaderLine {} name [] = ({}, name) := rfl
    rw [parseHeaderData, lines, List.foldl_cons, ignored, parseHeaderData]

/-- Headers which end in a foreseen way end there with all the bytes at hand. -/
theorem headerEnd_foreseen {parser : StreamParser} {later : Text} {stop : Nat}
    (foreseen : ForeseenHeaders later parser) (ends : headerEnd parser.buffer = some stop) :
    headerEnd (parser.buffer ++ later) = some stop ∧
      Text.substr (parser.buffer ++ later) 0 (sizeSub stop 4) =
        Text.substr parser.buffer 0 (sizeSub stop 4) := by
  have bounds := headerEnd_bounds ends
  have cut (enough : 4 ≤ stop) : Text.substr (parser.buffer ++ later) 0 (sizeSub stop 4) =
      Text.substr parser.buffer 0 (sizeSub stop 4) := by
    rw [sizeSub, if_pos enough, Text.substr, Text.substr, List.drop_zero, List.drop_zero,
      List.take_append_of_le_length (by omega)]
  rw [headerEnd] at ends
  split at ends
  · rename_i pos found
    cases ends
    rw [headerEnd, Text.findText_append (by decide) found later]
    exact ⟨rfl, cut (by omega)⟩
  · rename_i absent
    obtain ⟨pos, found, rfl⟩ := Option.map_eq_some_iff.mp ends
    obtain ⟨noOther, enough⟩ := foreseen absent pos found
    have absentThere : Text.findText (parser.buffer ++ later) "\r\n\r\n".toList 0 = none :=
      Text.findText_eq_none_iff.mpr noOther
    rw [headerEnd, absentThere, Text.findText_append (by decide) found later]
    refine ⟨rfl, ?_⟩
    obtain enough | rfl := enough
    · exact cut (by omega)
    · rw [List.append_nil]

/-! ## The parser with all the bytes at hand -/

/-- A flush takes its part of what is counted in the end. -/
theorem counted_flush {boundary pending : Nat} (long : boundary + 100 < pending)
    (later : List Text) :
    counted boundary pending later = pending - boundary - 10 + counted boundary 0 later := by
  cases later with
  | nil => simp [counted, long]
  | cons chunk later => simp [counted, long]

/-- What flushes have taken from the parser is still with the one which has all
the bytes at hand and has counted none of them. -/
structure Behind (later : List Text) (parser ahead : StreamParser) (flushed : Text) : Prop where
  buffer : ahead.buffer = flushed ++ (parser.buffer ++ later.flatten)
  current : parser.currentField ≠ none
  uncounted : ahead.currentFieldSize = 0
  unmarked : ∀ start < flushed.length, ¬ parser.fullBoundary <+: ahead.buffer.drop start
  sizes : flushed = [] ∧ parser.currentFieldSize = 0 ∨
    parser.fullBoundary.length + 100 < flushed.length ∧ 0 < parser.currentFieldSize ∧
      parser.currentFieldSize + parser.fullBoundary.length + 10 ≤ flushed.length
  within : parser.currentFieldSize ≤ parser.limit
  reaches : 0 < parser.currentFieldSize →
    ¬ parser.fullBoundary <:+: parser.buffer ++ later.flatten →
      parser.limit < ahead.buffer.length - parser.fullBoundary.length - 10 →
        parser.limit < parser.currentFieldSize +
          counted parser.fullBoundary.length parser.buffer.length later

/-- A parser which waits for later chunks, beside one which has their bytes. -/
inductive Ahead (later : List Text) (parser ahead : StreamParser) : Prop where
  | boundary (agree : Agree parser ahead) (inState : parser.state = .boundary)
      (buffer : ahead.buffer = parser.buffer ++ later.flatten)
  | headers (agree : Agree parser ahead) (inState : parser.state = .headers) {front : Text}
      (delayed : Delayed front ahead.buffer)
      (buffer : parser.buffer ++ later.flatten = front ++ ahead.buffer)
  | content (agree : Agree parser ahead) (inState : parser.state = .content) (flushed : Text)
      (behind : Behind later parser ahead flushed)
  | ended (agree : Agree parser ahead)
      (inState : parser.state = .complete ∨ parser.state = .error)

variable {later : List Text} {parser ahead next : StreamParser} {goes : Bool}

theorem boundary_turn (agree : Agree parser ahead) (inState : parser.state = .boundary)
    (buffer : ahead.buffer = parser.buffer ++ later.flatten) (busy : parser.idle = false)
    (foreseen : ForeseenBoundary later.flatten parser) (turned : parser.turn = (next, goes)) :
    ∃ answer, Ahead later next answer ∧ machine.drain ahead = machine.drain answer := by
  have aheadState : ahead.state = .boundary := agree.state ▸ inState
  have aheadBusy : ahead.idle = false := by
    rw [busy_iff, buffer, aheadState]
    exact ⟨by simp [(busy_iff.mp busy).1], nofun, nofun⟩
  have aheadTurn : machine.turn ahead = ahead.processBoundary := by
    simp only [machine, turn, aheadState]
  have parserTurn : parser.processBoundary = (next, goes) := by
    rwa [turn, inState] at turned
  unfold ForeseenBoundary at foreseen
  split at foreseen
  · rename_i pos found
    obtain ⟨closing, lineEnd⟩ := foreseen
    have aheadFound : Text.findText ahead.buffer ahead.fullBoundary 0 = some pos := by
      rw [buffer, ← agree.fullBoundary]
      exact Text.findText_append agree.marked found _
    have aheadRest : ahead.buffer.drop (pos + ahead.fullBoundary.length) =
        parser.buffer.drop (pos + parser.fullBoundary.length) ++ later.flatten := by
      rw [buffer, ← agree.fullBoundary,
        List.drop_append_of_le_length (Text.findText_bound agree.marked found)]
    rw [processBoundary_found aheadFound, aheadRest] at aheadTurn
    rw [processBoundary_found found] at parserTurn
    generalize parser.buffer.drop (pos + parser.fullBoundary.length) = rest at *
    by_cases closed : "--".toList <+: rest
    · rw [if_pos (closed.trans (List.prefix_append _ _))] at aheadTurn
      rw [if_pos closed] at parserTurn
      cases parserTurn
      refine ⟨_, ?_, StreamMachine.drain_turn aheadBusy aheadTurn⟩
      exact .ended { agree with state := rfl } (.inl rfl)
    · rw [if_neg (mt closing closed)] at aheadTurn
      rw [if_neg closed] at parserTurn
      cases parserTurn
      obtain ⟨front, isLineEnd, kept⟩ := skipLineEnd_append rest later.flatten
      have delayed : Delayed front (skipLineEnd (rest ++ later.flatten)) := by
        obtain skipped | unopened := lineEnd
        · exact .inl (List.self_eq_append_left.mp (skipped.trans kept))
        · exact isLineEnd.imp_right (⟨·, unopened⟩)
      refine ⟨_, ?_, StreamMachine.drain_turn aheadBusy aheadTurn⟩
      exact .headers { agree with state := rfl } rfl delayed kept
  · rename_i absent
    by_cases long : parser.fullBoundary.length + 100 < parser.buffer.length
    · have aheadAbsent : Text.findText ahead.buffer ahead.fullBoundary 0 = none := by
        rw [buffer, ← agree.fullBoundary]
        exact Text.findText_eq_none_iff.mpr (foreseen long)
      have aheadLong : ahead.fullBoundary.length + 100 < ahead.buffer.length := by
        rw [buffer, ← agree.fullBoundary, List.length_append]
        omega
      simp only [processBoundary, absent, long, if_true] at parserTurn
      simp only [processBoundary, aheadAbsent, aheadLong, if_true] at aheadTurn
      obtain ⟨rfl, rfl⟩ := Prod.mk.inj parserTurn
      refine ⟨_, ?_, StreamMachine.drain_stop_drain aheadBusy aheadTurn⟩
      exact .ended { agree with state := rfl } (.inr rfl)
    · simp only [processBoundary, absent, long, if_false] at parserTurn
      obtain ⟨rfl, rfl⟩ := Prod.mk.inj parserTurn
      exact ⟨ahead, .boundary agree inState buffer, rfl⟩

theorem headers_turn (agree : Agree parser ahead) (inState : parser.state = .headers)
    {front : Text} (delayed : Delayed front ahead.buffer)
    (buffer : parser.buffer ++ later.flatten = front ++ ahead.buffer)
    (foreseen : ForeseenHeaders later.flatten parser) (turned : parser.turn = (next, goes)) :
    ∃ answer, Ahead later next answer ∧ machine.drain ahead = machine.drain answer := by
  have aheadState : ahead.state = .headers := agree.state ▸ inState
  have aheadTurn : machine.turn ahead = ahead.processHeaders := by
    simp only [machine, turn, aheadState]
  have parserTurn : parser.processHeaders = (next, goes) := by
    rwa [turn, inState] at turned
  cases ends : headerEnd parser.buffer with
  | none =>
      simp only [processHeaders, ends] at parserTurn
      obtain ⟨rfl, rfl⟩ := Prod.mk.inj parserTurn
      exact ⟨ahead, .headers agree inState delayed buffer, rfl⟩
  | some stop =>
      obtain ⟨endsThere, sameData⟩ := headerEnd_foreseen foreseen ends
      have bounds := headerEnd_bounds ends
      rw [buffer, headerEnd_delayed delayed] at endsThere
      obtain ⟨aheadStop, aheadEnds, rfl⟩ := Option.map_eq_some_iff.mp endsThere
      have aheadBusy : ahead.idle = false := by
        have some_byte := headerEnd_bounds aheadEnds
        rw [busy_iff, aheadState]
        exact ⟨List.ne_nil_of_length_pos (by omega), nofun, nofun⟩
      have isLineEnd := delayed.imp_right And.left
      rw [buffer, headerData_delayed delayed aheadEnds] at sameData
      simp only [processHeaders, ends, erase_front, ← sameData,
        parseHeaderData_delayed isLineEnd] at parserTurn
      simp only [processHeaders, aheadEnds, erase_front, ← agree.currentFieldName] at aheadTurn
      obtain ⟨rfl, rfl⟩ := Prod.mk.inj parserTurn
      refine ⟨_, ?_, StreamMachine.drain_turn aheadBusy aheadTurn⟩
      have behind : ahead.buffer.drop aheadStop =
          parser.buffer.drop (front.length + aheadStop) ++ later.flatten := by
        rw [← List.drop_append_of_le_length bounds.2, buffer, ← List.drop_drop, List.drop_left]
      refine .content
        { agree with state := rfl, currentFieldName := rfl, currentField := rfl } rfl [] ?_
      exact
        { buffer := behind
          current := nofun
          uncounted := rfl
          unmarked := nofun
          sizes := .inl ⟨rfl, rfl⟩
          within := Nat.zero_le _
          reaches := nofun }

/-- What was flushed holds no start of a boundary. -/
theorem Behind.findText {flushed : Text} (behind : Behind later parser ahead flushed) :
    Text.findText ahead.buffer parser.fullBoundary 0 =
      (Text.findText (parser.buffer ++ later.flatten) parser.fullBoundary 0).map
        (flushed.length + ·) := by
  have unmarked := behind.unmarked
  rw [behind.buffer] at unmarked ⊢
  exact Text.findText_skip unmarked

/-- A flush without an error, when no boundary starts in what it takes. -/
theorem Behind.flush {flushed : Text} {calls : List CallbackCall}
    (behind : Behind later parser ahead flushed)
    (long : parser.fullBoundary.length + 100 < parser.buffer.length)
    (unmarked : ∀ start < parser.buffer.length,
      ¬ parser.fullBoundary <+: (parser.buffer ++ later.flatten).drop start)
    (first : ¬ parser.fullBoundary <:+: later.flatten → parser.currentFieldSize = 0 →
      parser.limit < (parser.buffer ++ later.flatten).length - parser.fullBoundary.length - 10 →
        parser.limit < counted parser.fullBoundary.length parser.buffer.length later)
    (within : parser.currentFieldSize +
      (parser.buffer.length - parser.fullBoundary.length - 10) ≤ parser.limit) :
    Behind later
      { parser with
        buffer := []
        currentFieldSize := parser.currentFieldSize +
          (parser.buffer.length - parser.fullBoundary.length - 10)
        calls := calls }
      ahead (flushed ++ parser.buffer) where
  buffer := by rw [behind.buffer, List.append_assoc, List.nil_append]
  current := behind.current
  uncounted := behind.uncounted
  unmarked := by
    intro start inFront
    by_cases before : start < flushed.length
    · exact behind.unmarked start before
    · rw [List.length_append] at inFront
      have here := unmarked (start - flushed.length) (by omega)
      rwa [behind.buffer, ← Nat.add_sub_cancel' (Nat.not_lt.mp before), ← List.drop_drop,
        List.drop_left]
  sizes := by
    have sizes := behind.sizes
    rw [List.length_append]
    dsimp only
    refine .inr ⟨by omega, by omega, ?_⟩
    obtain ⟨rfl, nothing⟩ | ⟨-, -, counts⟩ := sizes
    · rw [List.length_nil]
      omega
    · omega
  within := within
  reaches := by
    intro _ absent tooLarge
    rw [List.nil_append] at absent
    have total : parser.limit < parser.currentFieldSize +
        counted parser.fullBoundary.length parser.buffer.length later := by
      by_cases started : 0 < parser.currentFieldSize
      · exact behind.reaches started (mt (Text.infix_skip unmarked).mp absent) tooLarge
      · have nothing : parser.currentFieldSize = 0 := Nat.eq_zero_of_not_pos started
        obtain ⟨rfl, -⟩ | ⟨-, positive, -⟩ := behind.sizes
        · rw [nothing, Nat.zero_add]
          refine first absent nothing ?_
          rwa [behind.buffer, List.nil_append] at tooLarge
        · exact absurd positive started
    rw [counted_flush long] at total
    show parser.limit < _
    dsimp only
    rw [List.length_nil]
    omega

/-- A flush with an error is an error for all the bytes too: no boundary comes to
undo it. -/
theorem Behind.over {flushed : Text} (behind : Behind later parser ahead flushed)
    (agree : Agree parser ahead)
    (long : parser.fullBoundary.length + 100 < parser.buffer.length)
    (unmarked : ∀ start < parser.buffer.length,
      ¬ parser.fullBoundary <+: (parser.buffer ++ later.flatten).drop start)
    (comes : parser.fullBoundary <:+: later.flatten → parser.currentFieldSize +
      (parser.buffer.length - parser.fullBoundary.length - 10) ≤ parser.limit)
    (tooLarge : parser.limit < parser.currentFieldSize +
      (parser.buffer.length - parser.fullBoundary.length - 10)) :
    Text.findText ahead.buffer ahead.fullBoundary 0 = none ∧
      ahead.fullBoundary.length + 100 < ahead.buffer.length ∧
      ahead.limit < ahead.currentFieldSize +
        (ahead.buffer.length - ahead.fullBoundary.length - 10) := by
  have absent : ¬ parser.fullBoundary <:+: parser.buffer ++ later.flatten := fun occurs =>
    absurd tooLarge (Nat.not_lt.mpr (comes ((Text.infix_skip unmarked).mp occurs)))
  have lengths : ahead.buffer.length =
      flushed.length + (parser.buffer.length + later.flatten.length) := by
    rw [behind.buffer, List.length_append, List.length_append]
  have counts : parser.currentFieldSize ≤ flushed.length := by
    obtain ⟨-, nothing⟩ | ⟨-, -, counts⟩ := behind.sizes <;> omega
  refine ⟨?_, ?_, ?_⟩
  · rw [← agree.fullBoundary, behind.findText, Text.findText_eq_none_iff.mpr absent]
    rfl
  · rw [← agree.fullBoundary]
    omega
  · rw [← agree.limit, ← agree.fullBoundary, behind.uncounted]
    omega

theorem content_turn (agree : Agree parser ahead) (inState : parser.state = .content)
    {flushed : Text} (behind : Behind later parser ahead flushed) (busy : parser.idle = false)
    (foreseen : ForeseenContent later parser) (turned : parser.turn = (next, goes)) :
    ∃ answer, Ahead later next answer ∧ machine.drain ahead = machine.drain answer := by
  have aheadState : ahead.state = .content := agree.state ▸ inState
  have aheadBusy : ahead.idle = false := by
    rw [busy_iff, behind.buffer, aheadState]
    exact ⟨by simp [(busy_iff.mp busy).1], nofun, nofun⟩
  have aheadTurn : machine.turn ahead = ahead.processContent := by
    simp only [machine, turn, aheadState]
  have parserTurn : parser.processContent = (next, goes) := by
    rwa [turn, inState] at turned
  have aheadFind := behind.findText
  rw [agree.fullBoundary] at aheadFind
  cases found : Text.findText parser.buffer parser.fullBoundary 0 with
  | some pos =>
      obtain ⟨field, isCurrent⟩ := Option.ne_none_iff_exists'.mp behind.current
      rw [← agree.fullBoundary, Text.findText_append agree.marked found, Option.map_some,
        agree.fullBoundary] at aheadFind
      have bound := Text.findText_bound agree.marked found
      obtain ⟨size, calls, parserDoes⟩ := processContent_found found isCurrent
      obtain ⟨aheadSize, aheadCalls, aheadDoes⟩ :=
        processContent_found aheadFind (agree.currentField ▸ isCurrent)
      rw [parserDoes] at parserTurn
      rw [aheadDoes] at aheadTurn
      obtain ⟨rfl, rfl⟩ := Prod.mk.inj parserTurn
      refine ⟨_, ?_, StreamMachine.drain_turn aheadBusy aheadTurn⟩
      refine .boundary
        { agree with
          state := rfl
          currentField := rfl
          result := congrArg (· ++ [field]) agree.result } rfl ?_
      show ahead.buffer.drop (flushed.length + pos) = parser.buffer.drop pos ++ later.flatten
      rw [behind.buffer, ← List.drop_drop, List.drop_left,
        List.drop_append_of_le_length (by omega)]
  | none =>
      by_cases long : parser.fullBoundary.length + 100 < parser.buffer.length
      · obtain ⟨unmarked, comes, first⟩ := foreseen found long
        obtain ⟨calls, parserDoes⟩ := processContent_flush found long behind.current
        rw [parserDoes] at parserTurn
        obtain ⟨rfl, rfl⟩ := Prod.mk.inj parserTurn
        by_cases tooLarge : parser.limit < parser.currentFieldSize +
            (parser.buffer.length - parser.fullBoundary.length - 10)
        · obtain ⟨nowhere, aheadLong, aheadOver⟩ := behind.over agree long unmarked comes tooLarge
          obtain ⟨aheadCalls, aheadDoes⟩ :=
            processContent_flush nowhere aheadLong (agree.currentField ▸ behind.current)
          rw [aheadDoes, if_pos aheadOver] at aheadTurn
          rw [if_pos tooLarge]
          refine ⟨_, ?_, StreamMachine.drain_stop_drain aheadBusy aheadTurn⟩
          exact .ended { agree with state := rfl } (.inr rfl)
        · rw [if_neg tooLarge]
          refine ⟨ahead, ?_, rfl⟩
          exact .content { agree with state := agree.state } inState (flushed ++ parser.buffer)
            (behind.flush long unmarked first (Nat.not_lt.mp tooLarge))
      · rw [processContent_wait found long] at parserTurn
        obtain ⟨rfl, rfl⟩ := Prod.mk.inj parserTurn
        exact ⟨ahead, .content agree inState flushed behind, rfl⟩

/-! ## Between chunks -/

theorem rests_cases (rests : machine.Rests parser) (open_ : parser.state ≠ .complete)
    (sound : parser.state ≠ .error) : parser.buffer = [] ∨ parser.turn = (parser, false) := by
  refine rests.imp_left fun idle => ?_
  change parser.idle = true at idle
  simpa [StreamParser.idle, open_, sound] using idle

theorem findText_nil {needle : Text} (some_needle : needle ≠ []) :
    Text.findText [] needle 0 = none := by
  rw [Text.findText_eq_none_iff, List.drop_nil, List.infix_nil]
  exact some_needle

/-- A parser which waits for a boundary has none in a short buffer. -/
theorem rests_boundary (marked : parser.fullBoundary ≠ []) (inState : parser.state = .boundary)
    (rests : machine.Rests parser) :
    Text.findText parser.buffer parser.fullBoundary 0 = none ∧
      ¬ parser.fullBoundary.length + 100 < parser.buffer.length := by
  obtain empty | waits := rests_cases rests (by simp [inState]) (by simp [inState])
  · rw [empty]
    exact ⟨findText_nil marked, nofun⟩
  · simp only [turn, inState] at waits
    cases found : Text.findText parser.buffer parser.fullBoundary 0 with
    | some pos =>
        rw [processBoundary_found found] at waits
        cases (Prod.mk.inj waits).2
    | none =>
        refine ⟨rfl, fun long => ?_⟩
        simp only [processBoundary, found, long, if_true] at waits
        have states := congrArg StreamParser.state (Prod.mk.inj waits).1
        rw [inState] at states
        cases states

theorem rests_headers (inState : parser.state = .headers) (rests : machine.Rests parser) :
    headerEnd parser.buffer = none := by
  obtain empty | waits := rests_cases rests (by simp [inState]) (by simp [inState])
  · rw [empty]
    rfl
  · simp only [turn, inState] at waits
    cases ends : headerEnd parser.buffer with
    | none => rfl
    | some stop =>
        simp only [processHeaders, ends] at waits
        cases (Prod.mk.inj waits).2

/-- A parser which waits for content has no boundary in a short buffer. -/
theorem rests_content (marked : parser.fullBoundary ≠ []) (inState : parser.state = .content)
    (current : parser.currentField ≠ none) (rests : machine.Rests parser) :
    Text.findText parser.buffer parser.fullBoundary 0 = none ∧
      ¬ parser.fullBoundary.length + 100 < parser.buffer.length := by
  obtain empty | waits := rests_cases rests (by simp [inState]) (by simp [inState])
  · rw [empty]
    exact ⟨findText_nil marked, nofun⟩
  · simp only [turn, inState] at waits
    cases found : Text.findText parser.buffer parser.fullBoundary 0 with
    | some pos =>
        obtain ⟨field, isCurrent⟩ := Option.ne_none_iff_exists'.mp current
        obtain ⟨size, calls, does⟩ := processContent_found found isCurrent
        rw [does] at waits
        cases (Prod.mk.inj waits).2
    | none =>
        refine ⟨rfl, fun long => ?_⟩
        obtain ⟨calls, does⟩ := processContent_flush found long current
        rw [does] at waits
        have buffers := congrArg StreamParser.buffer (Prod.mk.inj waits).1
        simp [← buffers] at long

/-- A chunk received is a chunk fewer to come. -/
theorem Ahead.receives {chunk : Text} (related : Ahead (chunk :: later) parser ahead)
    (rests : machine.Rests parser) : Ahead later (machine.receive parser chunk) ahead := by
  have flat (before : Text) : before ++ (chunk :: later).flatten =
      (before ++ chunk) ++ later.flatten := by
    rw [List.flatten_cons, List.append_assoc]
  cases related with
  | boundary agree inState buffer =>
      exact .boundary { agree with state := agree.state } inState (by rw [buffer, flat]; rfl)
  | headers agree inState delayed buffer =>
      exact .headers { agree with state := agree.state } inState delayed
        (by rw [← buffer, flat]; rfl)
  | content agree inState flushed behind =>
      have short := (rests_content agree.marked inState behind.current rests).2
      refine .content { agree with state := agree.state } inState flushed
        { behind with
          buffer := by rw [behind.buffer, flat]; rfl
          reaches := fun started absent tooLarge => ?_ }
      have total := behind.reaches started (by rwa [flat]) tooLarge
      rw [counted, if_neg short, ← List.length_append] at total
      exact total
  | ended agree inState =>
      exact .ended { agree with state := agree.state } inState

/-- Every foreseen turn is one of the parser with all the bytes at hand. -/
theorem lookahead : machine.Lookahead Foreseen Ahead where
  turns := by
    intro later parser ahead next goes related busy foreseen turned
    cases related with
    | boundary agree inState buffer =>
        simp only [Foreseen, inState] at foreseen
        exact boundary_turn agree inState buffer busy foreseen turned
    | headers agree inState delayed buffer =>
        simp only [Foreseen, inState] at foreseen
        exact headers_turn agree inState delayed buffer foreseen turned
    | content agree inState flushed behind =>
        simp only [Foreseen, inState] at foreseen
        exact content_turn agree inState behind busy foreseen turned
    | ended agree inState =>
        have running := (busy_iff.mp busy).2
        exact absurd inState (not_or.mpr running)
  receives := Ahead.receives

/-- With nothing more to come, the parser with all the bytes at hand stops in
the same state. -/
theorem Ahead.final (related : Ahead [] parser ahead) (rests : machine.Rests parser) :
    (machine.drain ahead).state = parser.state ∧ (machine.drain ahead).result = parser.result := by
  have resting (agree : Agree parser ahead) (restsAhead : machine.Rests ahead) :
      (machine.drain ahead).state = parser.state ∧
        (machine.drain ahead).result = parser.result := by
    rw [StreamMachine.drain_rests restsAhead]
    exact ⟨agree.state.symm, agree.result.symm⟩
  cases related with
  | boundary agree inState buffer =>
      obtain ⟨absent, short⟩ := rests_boundary agree.marked inState rests
      rw [List.flatten_nil, List.append_nil] at buffer
      rw [agree.fullBoundary, ← buffer] at absent short
      refine resting agree (.inr ?_)
      simp only [machine, turn, ← agree.state, inState, processBoundary, absent, short, if_false]
  | headers agree inState delayed buffer =>
      have absent := rests_headers inState rests
      rw [List.flatten_nil, List.append_nil] at buffer
      rw [buffer, headerEnd_delayed delayed, Option.map_eq_none_iff] at absent
      refine resting agree (.inr ?_)
      simp only [machine, turn, ← agree.state, inState, processHeaders, absent]
  | content agree inState flushed behind =>
      obtain ⟨absent, short⟩ := rests_content agree.marked inState behind.current rests
      have aheadTurn : machine.turn ahead = ahead.processContent := by
        simp only [machine, turn, ← agree.state, inState]
      have aheadFind := behind.findText
      rw [List.flatten_nil, List.append_nil, absent, Option.map_none, agree.fullBoundary]
        at aheadFind
      by_cases long : ahead.fullBoundary.length + 100 < ahead.buffer.length
      · obtain ⟨calls, does⟩ :=
          processContent_flush aheadFind long (agree.currentField ▸ behind.current)
        have started : 0 < parser.currentFieldSize := by
          obtain ⟨rfl, -⟩ | ⟨-, started, -⟩ := behind.sizes
          · rw [behind.buffer, List.nil_append, List.flatten_nil, List.append_nil,
              ← agree.fullBoundary] at long
            exact absurd long short
          · exact started
        have within : ¬ ahead.limit < ahead.currentFieldSize +
            (ahead.buffer.length - ahead.fullBoundary.length - 10) := by
          rw [← agree.limit, behind.uncounted, Nat.zero_add, ← agree.fullBoundary]
          intro tooLarge
          have total := behind.reaches started
            (by rw [List.flatten_nil, List.append_nil]; exact Text.findText_eq_none_iff.mp absent)
            tooLarge
          rw [counted, if_neg short, Nat.add_zero] at total
          exact absurd behind.within (Nat.not_le.mpr total)
        have busy : machine.idle ahead = false := by
          refine busy_iff.mpr ⟨List.ne_nil_of_length_pos (by omega), ?_⟩
          simp [← agree.state, inState]
        rw [StreamMachine.drain_stop busy (aheadTurn.trans does), if_neg within]
        exact ⟨agree.state.symm, agree.result.symm⟩
      · exact resting agree (.inr (aheadTurn.trans (processContent_wait aheadFind long)))
  | ended agree inState =>
      refine resting agree (.inl ?_)
      obtain inState | inState := inState <;> simp [machine, idle, ← agree.state, inState]

theorem outcome_of_state {parser other : StreamParser} (same : parser.state = other.state) :
    parser.outcome = other.outcome := by
  rw [outcome, outcome, isComplete, isComplete, isIntact, isIntact, same]

/-- A run of `feed_data` calls whose turns are all foreseen ends like the one
call with all the bytes. -/
theorem chunks_agree (boundary : Text) (config : MultipartConfig)
    (hasProgressCallback hasErrorCallback : Bool) {chunks : List Text} {last : StreamParser}
    (feeds : machine.Feeds Foreseen
      (new boundary config hasProgressCallback hasErrorCallback) chunks last) :
    let start := new boundary config hasProgressCallback hasErrorCallback
    (start.feedAll chunks).outcome = (start.feedData chunks.flatten).outcome ∧
      (start.feedAll chunks).result = (start.feedData chunks.flatten).result := by
  intro start
  have related : Ahead chunks start (machine.receive start chunks.flatten) :=
    .boundary ⟨by simp [start, new], rfl, rfl, rfl, rfl, rfl, rfl⟩ rfl rfl
  obtain ⟨rests, answer, relatedAnswer, drained⟩ := lookahead.feeds feeds (.inl rfl) related
  obtain ⟨sameState, sameResult⟩ := relatedAnswer.final rests
  have single : start.feedData chunks.flatten = machine.drain answer := drained
  have chunked : start.feedAll chunks = last := StreamMachine.feedAll_of_feeds feeds
  rw [single, chunked]
  exact ⟨outcome_of_state sameState.symm, sameResult.symm⟩

/-- One field, cut in its headers, in its content and in the boundary. -/
theorem chunks_agree_field :
    let start := new "b".toList {} false false
    let chunks := ["--b\r\nX: y\r\n".toList, "\r\nhel".toList, "lo\r\n--".toList, "b--".toList]
    (start.feedAll chunks).outcome = (start.feedData chunks.flatten).outcome ∧
      (start.feedAll chunks).result = (start.feedData chunks.flatten).result := by
  refine chunks_agree "b".toList {} false false
    (.feed (.turn rfl ⟨by decide, .inl rfl⟩ rfl
        (.stop rfl (fun _ _ found => nomatch found) rfl))
      (.feed (.turn rfl (fun absent => nomatch absent) rfl (.stop rfl (fun _ => nofun) rfl))
        (.feed (.stop rfl (fun _ => nofun) rfl)
          (.feed (.turn rfl (fun absent => nomatch absent) rfl
              (.turn rfl ⟨by decide, .inl rfl⟩ rfl (.idle rfl)))
            .done))))

/-- A chunk which ends between the boundary and its closing dashes makes the
parser wait for headers; the same bytes in one call complete it. -/
theorem cut_closing_dashes :
    ∃ (boundary : Text) (config : MultipartConfig) (chunks : List Text),
      let start := new boundary config false false
      ¬ ((start.feedAll chunks).outcome = (start.feedData chunks.flatten).outcome ∧
        (start.feedAll chunks).result = (start.feedData chunks.flatten).result) := by
  refine ⟨"b".toList, {}, ["--b".toList, "--".toList], fun same => ?_⟩
  have chunked : (new "b".toList {} false false).feedAll ["--b".toList, "--".toList] = _ :=
    have run : machine.Feeds (fun _ _ => True) (new "b".toList {} false false) _ _ :=
      .feed (.turn rfl trivial rfl (.idle rfl)) (.feed (.stop rfl trivial rfl) .done)
    StreamMachine.feedAll_of_feeds run
  have single : (new "b".toList {} false false).feedData "--b--".toList = _ :=
    have run : machine.Drains (fun _ _ => True) [] _ _ := .turn rfl trivial rfl (.idle rfl)
    StreamMachine.drain_of_drains run
  have outcomes : Outcome.needsMore = Outcome.complete := by
    have same := same.1
    rw [chunked] at same
    exact same.trans (congrArg outcome single)
  cases outcomes

end Foxhttp.Parser.StreamParser
