import Mathlib.Data.List.Forall2
import Foxhttp.Parser.MultipartChunks

/-!
# Limits of the multipart stream parser

`write_content_data` raises the error of a field which is too large, but where
the boundary is in sight `process_content` goes on to put the field into the
result and to overwrite the state. A `Meter` keeps what the parser forgets: the
content of the fields and whether an error was raised. The limits hold in the
runs in which no such turn finds a field too large.
-/

namespace Foxhttp.Parser

open Foxhttp.Library

/-- What a parse has seen: the content of the current field that is no longer
in the buffer, the contents of the fields in the result, and whether
`handle_error` has been called. -/
structure Meter where
  passed : Text := []
  contents : List Text := []
  failed : Bool := false

namespace StreamParser

/-- The limit for the content of a field. -/
def limitFor (config : MultipartConfig) (field : MultipartField) : Nat :=
  if field.isFile then config.maxFileSize else config.maxFieldSize

/-- A content without the line end which belongs to the boundary behind it. -/
def dropLineEnd (text : Text) : Text :=
  if "\r\n".toList <:+ text then text.take (text.length - 2)
  else if "\n".toList <:+ text then text.take (text.length - 1)
  else text

/-- The content of the current field up to a boundary in the buffer. -/
def fieldContent (parser : StreamParser) (meter : Meter) (boundaryPos : Nat) : Text :=
  dropLineEnd (meter.passed ++ parser.buffer.take boundaryPos)

/-- What is noted of a turn. -/
def measure (parser : StreamParser) (meter : Meter) : Meter :=
  match parser.state with
  | .boundary => { meter with failed := meter.failed || parser.processBoundary.1.state == .error }
  | .content =>
      match Text.findText parser.buffer parser.fullBoundary 0 with
      | none =>
          if parser.fullBoundary.length + 100 < parser.buffer.length then
            { meter with
              passed := meter.passed ++ parser.buffer
              failed := meter.failed || parser.processContent.1.state == .error }
          else meter
      | some boundaryPos =>
          { passed := []
            contents := meter.contents ++ [parser.fieldContent meter boundaryPos]
            failed := meter.failed || (0 < contentEnd parser.buffer boundaryPos &&
              (parser.writeContentData (contentEnd parser.buffer boundaryPos)).state == .error) }
  | _ => meter

/-- Measuring, turn by turn. -/
def metering : machine.Note Meter where
  note := measure
  quiet := by
    intro parser turned meter
    change parser.turn = (parser, false) at turned
    cases inState : parser.state with
    | boundary =>
        rw [turn, inState] at turned
        have sound : (ParseState.boundary == ParseState.error) = false := rfl
        simp only [measure, inState, turned, sound, Bool.or_false]
    | content =>
        rw [turn, inState] at turned
        cases found : Text.findText parser.buffer parser.fullBoundary 0 with
        | none =>
            have short : ¬ parser.fullBoundary.length + 100 < parser.buffer.length := by
              intro long
              simp only [processContent, found, long, if_true, Prod.mk.injEq, and_true] at turned
              have emptied : parser.buffer = [] := (congrArg buffer turned).symm
              rw [emptied] at long
              exact absurd long (Nat.not_lt_zero _)
            simp only [measure, inState, found, short, if_false]
        | some boundaryPos =>
            simp only [processContent, found, Prod.mk.injEq, Bool.true_eq_false,
              and_false] at turned
    | headers => simp only [measure, inState]
    | complete => simp only [measure, inState]
    | error => simp only [measure, inState]

/-- The parser with its meter. -/
def metered : StreamMachine (StreamParser × Meter) Char :=
  machine.noting metering

/-- A content turn finds a boundary only behind a content which is in the limit
of its field, and with it in the limit for all fields together. -/
def FindsWithin (maxTotalSize : Nat) (_ : List Text) (measured : StreamParser × Meter) : Prop :=
  measured.1.state = .content → ∀ boundaryPos,
    Text.findText measured.1.buffer measured.1.fullBoundary 0 = some boundaryPos →
      (measured.1.fieldContent measured.2 boundaryPos).length ≤ measured.1.limit ∧
      measured.2.contents.flatten.length +
        (measured.1.fieldContent measured.2 boundaryPos).length ≤ maxTotalSize

/-- An error is final, and without one the fields of the result are within
their limits. -/
structure Enforced (config : MultipartConfig) (maxTotalSize : Nat)
    (measured : StreamParser × Meter) : Prop where
  final : measured.2.failed = true → measured.1.state = .error
  stays : measured.1.state = .error → ∀ chunks,
    (measured.1.feedAll chunks).state = .error ∧ (measured.1.feedAll chunks).isIntact = false
  fields : measured.1.state ≠ .error →
    List.Forall₂ (fun field content => content.length ≤ limitFor config field)
      measured.1.result measured.2.contents
  total : measured.1.state ≠ .error → measured.2.contents.flatten.length ≤ maxTotalSize

/-! ## Counting the content -/

theorem contentEnd_le (buffer : Text) (stop : Nat) : contentEnd buffer stop ≤ stop := by
  induction stop with
  | zero => exact Nat.le_refl _
  | succ stop inductionHypothesis =>
    rw [contentEnd]
    split
    · exact Nat.le_succ_of_le inductionHypothesis
    · exact Nat.le_refl _

theorem le_dropLineEnd (text : Text) : text.length ≤ (dropLineEnd text).length + 2 := by
  rw [dropLineEnd]
  split
  · rw [List.length_take]
    omega
  · split
    · rw [List.length_take]
      omega
    · omega

/-- The content as it is counted leaves out what belongs to the boundary. -/
theorem contentEnd_le_dropLineEnd {buffer : Text} {stop : Nat} (inside : stop ≤ buffer.length) :
    contentEnd buffer stop ≤ (dropLineEnd (buffer.take stop)).length := by
  have taken : (buffer.take stop).length = stop := by rw [List.length_take, Nat.min_eq_left inside]
  have last {front : Text} {c : Char} (ends : buffer.take stop = front ++ [c]) :
      stop = front.length + 1 ∧ buffer[front.length]? = some c := by
    have size := congrArg List.length ends
    rw [taken, List.length_append, List.length_singleton] at size
    refine ⟨size, ?_⟩
    rw [← List.getElem?_take_of_lt (Nat.lt_of_lt_of_eq (Nat.lt_succ_self _) size.symm), ends]
    simp
  have skips {front : Text} {c : Char} (ends : buffer.take stop = front ++ [c])
      (isLineEnd : c = '\n' ∨ c = '\r') :
      contentEnd buffer stop = contentEnd buffer front.length := by
    obtain ⟨size, here⟩ := last ends
    rw [size, contentEnd, if_pos]
    rcases isLineEnd with rfl | rfl
    · exact .inl here
    · exact .inr here
  rw [dropLineEnd]
  split
  · rename_i lineEnd
    obtain ⟨front, split⟩ := lineEnd
    have feed : buffer.take stop = (front ++ ['\r']) ++ ['\n'] := by
      rw [← split, List.append_assoc]
      rfl
    have size := (last feed).1
    rw [skips feed (.inl rfl), List.length_append, List.length_singleton, contentEnd, if_pos]
    · rw [taken, List.length_take, taken]
      rw [List.length_append, List.length_singleton] at size
      have bound := contentEnd_le buffer front.length
      omega
    · refine .inr ?_
      have here : (buffer.take stop)[front.length]? = some '\r' := by simp [feed]
      rw [List.length_append, List.length_singleton] at size
      rwa [List.getElem?_take_of_lt (by omega)] at here
  · split
    · rename_i lineEnd
      obtain ⟨front, split⟩ := lineEnd
      have feed : buffer.take stop = front ++ ['\n'] := split.symm
      have size := (last feed).1
      rw [skips feed (.inl rfl), taken, List.length_take, taken, size]
      have bound := contentEnd_le buffer front.length
      omega
    · rw [taken]
      exact contentEnd_le buffer stop

/-- What is counted of a field is not more than its content. -/
theorem counted_le_fieldContent {parser : StreamParser} {meter : Meter} {boundaryPos : Nat}
    (counts : meter.passed = [] ∧ parser.currentFieldSize = 0 ∨
      parser.currentFieldSize + parser.fullBoundary.length + 10 ≤ meter.passed.length)
    (inside : boundaryPos ≤ parser.buffer.length) :
    parser.currentFieldSize + contentEnd parser.buffer boundaryPos ≤
      (parser.fieldContent meter boundaryPos).length := by
  rcases counts with ⟨nothing, uncounted⟩ | counts
  · rw [fieldContent, nothing, uncounted, List.nil_append, Nat.zero_add]
    exact contentEnd_le_dropLineEnd inside
  · -- A flush leaves more out than a line end.
    have whole := le_dropLineEnd (meter.passed ++ parser.buffer.take boundaryPos)
    have bound := contentEnd_le parser.buffer boundaryPos
    rw [List.length_append, List.length_take, Nat.min_eq_left inside] at whole
    rw [fieldContent]
    omega

/-! ## Errors are final -/

/-- A parser in error takes no turn, whatever comes. -/
theorem feedAll_error {parser : StreamParser} (inState : parser.state = .error)
    (chunks : List Text) : (parser.feedAll chunks).state = .error := by
  induction chunks generalizing parser with
  | nil => exact inState
  | cons chunk chunks inductionHypothesis =>
      have idle : machine.idle (machine.receive parser chunk) = true := by
        simp [machine, StreamParser.idle, inState]
      have fed : machine.feed parser chunk = machine.receive parser chunk :=
        StreamMachine.drain_idle idle
      rw [feedAll, StreamMachine.feedAll, List.foldl_cons, fed]
      exact inductionHypothesis inState

/-! ## Within the limits -/

/-- What every turn within the limits preserves: the counted size of the current
field is less than what has passed of it. -/
structure Within (config : MultipartConfig) (maxTotalSize : Nat)
    (measured : StreamParser × Meter) : Prop where
  settings : measured.1.config = config
  marked : measured.1.fullBoundary ≠ []
  final : measured.2.failed = true → measured.1.state = .error
  fields : measured.1.state ≠ .error →
    List.Forall₂ (fun field content => content.length ≤ limitFor config field)
      measured.1.result measured.2.contents
  total : measured.1.state ≠ .error → measured.2.contents.flatten.length ≤ maxTotalSize
  outside : measured.1.state = .boundary ∨ measured.1.state = .headers → measured.2.passed = []
  inside : measured.1.state = .content → measured.1.currentField ≠ none ∧
    (measured.2.passed = [] ∧ measured.1.currentFieldSize = 0 ∨
      measured.1.currentFieldSize + measured.1.fullBoundary.length + 10 ≤
        measured.2.passed.length)

variable {config : MultipartConfig} {maxTotalSize : Nat} {parser : StreamParser} {meter : Meter}

theorem Within.sound (within : Within config maxTotalSize (parser, meter))
    (running : parser.state ≠ .error) : meter.failed = false :=
  Bool.eq_false_iff.mpr (mt within.final running)

theorem Within.boundary_turn (within : Within config maxTotalSize (parser, meter))
    (inState : parser.state = .boundary) :
    Within config maxTotalSize (parser.processBoundary.1, measure parser meter) := by
  have running : parser.state ≠ .error := by simp [inState]
  have sound := within.sound running
  have fields := within.fields running
  have total := within.total running
  have outside := within.outside (.inl inState)
  simp only [measure, inState]
  cases found : Text.findText parser.buffer parser.fullBoundary 0 with
  | some pos =>
      rw [processBoundary_found found]
      split
      · exact
          { within with
            final := by simp [sound]
            fields := fun _ => fields
            total := fun _ => total
            outside := by simp
            inside := by simp }
      · exact
          { within with
            final := by simp [sound]
            fields := fun _ => fields
            total := fun _ => total
            outside := fun _ => outside
            inside := by simp }
  | none =>
      by_cases long : parser.fullBoundary.length + 100 < parser.buffer.length
      · simp only [processBoundary, found, long, if_true]
        exact
          { within with
            final := fun _ => rfl
            fields := fun sound => absurd rfl sound
            total := fun sound => absurd rfl sound
            outside := by simp [handleError]
            inside := by simp [handleError] }
      · simp only [processBoundary, found, long, if_false]
        exact { within with final := by simp [sound, inState] }

theorem Within.headers_turn (within : Within config maxTotalSize (parser, meter))
    (inState : parser.state = .headers) :
    Within config maxTotalSize (parser.processHeaders.1, measure parser meter) := by
  have running : parser.state ≠ .error := by simp [inState]
  have sound := within.sound running
  simp only [measure, inState]
  rw [processHeaders]
  split
  · exact within
  · exact
      { within with
        final := by simp [sound]
        fields := fun _ => within.fields running
        total := fun _ => within.total running
        outside := by simp
        inside := fun _ => ⟨by simp, .inl ⟨within.outside (.inr inState), rfl⟩⟩ }

/-- A flush counts less than what passes. -/
theorem Within.flush_turn (within : Within config maxTotalSize (parser, meter))
    (inState : parser.state = .content)
    (absent : Text.findText parser.buffer parser.fullBoundary 0 = none) :
    Within config maxTotalSize (parser.processContent.1, measure parser meter) := by
  have running : parser.state ≠ .error := by simp [inState]
  have sound := within.sound running
  obtain ⟨current, counts⟩ := within.inside inState
  by_cases long : parser.fullBoundary.length + 100 < parser.buffer.length
  · obtain ⟨calls, does⟩ := processContent_flush absent long current
    simp only [measure, inState, absent, long, if_true, does, sound, Bool.false_or]
    refine
      { within with
        final := by simp
        fields := fun _ => within.fields running
        total := fun _ => within.total running
        outside := ?_
        inside := fun _ => ⟨current, .inr ?_⟩ }
    · dsimp only
      split <;> simp
    · dsimp only at counts ⊢
      rw [List.length_append]
      omega
  · rw [processContent_wait absent long]
    simp only [measure, inState, absent, long, if_false]
    exact within

/-- A field which is found within the limits raises no error on its way into
the result. -/
theorem Within.found_turn (within : Within config maxTotalSize (parser, meter))
    (inState : parser.state = .content) {boundaryPos : Nat}
    (found : Text.findText parser.buffer parser.fullBoundary 0 = some boundaryPos)
    (inLimit : (parser.fieldContent meter boundaryPos).length ≤ parser.limit)
    (inTotal : meter.contents.flatten.length + (parser.fieldContent meter boundaryPos).length ≤
      maxTotalSize) :
    Within config maxTotalSize (parser.processContent.1, measure parser meter) := by
  have running : parser.state ≠ .error := by simp [inState]
  have sound := within.sound running
  obtain ⟨current, counts⟩ := within.inside inState
  obtain ⟨field, isCurrent⟩ := Option.ne_none_iff_exists'.mp current
  have bound := Text.findText_bound within.marked found
  have counted := counted_le_fieldContent counts (Nat.le_of_add_right_le bound)
  have accepted : (parser.writeContentData (contentEnd parser.buffer boundaryPos)).state =
      .content := by
    obtain ⟨calls, written⟩ :=
      writeContentData_eq current (contentEnd parser.buffer boundaryPos)
    rw [written]
    dsimp only
    rw [if_neg (Nat.not_lt.mpr (Nat.le_trans counted inLimit)), inState]
  have fieldLimit : parser.limit = limitFor config field := by
    rw [limit, isCurrent, limitFor, within.settings]
  have notError : (ParseState.content == ParseState.error) = false := rfl
  obtain ⟨size, calls, does⟩ := processContent_found found isCurrent
  simp only [measure, inState, found, does, sound, accepted, notError, Bool.and_false,
    Bool.or_false]
  exact
    { within with
      final := by simp
      fields := fun _ =>
        List.rel_append (within.fields running) (.cons (fieldLimit ▸ inLimit) .nil)
      total := fun _ => by simpa using inTotal
      outside := fun _ => rfl
      inside := by simp }

theorem Within.turns {later : List Text} {measured next : StreamParser × Meter} {goes : Bool}
    (within : Within config maxTotalSize measured) (busy : metered.idle measured = false)
    (allowed : FindsWithin maxTotalSize later measured)
    (turned : metered.turn measured = (next, goes)) : Within config maxTotalSize next := by
  obtain ⟨parser, meter⟩ := measured
  have running := (busy_iff.mp busy).2
  obtain rfl := (Prod.mk.inj turned).1
  change Within config maxTotalSize (parser.turn.1, measure parser meter)
  rw [turn]
  cases inState : parser.state with
  | boundary => exact within.boundary_turn inState
  | headers => exact within.headers_turn inState
  | content =>
      cases found : Text.findText parser.buffer parser.fullBoundary 0 with
      | none => exact within.flush_turn inState found
      | some boundaryPos =>
          obtain ⟨inLimit, inTotal⟩ := allowed inState boundaryPos found
          exact within.found_turn inState found inLimit inTotal
  | complete => exact absurd inState running.1
  | error => exact absurd inState running.2

/-- In a run of `feed_data` calls in which a content turn finds the boundary
only behind a content within the limits, errors are final and the limits hold. -/
theorem limits_enforced (boundary : Text) (config : MultipartConfig) (maxTotalSize : Nat)
    (hasProgressCallback hasErrorCallback : Bool) {chunks : List Text}
    {last : StreamParser × Meter}
    (feeds : metered.Feeds (FindsWithin maxTotalSize)
      (new boundary config hasProgressCallback hasErrorCallback, {}) chunks last) :
    (new boundary config hasProgressCallback hasErrorCallback).feedAll chunks = last.1 ∧
      Enforced config maxTotalSize last := by
  have start : Within config maxTotalSize
      (new boundary config hasProgressCallback hasErrorCallback, {}) :=
    { settings := rfl
      marked := by simp [new]
      final := nofun
      fields := fun _ => .nil
      total := fun _ => Nat.zero_le _
      outside := fun _ => rfl
      inside := nofun }
  have within : Within config maxTotalSize last :=
    feeds.invariant (fun _ holds => { holds with settings := holds.settings }) Within.turns start
  refine ⟨feeds.forget, within.final, fun inState chunks => ?_, within.fields, within.total⟩
  have stays := feedAll_error inState chunks
  exact ⟨stays, by simp [isIntact, stays]⟩

/-- A text field of just the size allowed, in two chunks. -/
theorem limits_enforced_field :
    ∃ measured : StreamParser × Meter,
      (new "b".toList { maxFieldSize := 5 } false false).feedAll
          ["--b\r\nX: y\r\n\r\nhello\r\n".toList, "--b--".toList] = measured.1 ∧
        Enforced { maxFieldSize := 5 } 5 measured :=
  ⟨_, limits_enforced "b".toList { maxFieldSize := 5 } 5 false false
    (.feed (.turn rfl nofun rfl (.turn rfl nofun rfl
        (.stop rfl (fun _ _ found => nomatch found) rfl)))
      (.feed (.turn rfl (fun _ _ found => by cases found; decide) rfl
          (.turn rfl nofun rfl (.idle rfl)))
        .done))⟩

/-- Where the boundary is in sight, the error of a field which is too large is
overwritten, and the field is in the result of a complete parse. -/
theorem large_field_in_result :
    ∃ (boundary : Text) (config : MultipartConfig) (maxTotalSize : Nat) (chunks : List Text)
      (last : StreamParser × Meter),
      metered.Feeds (fun _ _ => True) (new boundary config false false, {}) chunks last ∧
        last.1.state = .complete ∧ ¬ Enforced config maxTotalSize last := by
  refine ⟨"b".toList, { maxFieldSize := 3 }, 100,
    ["--b\r\nContent-Disposition: form-data; name=\"a\"\r\n\r\nabcdef\r\n--b--".toList], _,
    .feed (.turn rfl trivial rfl (.turn rfl trivial rfl (.turn rfl trivial rfl
      (.turn rfl trivial rfl (.idle rfl))))) .done, rfl, fun enforced => ?_⟩
  cases enforced.final rfl

end StreamParser

end Foxhttp.Parser
