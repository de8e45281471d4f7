import Mathlib.Data.List.ReduceOption
import Foxhttp.Parser.FieldParsing

/-!
# Line ends in front of a field

Both parsers take four characters off the end of the headers for the empty line,
and behind bare line feeds it has only two: the other two are the last characters
of the last header. Two CRLF in the content are found before two line feeds in
front of it.
-/

namespace Foxhttp.Parser

open Foxhttp.Library

/-- Header lines, an empty line and what follows. -/
def framed (lineEnd : Text) (front : List RawHeader) (last : RawHeader) (content : Text) : Text :=
  block lineEnd (front.map RawHeader.line) last.line ++ (lineEnd ++ lineEnd ++ content)

/-- Two fields have the same headers, name and filename. -/
structure SameField (field other : MultipartField) : Prop where
  headers : ∀ key, field.headers.lookup key = other.headers.lookup key
  name : field.name = other.name
  filename : field.filename = other.filename

/-- The field which `process_headers` makes of a buffer, and what it leaves of it. -/
def processedHeaders (parser : StreamParser) (buffer : Text) : Option (MultipartField × Text) :=
  match { parser with buffer := buffer }.processHeaders with
  | (next, true) => next.currentField.map fun field => (field, next.buffer)
  | (_, false) => none

/-- `process_headers` makes the same of two buffers. -/
def SameProcessed (parser : StreamParser) (buffer other : Text) : Prop :=
  ∃ field otherField rest, processedHeaders parser buffer = some (field, rest) ∧
    processedHeaders parser other = some (otherField, rest) ∧ SameField field otherField

/-- `parse_field` makes the same of the data of two fields. -/
def SameParsed (fieldData other : Text) : Prop :=
  ∃ field otherField, MultipartParser.parseField fieldData = some field ∧
    MultipartParser.parseField other = some otherField ∧
    SameField field.toMultipartField otherField.toMultipartField ∧
    field.content = otherField.content ∧ field.binaryContent = otherField.binaryContent

/-- Bare line feeds do not change what is made of a part. -/
def SameFraming (front : List RawHeader) (last : RawHeader) (content : Text) : Prop :=
  (∀ parser, SameProcessed parser (framed "\n".toList front last content)
    (framed "\r\n".toList front last content)) ∧
  SameParsed (framed "\n".toList front last content) (framed "\r\n".toList front last content)

/-- The last header means the same without its last two characters: they are
blanks of its value, or it has no value, and the header before it with its name
has none. -/
def CutHarmless (front : List RawHeader) (last : RawHeader) : Prop :=
  if last.value = [] then (front.map RawHeader.entry).reverse.lookup last.key = some []
  else ∀ c ∈ last.value.drop (last.value.length - 2), (c == ' ' || c == '\t') = true

namespace RawHeader

/-- The line without its last two characters. -/
def cutLine (header : RawHeader) : Text :=
  header.line.take (header.line.length - 2)

theorem line_length (header : RawHeader) :
    header.line.length = header.name.length + header.value.length + 2 := by
  rw [line_eq]
  simp only [List.length_append, List.length_cons]
  omega

theorem noReturn_line (header : RawHeader) : '\r' ∉ header.line := by
  rw [line_eq]
  simp [header.nameLine.1, header.valueLine.1]

theorem cutLine_nil {header : RawHeader} (empty : header.value = []) :
    header.cutLine = header.name := by
  rw [cutLine, line_length, line_eq, empty, List.length_nil, Nat.add_zero, Nat.add_sub_cancel,
    List.take_left]

theorem cutLine_cons {header : RawHeader} (filled : header.value ≠ []) :
    header.cutLine =
      header.name ++ ':' :: (' ' :: header.value).take (header.value.length - 1) := by
  have size := List.length_pos_iff.mpr filled
  have short : header.name.length + header.value.length + 2 - 2 =
      header.name.length + (header.value.length - 1 + 1) := by omega
  rw [cutLine, line_length, line_eq, short, List.take_length_add_append, List.take_succ_cons]

theorem cutLine_isLine (header : RawHeader) : StreamParser.IsLine header.cutLine where
  some_ := by
    have size := List.length_pos_iff.mpr header.named
    have bound := header.line_length
    refine List.length_pos_iff.mp ?_
    rw [cutLine, List.length_take]
    omega
  oneLine := fun member => header.isLine.oneLine (List.mem_of_mem_take member)
  unended := fun last => header.noReturn_line (List.mem_of_mem_take (List.mem_of_getLast? last))

/-- What is left of the value, up to blanks in front. -/
theorem trim_cut {header : RawHeader} (filled : header.value ≠ []) :
    StreamParser.trim ((' ' :: header.value).take (header.value.length - 1)) =
      StreamParser.trim (header.value.take (header.value.length - 2)) := by
  obtain ⟨c, value, isValue⟩ := List.exists_cons_of_ne_nil filled
  rw [isValue, List.length_cons, Nat.add_sub_cancel]
  cases size : value.length with
  | zero => rfl
  | succ short => rfl

end RawHeader

/-! ## One header more -/

open StreamParser (applyHeader parseHeaderLine quotedParameter)

theorem lookup_applyHeader (found : MultipartField × Text) (name value : Text) :
    (applyHeader found name value).1.headers.lookup (MultipartField.toLower name) = some value := by
  rw [StreamParser.applyHeader_headers, AList.lookup_insert]

/-- Two values give the same field when they are the same. -/
theorem sameField_applyHeader {found : MultipartField × Text} {name value other : Text} :
    SameField (applyHeader found name value).1 (applyHeader found name other).1 ↔
      value = other := by
  constructor
  · intro same
    have held := same.headers (MultipartField.toLower name)
    rw [lookup_applyHeader, lookup_applyHeader] at held
    exact Option.some.inj held
  · rintro rfl
    exact ⟨fun _ => rfl, rfl, rfl⟩

/-- An empty header changes nothing when the field has it already. -/
theorem sameField_empty {found : MultipartField × Text} {name : Text} :
    SameField found.1 (applyHeader found name []).1 ↔
      found.1.headers.lookup (MultipartField.toLower name) = some [] := by
  constructor
  · intro same
    rw [same.headers, lookup_applyHeader]
  · intro held
    have headers : ∀ key, found.1.headers.lookup key =
        (found.1.headers.insert (MultipartField.toLower name) []).lookup key := by
      intro key
      by_cases isKey : key = MultipartField.toLower name
      · rw [isKey, held, AList.lookup_insert]
      · rw [AList.lookup_insert_ne isKey]
    have noName : quotedParameter "name=\"".toList [] = none := by decide
    have noFilename : quotedParameter "filename=\"".toList [] = none := by decide
    rw [applyHeader, noName, noFilename]
    split
    · exact ⟨headers, rfl, rfl⟩
    · exact ⟨headers, rfl, rfl⟩

section Framing

variable {front : List RawHeader} {last : RawHeader} {content : Text}

theorem areLines (headers : List RawHeader) :
    ∀ line ∈ headers.map RawHeader.line, StreamParser.IsLine line := by
  intro line member
  obtain ⟨header, -, rfl⟩ := List.mem_map.mp member
  exact header.isLine

/-- What all the headers but the last are read as. -/
def readFront (current : Text) (front : List RawHeader) : MultipartField × Text :=
  (front.map RawHeader.line).foldl (fun found line => parseHeaderLine found.1 found.2 line)
    ({}, current)

/-- What all the headers are read as, when the last is cut. -/
def readCut (current : Text) (front : List RawHeader) (last : RawHeader) :
    MultipartField × Text :=
  if last.value = [] then readFront current front
  else applyHeader (readFront current front) (StreamParser.trim last.name)
    (StreamParser.trim (last.value.take (last.value.length - 2)))

/-- What all the headers are read as. -/
def readAll (current : Text) (front : List RawHeader) (last : RawHeader) :
    MultipartField × Text :=
  applyHeader (readFront current front) (StreamParser.trim last.name)
    (StreamParser.trim last.value)

theorem lookup_readFront (current : Text) (front : List RawHeader) (key : Text) :
    (readFront current front).1.headers.lookup key =
      (front.map RawHeader.entry).reverse.lookup key := by
  rw [readFront, StreamParser.fold_entries, lookup_foldl_insert, AList.lookup_empty,
    Option.or_none]

/-- The cut changes nothing exactly when it is harmless. -/
theorem sameField_readCut (current : Text) :
    SameField (readCut current front last).1 (readAll current front last).1 ↔
      CutHarmless front last := by
  rw [readCut, readAll, CutHarmless]
  by_cases empty : last.value = []
  · have noValue : StreamParser.trim last.value = [] := by
      rw [empty]
      rfl
    rw [if_pos empty, if_pos empty, noValue, sameField_empty, lookup_readFront]
    rfl
  · have split := List.take_append_drop (last.value.length - 2) last.value
    have harmless := @Trimming.trim_append_iff Char (fun c => c == ' ' || c == '\t')
      (last.value.take (last.value.length - 2)) (last.value.drop (last.value.length - 2))
    rw [split] at harmless
    rw [if_neg empty, if_neg empty, sameField_applyHeader, ← harmless]
    exact eq_comm

theorem parseHeaderData_returns (current : Text) :
    StreamParser.parseHeaderData current
        (block "\r\n".toList (front.map RawHeader.line) last.line) =
      readAll current front last := by
  rw [StreamParser.parseHeaderData, StreamParser.foldl_block
    (fun found line isLine => StreamParser.parseHeaderLine_return isLine found.1 found.2) (.inr rfl)
    (areLines front) last.isLine, List.foldl_concat]
  exact last.parse_line _

theorem parseHeaderData_feeds (current : Text) :
    StreamParser.parseHeaderData current
        (block "\n".toList (front.map RawHeader.line) last.cutLine) =
      readCut current front last := by
  rw [StreamParser.parseHeaderData, StreamParser.foldl_block
    (fun found line isLine => StreamParser.parseHeaderLine_return isLine found.1 found.2) (.inl rfl)
    (areLines front) last.cutLine_isLine, List.foldl_concat, readCut]
  have unended := last.cutLine_isLine.unended
  by_cases empty : last.value = []
  · rw [RawHeader.cutLine_nil empty] at unended ⊢
    rw [if_pos empty, StreamParser.parseHeaderLine_plain last.noColon unended]
    rfl
  · rw [RawHeader.cutLine_cons empty] at unended ⊢
    rw [if_neg empty, StreamParser.parseHeaderLine_colon last.noColon unended,
      RawHeader.trim_cut empty]
    rfl

/-! ## Both framings -/

open StreamParser (headerEnd sizeSub)

theorem headerEnd_framed_returns :
    headerEnd (framed "\r\n".toList front last content) =
      some ((block "\r\n".toList (front.map RawHeader.line) last.line).length + 4) :=
  StreamParser.headerEnd_returns (areLines front) last.isLine content

/-- Two line feeds come before any CRLF but those of the content. -/
theorem findText_framed_feeds :
    Text.findText (framed "\n".toList front last content) "\r\n\r\n".toList 0 =
      (Text.findText content "\r\n\r\n".toList 0).map
        ((block "\n".toList (front.map RawHeader.line) last.line).length + 2 + ·) := by
  have noReturn : '\r' ∉
      block "\n".toList (front.map RawHeader.line) last.line ++ "\n\n".toList := by
    intro member
    rcases List.mem_append.mp member with inBlock | inEnd
    · rcases List.mem_append.mp inBlock with inFront | inLast
      · obtain ⟨line, isLine, inLine⟩ := List.mem_flatMap.mp inFront
        obtain ⟨header, -, rfl⟩ := List.mem_map.mp isLine
        rcases List.mem_append.mp inLine with here | isFeed
        · exact header.noReturn_line here
        · exact absurd isFeed (by decide)
      · exact last.noReturn_line inLast
    · exact absurd inEnd (by decide)
  have skipped := @Text.findText_skip _ content "\r\n\r\n".toList
    fun start inside => Text.not_prefix_drop noReturn inside
  rw [List.append_assoc, List.length_append] at skipped
  exact skipped

theorem headerEnd_framed_feeds (clean : ¬ "\r\n\r\n".toList <:+: content) :
    headerEnd (framed "\n".toList front last content) =
      some ((block "\n".toList (front.map RawHeader.line) last.line).length + 2) := by
  have absent : Text.findText content "\r\n\r\n".toList 0 = none :=
    Text.findText_eq_none_iff.mpr clean
  have found := StreamParser.findText_feeds (areLines front) last.isLine content
  rw [headerEnd, findText_framed_feeds, absent, Option.map_none]
  exact congrArg (Option.map (· + 2)) found

/-- The header data behind CRLF are the header lines. -/
theorem headerData_returns :
    Text.substr (framed "\r\n".toList front last content) 0
        (sizeSub ((block "\r\n".toList (front.map RawHeader.line) last.line).length + 4) 4) =
      block "\r\n".toList (front.map RawHeader.line) last.line := by
  rw [sizeSub, if_pos (by omega), Nat.add_sub_cancel, Text.substr, List.drop_zero, framed,
    List.take_left]

/-- The header data behind line feeds are cut. -/
theorem headerData_feeds :
    Text.substr (framed "\n".toList front last content) 0
        (sizeSub ((block "\n".toList (front.map RawHeader.line) last.line).length + 2) 4) =
      block "\n".toList (front.map RawHeader.line) last.cutLine := by
  have long := last.line_length
  have size : (block "\n".toList (front.map RawHeader.line) last.line).length + 2 - 4 =
      ((front.map RawHeader.line).flatMap (· ++ "\n".toList)).length + (last.line.length - 2) := by
    rw [block, List.length_append]
    omega
  have enough : 4 ≤ (block "\n".toList (front.map RawHeader.line) last.line).length + 2 := by
    rw [block, List.length_append]
    omega
  rw [sizeSub, if_pos enough, size, Text.substr, List.drop_zero, framed, block, List.append_assoc,
    List.take_length_add_append, List.take_append_of_le_length (by omega)]
  rfl

theorem processedHeaders_eq {parser : StreamParser} {buffer : Text} {stop : Nat}
    (found : headerEnd buffer = some stop) :
    processedHeaders parser buffer =
      some ((StreamParser.parseHeaderData parser.currentFieldName
        (Text.substr buffer 0 (sizeSub stop 4))).1, buffer.drop stop) := by
  rw [processedHeaders, StreamParser.processHeaders]
  dsimp only
  rw [found]
  simp only [StreamParser.erase_front, Option.map_some]

theorem processedHeaders_returns (parser : StreamParser) :
    processedHeaders parser (framed "\r\n".toList front last content) =
      some ((readAll parser.currentFieldName front last).1, content) := by
  rw [processedHeaders_eq headerEnd_framed_returns, headerData_returns, parseHeaderData_returns,
    framed, ← List.drop_drop, List.drop_left]
  rfl

theorem processedHeaders_feeds (clean : ¬ "\r\n\r\n".toList <:+: content)
    (parser : StreamParser) :
    processedHeaders parser (framed "\n".toList front last content) =
      some ((readCut parser.currentFieldName front last).1, content) := by
  rw [processedHeaders_eq (headerEnd_framed_feeds clean), headerData_feeds, parseHeaderData_feeds,
    framed, ← List.drop_drop, List.drop_left]
  rfl

/-- Two CRLF in the content end the headers there. -/
theorem processedHeaders_shorter (unclean : "\r\n\r\n".toList <:+: content)
    (parser : StreamParser) : ∃ field rest,
      processedHeaders parser (framed "\n".toList front last content) = some (field, rest) ∧
        rest.length < content.length := by
  obtain ⟨pos, found⟩ : ∃ pos, Text.findText content "\r\n\r\n".toList 0 = some pos := by
    refine Option.ne_none_iff_exists'.mp fun absent => ?_
    exact Text.findText_eq_none_iff.mp absent unclean
  have bound := Text.findText_bound (by decide) found
  have ends : headerEnd (framed "\n".toList front last content) =
      some ((block "\n".toList (front.map RawHeader.line) last.line).length + 2 + pos + 4) := by
    rw [headerEnd, findText_framed_feeds, found, Option.map_some]
  refine ⟨_, _, processedHeaders_eq ends, ?_⟩
  rw [List.length_drop, framed, List.length_append, List.length_append]
  have size : ("\n".toList ++ "\n".toList).length = 2 := rfl
  have four : "\r\n\r\n".toList.length = 4 := rfl
  omega

/-! ## The field at hand -/

open MultipartParser (fieldOf parseField parseHeaders)

theorem parseHeaders_returns :
    parseHeaders (block "\r\n".toList (front.map RawHeader.line) last.line) =
      (entriesMap (front.map RawHeader.entry)).insert last.entry.1 last.entry.2 := by
  rw [parseHeaders, StreamParser.foldl_block
    (fun held line isLine => StreamParser.addLine_return isLine held) (.inr rfl)
    (areLines front) last.isLine, List.foldl_concat, StreamParser.fold_addLine, last.add_line]
  rfl

theorem parseHeaders_feeds :
    parseHeaders (block "\n".toList (front.map RawHeader.line) last.cutLine) =
      if last.value = [] then entriesMap (front.map RawHeader.entry)
      else (entriesMap (front.map RawHeader.entry)).insert last.key
        (StreamParser.trim (last.value.take (last.value.length - 2))) := by
  rw [parseHeaders, StreamParser.foldl_block
    (fun held line isLine => StreamParser.addLine_return isLine held) (.inl rfl)
    (areLines front) last.cutLine_isLine, List.foldl_concat, StreamParser.fold_addLine]
  have unended := last.cutLine_isLine.unended
  by_cases empty : last.value = []
  · rw [RawHeader.cutLine_nil empty] at unended ⊢
    rw [if_pos empty, StreamParser.addLine_plain last.noColon unended]
    rfl
  · have value : MultipartParser.trim ((' ' :: last.value).take (last.value.length - 1)) =
        StreamParser.trim ((' ' :: last.value).take (last.value.length - 1)) := by
      refine MultipartParser.trim_line (fun member => ?_) fun member => ?_
      · exact last.valueLine.2 (by simpa using List.mem_of_mem_take member)
      · exact last.valueLine.1 (by simpa using List.mem_of_mem_take member)
    rw [RawHeader.cutLine_cons empty] at unended ⊢
    rw [if_neg empty, StreamParser.addLine_colon last.noColon unended, value,
      RawHeader.trim_cut empty, MultipartParser.trim_line last.nameLine.2 last.nameLine.1]
    rfl

theorem parseField_returns : parseField (framed "\r\n".toList front last content) =
    some (fieldOf
      (parseHeaders (block "\r\n".toList (front.map RawHeader.line) last.line)) content) := by
  have behind : (framed "\r\n".toList front last content).drop
      ((block "\r\n".toList (front.map RawHeader.line) last.line).length + 4) = content := by
    rw [framed, ← List.drop_drop, List.drop_left]
    rfl
  rw [parseField, headerEnd_framed_returns, Option.map_some, headerData_returns, behind]

/-- A harmless cut leaves what is found under every name. -/
theorem lookup_parseHeaders (harmless : CutHarmless front last) (key : Text) :
    (parseHeaders (block "\n".toList (front.map RawHeader.line) last.cutLine)).lookup key =
      (parseHeaders (block "\r\n".toList (front.map RawHeader.line) last.line)).lookup key := by
  rw [parseHeaders_feeds, parseHeaders_returns]
  rw [CutHarmless] at harmless
  by_cases empty : last.value = []
  · rw [if_pos empty] at harmless ⊢
    have noValue : last.entry = (last.key, []) := by
      rw [RawHeader.entry, empty]
      rfl
    rw [noValue]
    by_cases isKey : key = last.key
    · subst isKey
      rw [AList.lookup_insert, entriesMap, lookup_foldl_insert, harmless]
      rfl
    · rw [AList.lookup_insert_ne isKey]
  · rw [if_neg empty] at harmless ⊢
    have split := List.take_append_drop (last.value.length - 2) last.value
    have same := (@Trimming.trim_append_iff Char (fun c => c == ' ' || c == '\t')
      (last.value.take (last.value.length - 2)) (last.value.drop (last.value.length - 2))).mpr
      harmless
    rw [split] at same
    have sameValue : StreamParser.trim (last.value.take (last.value.length - 2)) =
        StreamParser.trim last.value := same.symm
    rw [sameValue]
    rfl

/-- `parse_field` goes by what is found under the names of the headers. -/
theorem fieldOf_same {headerData otherData content : Text}
    (same : ∀ key, (parseHeaders headerData).lookup key = (parseHeaders otherData).lookup key) :
    SameField (fieldOf (parseHeaders headerData) content).toMultipartField
        (fieldOf (parseHeaders otherData) content).toMultipartField ∧
      (fieldOf (parseHeaders headerData) content).content =
        (fieldOf (parseHeaders otherData) content).content ∧
      (fieldOf (parseHeaders headerData) content).binaryContent =
        (fieldOf (parseHeaders otherData) content).binaryContent := by
  have headers : ∀ key, (MultipartParser.addHeaders (parseHeaders headerData)).lookup key =
      (MultipartParser.addHeaders (parseHeaders otherData)).lookup key := by
    intro key
    rw [MultipartParser.lookup_addHeaders (MultipartParser.lower_parseHeaders _),
      MultipartParser.lookup_addHeaders (MultipartParser.lower_parseHeaders _), same]
  refine ⟨⟨headers, ?_, ?_⟩, ?_, ?_⟩ <;> simp only [fieldOf, same]

theorem sameParsed_of_harmless (clean : ¬ "\r\n\r\n".toList <:+: content)
    (harmless : CutHarmless front last) :
    SameParsed (framed "\n".toList front last content)
      (framed "\r\n".toList front last content) := by
  have behindFeeds : (framed "\n".toList front last content).drop
      ((block "\n".toList (front.map RawHeader.line) last.line).length + 2) = content := by
    rw [framed, ← List.drop_drop, List.drop_left]
    rfl
  have feeds : parseField (framed "\n".toList front last content) = some (fieldOf
      (parseHeaders (block "\n".toList (front.map RawHeader.line) last.cutLine)) content) := by
    rw [parseField, headerEnd_framed_feeds clean, Option.map_some, headerData_feeds, behindFeeds]
  exact ⟨_, _, feeds, parseField_returns, fieldOf_same (lookup_parseHeaders harmless)⟩

/-- Bare line feeds change nothing exactly when the content has no two CRLF and
the last header means the same without its last two characters. -/
theorem sameFraming_iff : SameFraming front last content ↔
    ¬ "\r\n\r\n".toList <:+: content ∧ CutHarmless front last := by
  constructor
  · rintro ⟨processed, -⟩
    have same := processed (.new [] {} false false)
    rw [SameProcessed, processedHeaders_returns] at same
    obtain ⟨field, otherField, rest, isField, isOther, sameField⟩ := same
    obtain ⟨rfl, rfl⟩ := Prod.mk.inj (Option.some.inj isOther)
    have clean : ¬ "\r\n\r\n".toList <:+: content := by
      intro unclean
      obtain ⟨other, shorter, isShorter, less⟩ :=
        processedHeaders_shorter unclean (.new [] {} false false)
      rw [isField] at isShorter
      rw [(Prod.mk.inj (Option.some.inj isShorter)).2] at less
      exact absurd less (Nat.lt_irrefl _)
    rw [processedHeaders_feeds clean] at isField
    rw [← (Prod.mk.inj (Option.some.inj isField)).1] at sameField
    exact ⟨clean, (sameField_readCut _).mp sameField⟩
  · rintro ⟨clean, harmless⟩
    refine ⟨fun parser => ?_, sameParsed_of_harmless clean harmless⟩
    exact ⟨_, _, _, processedHeaders_feeds clean parser, processedHeaders_returns parser,
      (sameField_readCut _).mpr harmless⟩

end Framing

/-! ## The differences of sizes -/

open StreamParser (headerEnd sizeSub getLines)

/-- The end and the start of a quoted parameter. -/
def quotedSizes (key value : Text) : Option (Nat × Nat) :=
  (Text.findText value key 0).bind fun pos =>
    (Text.find value '"' (pos + key.length)).map fun stop => (stop, pos + key.length)

/-- The last and the first character which `trim` keeps. -/
def trimSizes (str : Text) : Option (Nat × Nat) :=
  match Trimming.findFirstNotOf MultipartParser.isTrimmed str,
    Trimming.findLastNotOf MultipartParser.isTrimmed str with
  | some start, some stop => some (stop, start)
  | _, _ => none

/-- What is subtracted for a line, and from what: in its name and its value, and in
its value as it is trimmed by either parser. -/
def lineDifferences (line : Text) : List (Nat × Nat) :=
  let line := if line.getLast? = some '\r' then line.dropLast else line
  match Text.find line ':' 0 with
  | none => []
  | some colonPos =>
      let value := line.drop (colonPos + 1)
      [trimSizes (Text.substr line 0 colonPos), trimSizes value,
        quotedSizes "name=\"".toList (StreamParser.trim value),
        quotedSizes "filename=\"".toList (StreamParser.trim value),
        quotedSizes "name=\"".toList (MultipartParser.trim value),
        quotedSizes "filename=\"".toList (MultipartParser.trim value)].reduceOption

/-- What is subtracted for a text with headers, and from what. -/
def sizeDifferences (data : Text) : List (Nat × Nat) :=
  match headerEnd data with
  | none => []
  | some stop =>
      (stop, 4) :: (getLines (Text.substr data 0 (sizeSub stop 4))).flatMap lineDifferences

/-- No difference of sizes is below zero. -/
def NothingWraps (data : Text) : Prop :=
  ∀ difference ∈ sizeDifferences data, difference.2 ≤ difference.1

theorem quotedSizes_le {key value : Text} {difference : Nat × Nat}
    (isFound : quotedSizes key value = some difference) : difference.2 ≤ difference.1 := by
  obtain ⟨pos, -, stops⟩ := Option.bind_eq_some_iff.mp isFound
  obtain ⟨stop, found, rfl⟩ := Option.map_eq_some_iff.mp stops
  exact (Text.split_of_find found).1

theorem trimSizes_le {str : Text} {difference : Nat × Nat}
    (isFound : trimSizes str = some difference) : difference.2 ≤ difference.1 := by
  obtain ⟨front, core, back, encloses⟩ :=
    @Trimming.exists_encloses Char MultipartParser.isTrimmed str
  rw [trimSizes] at isFound
  cases core with
  | nil =>
      split at isFound
      · rename_i start stop isStart isStop
        obtain ⟨c, member, kept⟩ : ∃ c ∈ str, MultipartParser.isTrimmed c = false := by
          obtain ⟨inside, kept⟩ := List.findIdx?_eq_some_iff_getElem.mp isStart
          exact ⟨str[start], List.getElem_mem inside, by simpa using kept.1⟩
        rw [encloses.split, List.nil_append] at member
        rw [(List.mem_append.mp member).elim (encloses.front c) (encloses.back c)] at kept
        cases kept
      · cases isFound
  | cons c core =>
      rw [encloses.findFirstNotOf_eq (List.cons_ne_nil _ _),
        encloses.findLastNotOf_eq (List.cons_ne_nil _ _)] at isFound
      cases isFound
      dsimp only
      rw [List.length_cons]
      omega

theorem lineDifferences_le (line : Text) :
    ∀ difference ∈ lineDifferences line, difference.2 ≤ difference.1 := by
  intro difference member
  unfold lineDifferences at member
  dsimp only at member
  split at member
  · cases member
  · rw [List.reduceOption_mem_iff] at member
    simp only [List.mem_cons, List.not_mem_nil, or_false] at member
    rcases member with found | found | found | found | found | found
    · exact trimSizes_le found.symm
    · exact trimSizes_le found.symm
    · exact quotedSizes_le found.symm
    · exact quotedSizes_le found.symm
    · exact quotedSizes_le found.symm
    · exact quotedSizes_le found.symm

/-- Only what is taken off the end of the headers can be too much. -/
theorem nothingWraps_iff_headerEnd (data : Text) :
    NothingWraps data ↔ ∀ stop, headerEnd data = some stop → 4 ≤ stop := by
  rw [NothingWraps, sizeDifferences]
  cases headerEnd data with
  | none => simp
  | some stop =>
      constructor
      · rintro noneWraps other ⟨⟩
        exact noneWraps (stop, 4) List.mem_cons_self
      · intro enough difference member
        rcases List.mem_cons.mp member with rfl | inLine
        · exact enough stop rfl
        · obtain ⟨line, -, isDifference⟩ := List.mem_flatMap.mp inLine
          exact lineDifferences_le line difference isDifference

/-- A size wraps exactly when two line feeds end the headers before there is room
for the four characters which are taken off. -/
theorem nothingWraps_iff (data : Text) :
    NothingWraps data ↔ "\r\n\r\n".toList <:+: data ∨
      ¬ "\n\n".toList <+: data ∧ ¬ "\n\n".toList <+: data.drop 1 := by
  rw [nothingWraps_iff_headerEnd, headerEnd]
  cases found : Text.findText data "\r\n\r\n".toList 0 with
  | some pos =>
      obtain ⟨-, here, -⟩ := Text.prefix_of_findText found
      have occurs := here.isInfix.trans (List.drop_suffix pos data).isInfix
      refine iff_of_true ?_ (.inl occurs)
      rintro stop ⟨⟩
      exact Nat.le_add_left 4 pos
  | none =>
      have absent : ¬ "\r\n\r\n".toList <:+: data := Text.findText_eq_none_iff.mp found
      rw [or_iff_right absent]
      constructor
      · intro enough
        have late {pos : Nat} (isFirst : Text.findText data "\n\n".toList 0 = some pos) :
            2 ≤ pos := by
          have bound := enough (pos + 2) (by rw [isFirst, Option.map_some])
          omega
        have notFirst : ¬ "\n\n".toList <+: data := fun here =>
          absurd (late (@Text.findText_eq_some data _ 0 here fun _ before =>
            absurd before (Nat.not_lt_zero _))) (by decide)
        refine ⟨notFirst, fun here => ?_⟩
        have first : ∀ earlier < 1, ¬ "\n\n".toList <+: data.drop earlier := by
          intro earlier before
          obtain rfl : earlier = 0 := by omega
          exact notFirst
        exact absurd (late (Text.findText_eq_some here first)) (by decide)
      · rintro ⟨notFirst, notSecond⟩ stop ends
        obtain ⟨pos, isFirst, rfl⟩ := Option.map_eq_some_iff.mp ends
        obtain ⟨-, here, -⟩ := Text.prefix_of_findText isFirst
        have late : 2 ≤ pos := by
          refine Nat.lt_of_le_of_ne (Nat.one_le_iff_ne_zero.mpr ?_) ?_
          · rintro rfl
            exact notFirst here
          · rintro rfl
            exact notSecond here
        omega

/-- **Header framing does not change a part** exactly when its content has no two
CRLF and the last header means the same without its last two characters, **and no
size wraps** exactly for the texts without two line feeds at their start or one
character behind it, and for those with two CRLF. -/
theorem headerFraming_iff (front : List RawHeader) (last : RawHeader) (content data : Text) :
    (SameFraming front last content ↔
      ¬ "\r\n\r\n".toList <:+: content ∧ CutHarmless front last) ∧
    (NothingWraps data ↔ "\r\n\r\n".toList <:+: data ∨
      ¬ "\n\n".toList <+: data ∧ ¬ "\n\n".toList <+: data.drop 1) :=
  ⟨sameFraming_iff, nothingWraps_iff data⟩

/-- A part with one header. -/
def onlyDisposition : RawHeader where
  name := "Content-Disposition".toList
  value := "form-data; name=\"a\"".toList
  named := by decide
  noColon := by decide
  nameLine := by decide
  valueLine := by decide

/-- Behind line feeds the name of the field is lost with its closing quote. -/
theorem line_feeds_cut_name :
    ¬ ((∀ (front : List RawHeader) (last : RawHeader) (content : Text),
        (∃ header ∈ front ++ [last], header.key = "content-disposition".toList) →
          SameFraming front last content) ∧ ∀ data : Text, NothingWraps data) := by
  rintro ⟨same, -⟩
  have framing := same [] onlyDisposition [] ⟨onlyDisposition, List.mem_singleton_self _, by decide⟩
  have harmless := (sameFraming_iff.mp framing).2
  rw [CutHarmless, if_neg (by decide)] at harmless
  exact absurd (harmless '"' (by decide)) (by decide)

end Foxhttp.Parser
