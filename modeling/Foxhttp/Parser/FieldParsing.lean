import Foxhttp.Library.Entries
import Foxhttp.Library.Trimming
import Foxhttp.Parser.MultipartRoundTrip
import Foxhttp.Parser.QuotedPrintable

/-!
# Parsing a field which is at hand

`MultipartParserImpl::parse_field` has all the data of a field: it finds the end
of the headers like the stream parser, collects them in a map and reads name,
filename and encoding from the map. What both parsers make of a block of header
lines is the map of its entries.
-/

namespace Foxhttp.Parser

open Foxhttp.Library

namespace MultipartParser

open StreamParser (headerEnd sizeSub getLines quotedParameter)

/-! ## The parser -/

/-- The characters which `trim` drops. -/
def isTrimmed (c : Char) : Bool :=
  c == ' ' || c == '\t' || c == '\r' || c == '\n'

/-- `MultipartParserImpl::trim`. -/
def trim (str : Text) : Text :=
  match Trimming.findFirstNotOf isTrimmed str, Trimming.findLastNotOf isTrimmed str with
  | some start, some stop => Text.substr str start (sizeSub stop start + 1)
  | _, _ => []

/-- What `parse_headers` makes of one line. -/
def addLine (headers : AList fun _ : Text => Text) (line : Text) : AList fun _ : Text => Text :=
  let line := if line.getLast? = some '\r' then line.dropLast else line
  match Text.find line ':' 0 with
  | none => headers
  | some colonPos =>
      let name := trim (Text.substr line 0 colonPos)
      let value := trim (line.drop (colonPos + 1))
      headers.insert (MultipartField.toLower name) value

/-- `MultipartParserImpl::parse_headers`. -/
def parseHeaders (headerData : Text) : AList fun _ : Text => Text :=
  (getLines headerData).foldl addLine ∅

/-- `MultipartParserImpl::decode_content`. -/
def decodeContent (content encoding : Text) : Text :=
  let lowerEncoding := MultipartField.toLower encoding
  if lowerEncoding = "quoted-printable".toList then quotedPrintableDecode content
  else if lowerEncoding = "base64".toList then base64Decode content
  else content

/-- `MultipartParserImpl::decode_binary_content`. -/
def decodeBinaryContent (content encoding : Text) : Text :=
  if MultipartField.toLower encoding = "base64".toList then base64Decode content
  else decodeContent content encoding

/-- `MultipartField`, as `parse_field` fills it in. -/
structure ParsedField extends MultipartField where
  contentType : Text := []
  encoding : Text := []
  binaryContent : Text := []

/-- The headers of the field: every entry of the map is added to them. -/
def addHeaders (headers : AList fun _ : Text => Text) : AList fun _ : Text => Text :=
  (headers.entries.foldl (fun field header => MultipartField.addHeader field header.1 header.2)
    {}).headers

/-- What `parse_field` makes of headers and content. -/
def fieldOf (headers : AList fun _ : Text => Text) (content : Text) : ParsedField :=
  let disposition := headers.lookup "content-disposition".toList
  let filename := (disposition.bind (quotedParameter "filename=\"".toList)).getD []
  let encoding := (headers.lookup "content-transfer-encoding".toList).getD []
  { name := (disposition.bind (quotedParameter "name=\"".toList)).getD []
    filename := filename
    headers := addHeaders headers
    contentType := (headers.lookup "content-type".toList).getD []
    encoding := encoding
    content :=
      if encoding.isEmpty then content
      else if filename.isEmpty then decodeContent content encoding
      else []
    binaryContent :=
      if encoding.isEmpty || filename.isEmpty then []
      else decodeBinaryContent content encoding }

/-- `MultipartParserImpl::parse_field`: nothing for a null pointer. -/
def parseField (fieldData : Text) : Option ParsedField :=
  (headerEnd fieldData).map fun stop =>
    fieldOf (parseHeaders (Text.substr fieldData 0 (sizeSub stop 4))) (fieldData.drop stop)

/-- `trim` drops the characters at both ends, and the size it computes does not wrap. -/
theorem trim_eq (str : Text) : trim str = Trimming.trim isTrimmed str := by
  obtain ⟨front, core, back, encloses⟩ := @Trimming.exists_encloses Char isTrimmed str
  rw [encloses.trim_eq, trim]
  cases core with
  | nil =>
      have absent : Trimming.findFirstNotOf isTrimmed str = none := by
        refine List.findIdx?_eq_none_iff.mpr fun c member => ?_
        rw [encloses.split, List.nil_append] at member
        have isBlank := (List.mem_append.mp member).elim (encloses.front c) (encloses.back c)
        simp [isBlank]
      rw [absent]
  | cons c core =>
      have later : front.length ≤ front.length + (c :: core).length - 1 := by
        rw [List.length_cons]
        omega
      have size :
          front.length + (c :: core).length - 1 - front.length + 1 = (c :: core).length := by
        rw [List.length_cons]
        omega
      rw [encloses.findFirstNotOf_eq (List.cons_ne_nil _ _),
        encloses.findLastNotOf_eq (List.cons_ne_nil _ _)]
      simp only [sizeSub, if_pos later, size]
      rw [encloses.split, Text.substr, List.drop_left, List.take_left]

/-- On one line both parsers trim alike. -/
theorem trim_line {text : Text} (oneLine : '\n' ∉ text) (noReturn : '\r' ∉ text) :
    trim text = StreamParser.trim text := by
  rw [trim_eq]
  refine Trimming.trim_congr fun c member => ?_
  have notFeed : (c == '\n') = false :=
    beq_eq_false_iff_ne.mpr fun same => oneLine (same ▸ member)
  have notReturn : (c == '\r') = false :=
    beq_eq_false_iff_ne.mpr fun same => noReturn (same ▸ member)
  rw [isTrimmed, notFeed, notReturn, Bool.or_false, Bool.or_false]

theorem toLower_toLower (c : Char) : c.toLower.toLower = c.toLower := by
  by_cases upper : c.val ≥ 'A'.val ∧ c.val ≤ 'Z'.val
  · have lowered : c.toLower.val = c.val + 32 := congrArg Char.val (dif_pos upper)
    have above : ¬ (c.toLower.val ≥ 'A'.val ∧ c.toLower.val ≤ 'Z'.val) := by
      rw [lowered]
      have low : 65 ≤ c.val.toNat := upper.1
      have high : c.val.toNat ≤ 90 := upper.2
      rintro ⟨-, tooHigh⟩
      have bound : (c.val + 32).toNat ≤ 90 := tooHigh
      rw [UInt32.toNat_add] at bound
      change (c.val.toNat + 32) % 2 ^ 32 ≤ 90 at bound
      omega
    exact dif_neg above
  · have kept : c.toLower = c := dif_neg upper
    rw [kept, kept]

theorem toLower_idem (text : Text) :
    MultipartField.toLower (MultipartField.toLower text) = MultipartField.toLower text := by
  rw [MultipartField.toLower, MultipartField.toLower, List.map_map]
  exact List.map_congr_left fun c _ => toLower_toLower c

/-- The field has the headers of the map, since their names are in lower case. -/
theorem lookup_addHeaders {headers : AList fun _ : Text => Text}
    (lower : ∀ name ∈ headers, MultipartField.toLower name = name) (key : Text) :
    (addHeaders headers).lookup key = headers.lookup key := by
  have added {entries : List (Sigma fun _ : Text => Text)}
      (lower : ∀ entry ∈ entries, MultipartField.toLower entry.1 = entry.1)
      (field : MultipartField) :
      (entries.foldl (fun field header => MultipartField.addHeader field header.1 header.2)
          field).headers =
        (entries.map fun entry => (entry.1, entry.2)).foldl
          (fun held entry => held.insert entry.1 entry.2) field.headers := by
    induction entries generalizing field with
    | nil => rfl
    | cons entry entries inductionHypothesis =>
        obtain ⟨isLower, later⟩ := List.forall_mem_cons.mp lower
        rw [List.foldl_cons, inductionHypothesis later, List.map_cons, List.foldl_cons,
          MultipartField.addHeader, isLower]
  have keys : ((headers.entries.map fun entry => (entry.1, entry.2)).map Prod.fst).Nodup := by
    rw [List.map_map]
    exact headers.nodupKeys
  rw [addHeaders, added fun entry member => lower _ (List.mem_map.mpr ⟨entry, member, rfl⟩)]
  rw [lookup_foldl_insert_empty keys]
  refine Option.ext fun value => ?_
  refine (mem_iff_lookup keys (key, value)).symm.trans (Iff.trans ?_ AList.mem_lookup_iff.symm)
  simp

/-- The names of headers are kept in lower case. -/
theorem lower_parseHeaders (headerData : Text) :
    ∀ name ∈ parseHeaders headerData, MultipartField.toLower name = name := by
  have added {held : AList fun _ : Text => Text}
      (lower : ∀ name ∈ held, MultipartField.toLower name = name) (line : Text) :
      ∀ name ∈ addLine held line, MultipartField.toLower name = name := by
    intro name member
    unfold addLine at member
    dsimp only at member
    split at member
    · exact lower name member
    · rcases (AList.mem_insert held).mp member with rfl | isHeld
      · exact toLower_idem _
      · exact lower name isHeld
  have folded {lines : List Text} {held : AList fun _ : Text => Text}
      (lower : ∀ name ∈ held, MultipartField.toLower name = name) :
      ∀ name ∈ lines.foldl addLine held, MultipartField.toLower name = name := by
    induction lines generalizing held with
    | nil => exact lower
    | cons line lines inductionHypothesis => exact inductionHypothesis (added lower line)
  exact folded fun name member => absurd member (AList.notMem_empty name)

end MultipartParser

/-! ## Blocks of header lines -/

/-- A header of a part: a name without a colon, and a value, on one line. -/
structure RawHeader where
  name : Text
  value : Text
  named : name ≠ []
  noColon : ':' ∉ name
  nameLine : '\r' ∉ name ∧ '\n' ∉ name
  valueLine : '\r' ∉ value ∧ '\n' ∉ value

namespace RawHeader

/-- The line of the header. -/
def line (header : RawHeader) : Text :=
  Part.headerLine (header.name, header.value)

/-- The name under which the header is kept. -/
def key (header : RawHeader) : Text :=
  MultipartField.toLower (StreamParser.trim header.name)

/-- The key and the value as they are kept. -/
def entry (header : RawHeader) : Text × Text :=
  (header.key, StreamParser.trim header.value)

end RawHeader

/-- The map of entries, later ones over earlier ones. -/
def entriesMap (entries : List (Text × Text)) : AList fun _ : Text => Text :=
  entries.foldl (fun held entry => held.insert entry.1 entry.2) ∅

namespace StreamParser

/-- A block which ends in two CRLF ends there. -/
theorem headerEnd_returns {front : List Text} (areLines : ∀ line ∈ front, IsLine line)
    {last : Text} (isLast : IsLine last) (rest : Text) :
    headerEnd (block "\r\n".toList front last ++ ("\r\n\r\n".toList ++ rest)) =
      some ((block "\r\n".toList front last).length + 4) := by
  have found : Text.findText (block "\r\n".toList front last ++ ("\r\n\r\n".toList ++ rest))
      "\r\n\r\n".toList 0 = some (block "\r\n".toList front last).length := by
    cases front with
    | nil => simpa [block] using findText_lines (List.forall_mem_nil IsLine) isLast rest
    | cons first front =>
        obtain ⟨isFirst, later⟩ := List.forall_mem_cons.mp areLines
        rw [block_eq]
        refine findText_lines ?_ isFirst rest
        exact List.forall_mem_append.mpr ⟨later, List.forall_mem_singleton.mpr isLast⟩
  rw [headerEnd, found]

/-- An empty line does not start in front of a line. -/
theorem findText_feeds {front : List Text} (areLines : ∀ line ∈ front, IsLine line) {last : Text}
    (isLast : IsLine last) (rest : Text) :
    Text.findText (block "\n".toList front last ++ ("\n\n".toList ++ rest)) "\n\n".toList 0 =
      some (block "\n".toList front last).length := by
  have inLine {line : Text} (oneLine : '\n' ∉ line) (tail : Text) :
      ∀ start < line.length, ¬ "\n\n".toList <+: (line ++ tail).drop start :=
    fun start inside => Text.not_prefix_drop oneLine inside
  induction front with
  | nil =>
      rw [block, List.flatMap_nil, List.nil_append, Text.findText_skip (inLine isLast.oneLine _),
        Text.findText_self]
      rfl
  | cons line front inductionHypothesis =>
      obtain ⟨isLine, later⟩ := List.forall_mem_cons.mp areLines
      have there := inductionHypothesis later
      obtain ⟨c, tail, starts, notFeed⟩ : ∃ c tail,
          block "\n".toList front last ++ ("\n\n".toList ++ rest) = c :: tail ∧ c ≠ '\n' := by
        have head {line : Text} (isLine : IsLine line) (more : Text) : ∃ c tail,
            line ++ more = c :: tail ∧ c ≠ '\n' := by
          obtain ⟨c, line, rfl⟩ := List.exists_cons_of_ne_nil isLine.some_
          exact ⟨c, _, rfl, fun same => isLine.oneLine (same ▸ List.mem_cons_self)⟩
        cases front with
        | nil => exact head isLast _
        | cons second front =>
            rw [block_cons, List.append_assoc]
            exact head (areLines second (by simp)) _
      have alone : ∀ start < ['\n'].length,
          ¬ "\n\n".toList <+: (['\n'] ++ c :: tail).drop start := by
        intro start inside isPrefix
        obtain rfl : start = 0 := by
          rw [List.length_singleton] at inside
          omega
        have second := (List.cons_prefix_cons.mp isPrefix).2
        exact notFeed (List.cons_prefix_cons.mp second).1.symm
      rw [block_cons, List.append_assoc, Text.findText_skip (inLine isLine.oneLine _),
        List.append_assoc, starts, show "\n".toList = ['\n'] from rfl, Text.findText_skip alone,
        ← starts, there]
      simp only [Option.map_some, List.length_append, List.length_singleton]
      rfl

end StreamParser

/-! ## What lines are read as -/

namespace StreamParser

theorem addLine_colon {name rest : Text} (noColon : ':' ∉ name)
    (unended : (name ++ ':' :: rest).getLast? ≠ some '\r') (held : AList fun _ : Text => Text) :
    MultipartParser.addLine held (name ++ ':' :: rest) =
      held.insert (MultipartField.toLower (MultipartParser.trim name))
        (MultipartParser.trim rest) := by
  have front : Text.substr (name ++ ':' :: rest) 0 name.length = name := by
    rw [Text.substr, List.drop_zero, List.take_left]
  have back : (name ++ ':' :: rest).drop (name.length + 1) = rest := by
    rw [List.append_cons, List.drop_left' (by simp)]
  unfold MultipartParser.addLine
  simp only [if_neg unended, Text.find_self noColon, front, back]

/-- A line without a colon is passed over. -/
theorem parseHeaderLine_plain {line : Text} (noColon : ':' ∉ line)
    (unended : line.getLast? ≠ some '\r') (field : MultipartField) (current : Text) :
    parseHeaderLine field current line = (field, current) := by
  unfold parseHeaderLine
  simp only [if_neg unended, Text.find_eq_none noColon]

theorem addLine_plain {line : Text} (noColon : ':' ∉ line) (unended : line.getLast? ≠ some '\r')
    (held : AList fun _ : Text => Text) : MultipartParser.addLine held line = held := by
  unfold MultipartParser.addLine
  simp only [if_neg unended, Text.find_eq_none noColon]

theorem addLine_return {line : Text} (isLine : IsLine line) (held : AList fun _ : Text => Text) :
    MultipartParser.addLine held (line ++ ['\r']) = MultipartParser.addLine held line := by
  have ended : (line ++ ['\r']).getLast? = some '\r' := by simp
  unfold MultipartParser.addLine
  simp only [if_pos ended, if_neg isLine.unended, List.dropLast_concat]

end StreamParser

namespace RawHeader

open StreamParser (IsLine applyHeader parseHeaderLine)

theorem isLine (header : RawHeader) : IsLine header.line :=
  StreamParser.isLine_headerLine header.nameLine.2 header.valueLine.2 fun last =>
    header.valueLine.1 (List.mem_of_getLast? last)

theorem line_eq (header : RawHeader) : header.line = header.name ++ ':' :: ' ' :: header.value := by
  simp [line, Part.headerLine]

/-- Both parsers keep the entry of a header. -/
theorem parse_line (header : RawHeader) (found : MultipartField × Text) :
    parseHeaderLine found.1 found.2 header.line =
      applyHeader found (StreamParser.trim header.name) (StreamParser.trim header.value) := by
  have unended := header.isLine.unended
  rw [line_eq] at unended ⊢
  exact StreamParser.parseHeaderLine_colon header.noColon unended found

theorem add_line (header : RawHeader) (held : AList fun _ : Text => Text) :
    MultipartParser.addLine held header.line = held.insert header.entry.1 header.entry.2 := by
  have unended := header.isLine.unended
  have value : MultipartParser.trim (' ' :: header.value) = StreamParser.trim header.value := by
    refine MultipartParser.trim_line ?_ ?_
    · simpa using header.valueLine.2
    · simpa using header.valueLine.1
  rw [line_eq] at unended ⊢
  rw [StreamParser.addLine_colon header.noColon unended, value,
    MultipartParser.trim_line header.nameLine.2 header.nameLine.1]
  rfl

end RawHeader

namespace StreamParser

theorem applyHeader_headers (found : MultipartField × Text) (name value : Text) :
    (applyHeader found name value).1.headers =
      found.1.headers.insert (MultipartField.toLower name) value := by
  rw [applyHeader]
  split <;> rfl

/-- The headers of the field are the map of the entries. -/
theorem fold_entries (headers : List RawHeader) (found : MultipartField × Text) :
    ((headers.map RawHeader.line).foldl (fun found line => parseHeaderLine found.1 found.2 line)
        found).1.headers =
      (headers.map RawHeader.entry).foldl (fun held entry => held.insert entry.1 entry.2)
        found.1.headers := by
  induction headers generalizing found with
  | nil => rfl
  | cons header headers inductionHypothesis =>
      rw [List.map_cons, List.foldl_cons, inductionHypothesis, header.parse_line,
        applyHeader_headers]
      rfl

theorem fold_addLine (headers : List RawHeader) (held : AList fun _ : Text => Text) :
    (headers.map RawHeader.line).foldl MultipartParser.addLine held =
      (headers.map RawHeader.entry).foldl (fun held entry => held.insert entry.1 entry.2) held := by
  induction headers generalizing held with
  | nil => rfl
  | cons header headers inductionHypothesis =>
      rw [List.map_cons, List.foldl_cons, header.add_line, inductionHypothesis]
      rfl

end StreamParser

end Foxhttp.Parser
