import Mathlib.Data.List.Forall2
import Foxhttp.Parser.MultipartChunks

/-!
# Multipart encoding and the stream parser

A list of parts has its standard encoding, with a line end after every line.
The stream parser given the encoding in one call comes to its end; it gives
back the parts without their content, and takes a line end in a name and a name
which looks like the parameter `filename` for what they are not.
-/

namespace Foxhttp.Parser

open Foxhttp.Library

/-- A header of a part beside `Content-Disposition`. -/
structure PartHeader where
  name : Text
  value : Text
  nameLine : ':' ∉ name ∧ '\n' ∉ name
  nameTrimmed : StreamParser.trim name = name
  valueLine : '\r' ∉ value ∧ '\n' ∉ value
  valueTrimmed : StreamParser.trim value = value
  further : name ≠ "Content-Disposition".toList

/-- A part of multipart data. -/
structure Part where
  name : Text
  filename : Option Text
  headers : List PartHeader
  content : Text
  named : name ≠ []
  nameUnquoted : '"' ∉ name
  filenameUnquoted : ∀ filename' ∈ filename, '"' ∉ filename'

namespace Part

/-- The parameter `filename`, behind the name. -/
def filenameParameter : Option Text → Text
  | some filename => "; filename=\"".toList ++ filename ++ "\"".toList
  | none => []

/-- The value of the `Content-Disposition` of a part. -/
def disposition (part : Part) : Text :=
  "form-data; name=\"".toList ++ part.name ++ "\"".toList ++ filenameParameter part.filename

/-- The quotes in it are those around the parameters. -/
theorem disposition_quotes (part : Part) :
    part.disposition =
      "form-data; name=".toList ++
        '"' :: (part.name ++ '"' :: filenameParameter part.filename) := by
  unfold disposition
  simp

theorem filenameParameter_quotes (filename : Text) :
    filenameParameter (some filename) =
      "; filename=".toList ++ '"' :: (filename ++ '"' :: []) := by
  unfold filenameParameter
  simp

/-- All headers of a part, names and values. -/
def headerList (part : Part) : List (Text × Text) :=
  ("Content-Disposition".toList, part.disposition) ::
    part.headers.map fun header => (header.name, header.value)

/-- A header as a line. -/
def headerLine (header : Text × Text) : Text :=
  header.1 ++ ": ".toList ++ header.2

/-- The header lines of a part, each but the first behind a line end. -/
def headerBlock (part : Part) : Text :=
  headerLine ("Content-Disposition".toList, part.disposition) ++
    part.headers.flatMap fun header => "\r\n".toList ++ headerLine (header.name, header.value)

/-- A part behind its boundary. -/
def encode (fullBoundary : Text) (part : Part) : Text :=
  fullBoundary ++ "\r\n".toList ++ part.headerBlock ++ "\r\n\r\n".toList ++ part.content ++
    "\r\n".toList

/-- The encoding of a list of parts. -/
def encodeAll (boundary : Text) (parts : List Part) : Text :=
  let fullBoundary := "--".toList ++ boundary
  parts.flatMap (encode fullBoundary) ++ fullBoundary ++ "--".toList

/-- The field is the part. -/
structure Recovered (part : Part) (field : MultipartField) : Prop where
  name : field.name = part.name
  filename : field.filename = part.filename.getD []
  headers : ∀ header ∈ part.headerList,
    field.headers.lookup (MultipartField.toLower header.1) = some header.2
  noOthers : ∀ name ∈ field.headers,
    ∃ header ∈ part.headerList, MultipartField.toLower header.1 = name
  content : field.content = part.content

/-- What a part must be for the stream parser to give it back. -/
structure Decodable (part : Part) : Prop where
  content : part.content = []
  nameLine : '\n' ∉ part.name
  filenameLine : ∀ filename ∈ part.filename, '\n' ∉ filename
  filename : "filename=".toList <:+ part.name →
    ∀ filename ∈ part.filename, filename = "; filename=".toList
  headers : ∀ header ∈ part.headerList, ∀ other ∈ part.headerList,
    MultipartField.toLower header.1 = MultipartField.toLower other.1 → header.2 = other.2

end Part

/-- Lines, each with its end, and a last line without one. -/
def block (lineEnd : Text) (front : List Text) (last : Text) : Text :=
  front.flatMap (· ++ lineEnd) ++ last

namespace StreamParser

/-! ## Quoted parameters -/

/-- A parameter is read behind the first quote which follows its key. -/
theorem quotedParameter_quote {front key : Text} (unquoted : '"' ∉ front)
    (keyUnquoted : '"' ∉ key) (rest : Text) :
    quotedParameter (key ++ ['"']) (front ++ '"' :: rest) =
      if key <:+ front then (Text.find rest '"' 0).map rest.take
      else quotedParameter (key ++ ['"']) rest := by
  have behind (start : Nat) : (front ++ '"' :: rest).drop (front.length + 1 + start) =
      rest.drop start := by
    rw [← List.drop_drop, List.append_cons, List.drop_left' (by simp)]
  rw [quotedParameter, Text.findText_mark unquoted keyUnquoted]
  split
  · rename_i isSuffix
    have start : front.length - key.length + (key ++ ['"']).length = front.length + 1 + 0 := by
      have fits := isSuffix.length_le
      rw [List.length_append, List.length_singleton]
      omega
    rw [Option.bind_some, start, Text.find, behind, Text.find, Option.map_map, Option.map_map]
    refine congrArg (Option.map · _) (funext fun stop => ?_)
    simp only [Function.comp_apply, Text.substr, behind, Nat.add_sub_cancel_left, Nat.zero_add,
      List.drop_zero]
  · rw [quotedParameter]
    cases Text.findText rest (key ++ ['"']) 0 with
    | none => rfl
    | some pos =>
        rw [Option.map_some, Option.bind_some, Option.bind_some, Nat.add_assoc, Text.find, behind,
          Text.find, Option.map_map, Option.map_map]
        refine congrArg (Option.map · _) (funext fun stop => ?_)
        simp only [Function.comp_apply, Text.substr, behind]
        congr 1
        omega

/-- The text up to the next quote. -/
theorem find_quote {text : Text} (unquoted : '"' ∉ text) (rest : Text) :
    (Text.find (text ++ '"' :: rest) '"' 0).map (text ++ '"' :: rest).take = some text := by
  rw [Text.find_self unquoted, Option.map_some, List.take_left]

theorem name_of_disposition (part : Part) :
    quotedParameter "name=\"".toList part.disposition = some part.name := by
  have key : "name=\"".toList = "name=".toList ++ ['"'] := by decide
  refine (congrArg (quotedParameter · part.disposition) key).trans ?_
  rw [Part.disposition_quotes, quotedParameter_quote (by decide) (by decide), if_pos (by decide)]
  exact find_quote part.nameUnquoted _

/-- What the stream parser takes for the filename of a part. -/
def foundFilename (part : Part) : Text :=
  match part.filename with
  | some filename =>
      if "filename=".toList <:+ part.name then "; filename=".toList else filename
  | none => []

theorem filename_of_disposition (part : Part) :
    (quotedParameter "filename=\"".toList part.disposition).getD [] = foundFilename part := by
  have key : "filename=\"".toList = "filename=".toList ++ ['"'] := by decide
  refine (congrArg (fun key => (quotedParameter key part.disposition).getD []) key).trans ?_
  rw [Part.disposition_quotes, quotedParameter_quote (by decide) (by decide),
    if_neg (by decide), quotedParameter_quote part.nameUnquoted (by decide)]
  unfold foundFilename
  cases isFilename : part.filename with
  | none =>
      unfold Part.filenameParameter
      split <;> rfl
  | some filename =>
      have unquoted := part.filenameUnquoted filename isFilename
      rw [Part.filenameParameter_quotes]
      dsimp only
      split
      · rw [find_quote (by decide)]
        rfl
      · rw [quotedParameter_quote (by decide) (by decide), if_pos (by decide),
          find_quote unquoted]
        rfl

/-! ## Header lines -/

/-- A text without blanks at its ends is not changed by trimming. -/
theorem trim_eq_self {text : Text} (front : ∀ c ∈ text.head?, c ≠ ' ' ∧ c ≠ '\t')
    (back : ∀ c ∈ text.getLast?, c ≠ ' ' ∧ c ≠ '\t') : trim text = text := by
  have stays {text : Text} (front : ∀ c ∈ text.head?, c ≠ ' ' ∧ c ≠ '\t') :
      text.dropWhile (fun c => c == ' ' || c == '\t') = text := by
    cases text with
    | nil => rfl
    | cons c text => simp [front c rfl]
  rw [trim, stays front, stays (by rwa [List.head?_reverse]), List.reverse_reverse]

theorem trim_blank (text : Text) : trim (' ' :: text) = trim text := rfl

/-- A line of a header: not empty, and without a line end in it or behind it. -/
structure IsLine (line : Text) : Prop where
  some_ : line ≠ []
  oneLine : '\n' ∉ line
  unended : line.getLast? ≠ some '\r'

theorem isLine_headerLine {name value : Text} (nameLine : '\n' ∉ name)
    (valueLine : '\n' ∉ value) (unended : value.getLast? ≠ some '\r') :
    IsLine (Part.headerLine (name, value)) where
  some_ := by simp [Part.headerLine]
  oneLine := by simp [Part.headerLine, nameLine, valueLine]
  unended := by
    rw [Part.headerLine, List.getLast?_append]
    cases last : value.getLast? with
    | none => simp
    | some c => simpa [last] using unended

/-- What `process_headers` makes of the name and the value of a line. -/
def applyHeader (found : MultipartField × Text) (name value : Text) : MultipartField × Text :=
  if name = "Content-Disposition".toList then
    ({ found.1.addHeader name value with
        name := (quotedParameter "name=\"".toList value).getD found.1.name
        filename := (quotedParameter "filename=\"".toList value).getD found.1.filename },
      (quotedParameter "name=\"".toList value).getD found.2)
  else (found.1.addHeader name value, found.2)

theorem parseHeaderLine_colon {name rest : Text} (noColon : ':' ∉ name)
    (unended : (name ++ ':' :: rest).getLast? ≠ some '\r') (found : MultipartField × Text) :
    parseHeaderLine found.1 found.2 (name ++ ':' :: rest) =
      applyHeader found (trim name) (trim rest) := by
  have front : Text.substr (name ++ ':' :: rest) 0 name.length = name := by
    rw [Text.substr, List.drop_zero, List.take_left]
  have back : (name ++ ':' :: rest).drop (name.length + 1) = rest := by
    rw [List.append_cons, List.drop_left' (by simp)]
  unfold parseHeaderLine
  simp only [if_neg unended, Text.find_self noColon, front, back]
  by_cases disposes : trim name = "Content-Disposition".toList
  · refine (if_pos disposes).trans (Eq.trans ?_ (if_pos disposes).symm)
    cases quotedParameter "name=\"".toList (trim rest) <;>
      cases quotedParameter "filename=\"".toList (trim rest) <;> rfl
  · rw [if_neg disposes, applyHeader, if_neg disposes]

/-- What `process_headers` makes of a header line which is well formed. -/
theorem parseHeaderLine_headerLine {name value : Text} (unmarked : ':' ∉ name)
    (nameTrimmed : trim name = name) (valueTrimmed : trim value = value)
    (unended : (Part.headerLine (name, value)).getLast? ≠ some '\r')
    (found : MultipartField × Text) :
    parseHeaderLine found.1 found.2 (Part.headerLine (name, value)) =
      applyHeader found name value := by
  have split : Part.headerLine (name, value) = name ++ ':' :: ' ' :: value := by
    simp [Part.headerLine]
  rw [split] at unended ⊢
  rw [parseHeaderLine_colon unmarked unended, trim_blank, nameTrimmed, valueTrimmed]

theorem parseHeaderLine_return {line : Text} (isLine : IsLine line) (field : MultipartField)
    (current : Text) :
    parseHeaderLine field current (line ++ ['\r']) = parseHeaderLine field current line := by
  have ended : (line ++ ['\r']).getLast? = some '\r' := by simp
  unfold parseHeaderLine
  simp only [if_pos ended, if_neg isLine.unended, List.dropLast_concat]

/-- The field after the `Content-Disposition` of a part. -/
def namedField (part : Part) : MultipartField :=
  { MultipartField.addHeader {} "Content-Disposition".toList part.disposition with
    name := part.name
    filename := foundFilename part }

/-- The field which the stream parser makes of a part. -/
def decodedField (part : Part) : MultipartField :=
  part.headers.foldl (fun field header => field.addHeader header.name header.value)
    (namedField part)

theorem disposition_last (part : Part) : part.disposition.getLast? = some '"' := by
  have ends : ∃ front, part.disposition = front ++ ['"'] := by
    rw [part.disposition_quotes]
    cases part.filename with
    | none =>
        unfold Part.filenameParameter
        exact ⟨"form-data; name=".toList ++ '"' :: part.name, by simp⟩
    | some filename =>
        rw [Part.filenameParameter_quotes]
        exact ⟨"form-data; name=".toList ++ '"' :: (part.name ++
          '"' :: ("; filename=".toList ++ '"' :: filename)), by simp⟩
  obtain ⟨front, split⟩ := ends
  rw [split, List.getLast?_concat]

theorem disposition_trimmed (part : Part) : trim part.disposition = part.disposition := by
  refine trim_eq_self ?_ ?_
  · rw [part.disposition_quotes]
    simp
  · rw [disposition_last]
    simp

theorem parse_disposition {part : Part}
    (isLine : IsLine (Part.headerLine ("Content-Disposition".toList, part.disposition)))
    (current : Text) :
    parseHeaderLine {} current
        (Part.headerLine ("Content-Disposition".toList, part.disposition)) =
      (namedField part, part.name) := by
  have nameTrimmed : trim "Content-Disposition".toList = "Content-Disposition".toList := by decide
  have filename : (quotedParameter "filename=\"".toList part.disposition).getD
      ({} : MultipartField).filename = foundFilename part := filename_of_disposition part
  have parsed := parseHeaderLine_headerLine (by decide) nameTrimmed (disposition_trimmed part)
    isLine.unended ({}, current)
  rw [applyHeader, if_pos rfl, name_of_disposition, filename] at parsed
  exact parsed

theorem isLine_further (header : PartHeader) :
    IsLine (Part.headerLine (header.name, header.value)) :=
  isLine_headerLine header.nameLine.2 header.valueLine.2
    (fun last => header.valueLine.1 (List.mem_of_getLast? last))

theorem parse_further (header : PartHeader) (field : MultipartField) (current : Text) :
    parseHeaderLine field current (Part.headerLine (header.name, header.value)) =
      (field.addHeader header.name header.value, current) := by
  have parsed := parseHeaderLine_headerLine header.nameLine.1 header.nameTrimmed
    header.valueTrimmed (isLine_further header).unended (field, current)
  rwa [applyHeader, if_neg header.further] at parsed

/-! ## The header block -/

/-- The header lines are the lines of a stream. -/
theorem getLines_eq (text : Text) : getLines text = Text.getLines '\n' text := by
  induction text with
  | nil => rfl
  | cons c text inductionHypothesis =>
      rw [getLines, inductionHypothesis]
      rfl

/-- The ends of lines. -/
def IsLineEnd (lineEnd : Text) : Prop :=
  lineEnd = "\n".toList ∨ lineEnd = "\r\n".toList

/-- The lines of a block are read one after the other, by whatever drops the
return in front of a line end. -/
theorem foldl_block {σ : Type} {step : σ → Text → σ}
    (returns : ∀ state line, IsLine line → step state (line ++ ['\r']) = step state line)
    {lineEnd : Text} (isEnd : IsLineEnd lineEnd) {front : List Text}
    (areLines : ∀ line ∈ front, IsLine line) {last : Text} (isLast : IsLine last) (state : σ) :
    (getLines (block lineEnd front last)).foldl step state =
      (front ++ [last]).foldl step state := by
  induction front generalizing state with
  | nil =>
      rw [block, List.flatMap_nil, List.nil_append, getLines_eq,
        Text.getLines_line isLast.some_ isLast.oneLine]
      rfl
  | cons line front inductionHypothesis =>
      obtain ⟨isLine, later⟩ := List.forall_mem_cons.mp areLines
      have rest := inductionHypothesis later
      rw [getLines_eq, block] at rest
      rw [getLines_eq, block, List.flatMap_cons, List.append_assoc, List.append_assoc]
      rcases isEnd with rfl | rfl
      · have split : ∀ tail : Text, line ++ ("\n".toList ++ tail) = line ++ '\n' :: tail := by simp
        rw [split, Text.getLines_feed isLine.oneLine, List.foldl_cons, rest]
        rfl
      · have oneLine : '\n' ∉ line ++ ['\r'] := by simp [isLine.oneLine]
        have split : ∀ tail : Text, line ++ ("\r\n".toList ++ tail) =
            (line ++ ['\r']) ++ '\n' :: tail := by simp
        rw [split, Text.getLines_feed oneLine, List.foldl_cons, rest, returns state line isLine]
        rfl

theorem block_cons (lineEnd : Text) (line : Text) (front : List Text) (last : Text) :
    block lineEnd (line :: front) last = line ++ (lineEnd ++ block lineEnd front last) := by
  rw [block, block, List.flatMap_cons, List.append_assoc, List.append_assoc]

/-- The lines of a block, each but the first behind a line end. -/
theorem block_eq (lineEnd first : Text) (front : List Text) (last : Text) :
    block lineEnd (first :: front) last =
      first ++ (front ++ [last]).flatMap (lineEnd ++ ·) := by
  induction front generalizing first with
  | nil => simp [block]
  | cons second front inductionHypothesis =>
      rw [block_cons, inductionHypothesis, List.cons_append, List.flatMap_cons, List.append_assoc]

theorem fold_lines {lines : List Text} (areLines : ∀ line ∈ lines, IsLine line) {first : Text}
    (isLine : IsLine first) (found : MultipartField × Text) :
    (getLines (first ++ lines.flatMap ("\r\n".toList ++ ·))).foldl
        (fun found line => parseHeaderLine found.1 found.2 line) found =
      (first :: lines).foldl (fun found line => parseHeaderLine found.1 found.2 line) found := by
  have returns (found : MultipartField × Text) (line : Text) (isLine : IsLine line) :
      parseHeaderLine found.1 found.2 (line ++ ['\r']) = parseHeaderLine found.1 found.2 line :=
    parseHeaderLine_return isLine found.1 found.2
  rcases List.eq_nil_or_concat' lines with rfl | ⟨front, last, rfl⟩
  · rw [List.flatMap_nil, List.append_nil]
    exact foldl_block returns (.inr rfl) (List.forall_mem_nil _) isLine found
  · obtain ⟨areFront, isLast⟩ := List.forall_mem_append.mp areLines
    rw [← block_eq]
    exact foldl_block returns (.inr rfl) (List.forall_mem_cons.mpr ⟨isLine, areFront⟩)
      (List.forall_mem_singleton.mp isLast) found

theorem parse_headers (headers : List PartHeader) (found : MultipartField × Text) :
    (headers.map fun header => Part.headerLine (header.name, header.value)).foldl
        (fun found line => parseHeaderLine found.1 found.2 line) found =
      (headers.foldl (fun field header => field.addHeader header.name header.value) found.1,
        found.2) := by
  induction headers generalizing found with
  | nil => rfl
  | cons header headers inductionHypothesis =>
      rw [List.map_cons, List.foldl_cons, parse_further, inductionHypothesis]
      rfl

/-- The header lines of a part. -/
def furtherLines (part : Part) : List Text :=
  part.headers.map fun header => Part.headerLine (header.name, header.value)

theorem isLine_furtherLines (part : Part) : ∀ line ∈ furtherLines part, IsLine line := by
  intro line isIn
  obtain ⟨header, -, rfl⟩ := List.mem_map.mp isIn
  exact isLine_further header

theorem headerBlock_lines (part : Part) :
    part.headerBlock =
      Part.headerLine ("Content-Disposition".toList, part.disposition) ++
        (furtherLines part).flatMap ("\r\n".toList ++ ·) := by
  unfold Part.headerBlock
  rw [furtherLines, List.flatMap_map]

/-- The header data of a part gives its field, up to the content. -/
theorem parseHeaderData_block {part : Part}
    (isLine : IsLine (Part.headerLine ("Content-Disposition".toList, part.disposition)))
    (current : Text) :
    parseHeaderData current part.headerBlock = (decodedField part, part.name) := by
  rw [parseHeaderData, headerBlock_lines, fold_lines (isLine_furtherLines part) isLine,
    List.foldl_cons, parse_disposition isLine, furtherLines, parse_headers]
  rfl

/-- The end of the headers does not start in a line. -/
theorem unended_line {line : Text} (oneLine : '\n' ∉ line) (rest : Text) :
    ∀ start < line.length, ¬ "\r\n\r\n".toList <+: (line ++ '\r' :: rest).drop start := by
  rintro start inLine ⟨tail, split⟩
  have feed : (line ++ '\r' :: rest)[start + 1]? = some '\n' := by
    rw [← List.getElem?_drop, ← split]
    rfl
  by_cases inside : start + 1 < line.length
  · rw [List.getElem?_append_left inside] at feed
    exact oneLine (List.mem_of_getElem? feed)
  · have atEnd : start + 1 = line.length := by omega
    rw [atEnd, List.getElem?_append_right (Nat.le_refl _), Nat.sub_self] at feed
    cases feed

/-- The end of the headers does not start in the line end in front of a line. -/
theorem unended_lineEnd {line : Text} (isLine : IsLine line) (rest : Text) :
    ∀ start < "\r\n".toList.length,
      ¬ "\r\n\r\n".toList <+: ("\r\n".toList ++ (line ++ '\r' :: rest)).drop start := by
  intro start inFront isPrefix
  have oneLine := isLine.oneLine
  obtain rfl | rfl : start = 0 ∨ start = 1 := by
    change start < 2 at inFront
    omega
  · match line, isLine.some_ with
    | [c], _ => simp at isPrefix
    | c :: d :: line, _ =>
        simp at isPrefix
        simp [← isPrefix.2] at oneLine
  · simp at isPrefix

/-- The headers end behind their lines. -/
theorem findText_lines {lines : List Text} (areLines : ∀ line ∈ lines, IsLine line) {first : Text}
    (isLine : IsLine first) (rest : Text) :
    Text.findText (first ++ lines.flatMap ("\r\n".toList ++ ·) ++ ("\r\n\r\n".toList ++ rest))
        "\r\n\r\n".toList 0 =
      some (first ++ lines.flatMap ("\r\n".toList ++ ·)).length := by
  induction lines generalizing first with
  | nil =>
      have skipped := Text.findText_skip (unended_line isLine.oneLine ("\n\r\n".toList ++ rest))
      rw [List.flatMap_nil, List.append_nil]
      refine skipped.trans ?_
      rw [show '\r' :: ("\n\r\n".toList ++ rest) = "\r\n\r\n".toList ++ rest from rfl,
        Text.findText_self]
      rfl
  | cons second lines inductionHypothesis =>
      have areLater : ∀ line ∈ lines, IsLine line :=
        fun line isIn => areLines line (List.mem_cons_of_mem _ isIn)
      have isSecond := areLines second List.mem_cons_self
      have there := inductionHypothesis areLater isSecond
      obtain ⟨tail, starts⟩ : ∃ tail,
          lines.flatMap ("\r\n".toList ++ ·) ++ ("\r\n\r\n".toList ++ rest) = '\r' :: tail := by
        cases lines with
        | nil => exact ⟨_, rfl⟩
        | cons third lines => exact ⟨_, rfl⟩
      rw [List.append_assoc, starts] at there
      have whole : first ++ (second :: lines).flatMap ("\r\n".toList ++ ·) ++
          ("\r\n\r\n".toList ++ rest) =
            first ++ '\r' :: '\n' :: (second ++ '\r' :: tail) := by
        rw [← starts]
        simp
      have lineEnd : '\r' :: '\n' :: (second ++ '\r' :: tail) =
          "\r\n".toList ++ (second ++ '\r' :: tail) := rfl
      rw [whole, Text.findText_skip (unended_line isLine.oneLine _), lineEnd,
        Text.findText_skip (unended_lineEnd isSecond tail), there]
      simp only [Option.map_some, List.flatMap_cons, List.length_append, Nat.add_assoc]

theorem headerEnd_block {part : Part}
    (isLine : IsLine (Part.headerLine ("Content-Disposition".toList, part.disposition)))
    (rest : Text) :
    headerEnd (part.headerBlock ++ ("\r\n\r\n".toList ++ rest)) =
      some (part.headerBlock.length + 4) := by
  have found := findText_lines (isLine_furtherLines part) isLine rest
  rw [← headerBlock_lines] at found
  rw [headerEnd, found]

/-! ## The turns for a part -/

variable {parser : StreamParser} {boundary : Text}

/-- The boundary is found where the buffer starts with it. -/
theorem boundary_part (inState : parser.state = .boundary) {rest : Text}
    (buffer : parser.buffer = parser.fullBoundary ++ ("\r\n".toList ++ rest)) :
    parser.turn = ({ parser with buffer := rest, state := .headers }, true) := by
  have found : Text.findText parser.buffer parser.fullBoundary 0 = some 0 := by
    rw [buffer, Text.findText_self]
  have behind : parser.buffer.drop (0 + parser.fullBoundary.length) = "\r\n".toList ++ rest := by
    rw [buffer, Nat.zero_add, List.drop_left]
  have unclosed : ¬ "--".toList <+: "\r\n".toList ++ rest := by simp
  have skipped : skipLineEnd ("\r\n".toList ++ rest) = rest := by
    rw [skipLineEnd, if_pos (List.prefix_append _ _), erase_front]
    rfl
  rw [turn, inState]
  refine (processBoundary_found found).trans ?_
  rw [behind, if_neg unclosed, skipped]

theorem headers_part (inState : parser.state = .headers) {part : Part}
    (isLine : IsLine (Part.headerLine ("Content-Disposition".toList, part.disposition)))
    {rest : Text}
    (buffer : parser.buffer = part.headerBlock ++ ("\r\n\r\n".toList ++ rest)) :
    parser.turn =
      ({ parser with
          buffer := rest
          currentField := some (decodedField part)
          currentFieldName := part.name
          currentFieldSize := 0
          state := .content }, true) := by
  have ends : headerEnd parser.buffer = some (part.headerBlock.length + 4) := by
    rw [buffer, headerEnd_block isLine]
  have data : Text.substr parser.buffer 0 (sizeSub (part.headerBlock.length + 4) 4) =
      part.headerBlock := by
    rw [buffer, sizeSub, if_pos (Nat.le_add_left _ _), Nat.add_sub_cancel, Text.substr,
      List.drop_zero, List.take_left]
  have behind : parser.buffer.drop (part.headerBlock.length + 4) = rest := by
    rw [buffer, ← List.drop_drop, List.drop_left]
    rfl
  rw [turn, inState]
  simp only [processHeaders, ends, data, erase_front, behind, parseHeaderData_block isLine]

theorem content_part (inState : parser.state = .content)
    (marked : parser.fullBoundary = "--".toList ++ boundary) {field : MultipartField}
    (current : parser.currentField = some field) {rest : Text}
    (buffer : parser.buffer = "\r\n".toList ++ (parser.fullBoundary ++ rest)) :
    ∃ size calls, parser.turn =
      ({ parser with
          buffer := parser.fullBoundary ++ rest
          state := .boundary
          currentFieldSize := size
          currentField := none
          result := parser.result ++ [field]
          calls := calls }, true) := by
  have notLineEnd : ∀ start < "\r\n".toList.length,
      ¬ parser.fullBoundary <+: ("\r\n".toList ++ (parser.fullBoundary ++ rest)).drop start := by
    intro start inFront
    obtain rfl | rfl : start = 0 ∨ start = 1 := by
      change start < 2 at inFront
      omega
    · simp [marked]
    · simp [marked]
  have found : Text.findText parser.buffer parser.fullBoundary 0 = some 2 := by
    rw [buffer, Text.findText_skip notLineEnd, Text.findText_self]
    rfl
  have behind : parser.buffer.drop 2 = parser.fullBoundary ++ rest := by
    rw [buffer]
    rfl
  obtain ⟨size, calls, does⟩ := processContent_found found current
  rw [behind] at does
  rw [turn, inState]
  exact ⟨size, calls, does⟩

/-- The three turns for a part without content. -/
theorem drain_part (inState : parser.state = .boundary)
    (marked : parser.fullBoundary = "--".toList ++ boundary) {part : Part}
    (isLine : IsLine (Part.headerLine ("Content-Disposition".toList, part.disposition)))
    (empty : part.content = []) {rest : Text}
    (buffer : parser.buffer =
      part.encode parser.fullBoundary ++ (parser.fullBoundary ++ rest)) :
    ∃ next : StreamParser, machine.drain parser = machine.drain next ∧ next.state = .boundary ∧
      next.fullBoundary = parser.fullBoundary ∧ next.buffer = parser.fullBoundary ++ rest ∧
      next.result = parser.result ++ [decodedField part] := by
  have layout : parser.buffer = parser.fullBoundary ++ ("\r\n".toList ++ (part.headerBlock ++
      ("\r\n\r\n".toList ++ ("\r\n".toList ++ (parser.fullBoundary ++ rest))))) := by
    rw [buffer]
    unfold Part.encode
    simp only [empty, List.append_nil, List.append_assoc]
  have busyBoundary : parser.idle = false := by
    rw [busy_iff, layout, inState]
    exact ⟨by simp, nofun, nofun⟩
  let inHeaders : StreamParser :=
    { parser with
      buffer := part.headerBlock ++ ("\r\n\r\n".toList ++ ("\r\n".toList ++
        (parser.fullBoundary ++ rest)))
      state := .headers }
  have busyHeaders : inHeaders.idle = false :=
    busy_iff.mpr ⟨by simp [inHeaders], nofun, nofun⟩
  have headersTurn := headers_part (rfl : inHeaders.state = .headers) isLine rfl
  let inContent : StreamParser :=
    { parser with
      buffer := "\r\n".toList ++ (parser.fullBoundary ++ rest)
      currentField := some (decodedField part)
      currentFieldName := part.name
      currentFieldSize := 0
      state := .content }
  have busyContent : inContent.idle = false :=
    busy_iff.mpr ⟨by simp [inContent], nofun, nofun⟩
  obtain ⟨size, calls, contentTurn⟩ :=
    content_part (rfl : inContent.state = .content) marked rfl rfl
  have drained := calc machine.drain parser
    _ = machine.drain inHeaders :=
        StreamMachine.drain_turn busyBoundary (boundary_part inState layout)
    _ = machine.drain inContent := StreamMachine.drain_turn busyHeaders headersTurn
    _ = _ := StreamMachine.drain_turn busyContent contentTurn
  exact ⟨_, drained, rfl, rfl, rfl, rfl⟩

/-- The encoding of a list of parts starts with the boundary. -/
theorem encoding_starts (fullBoundary : Text) (parts : List Part) :
    ∃ rest, parts.flatMap (Part.encode fullBoundary) ++ fullBoundary ++ "--".toList =
      fullBoundary ++ rest := by
  cases parts with
  | nil => exact ⟨"--".toList, rfl⟩
  | cons part parts =>
      rw [List.flatMap_cons]
      unfold Part.encode
      simp only [List.append_assoc]
      exact ⟨_, rfl⟩

/-- A part which its encoding leaves on lines of their own. -/
structure Plain (part : Part) : Prop where
  empty : part.content = []
  nameLine : '\n' ∉ part.name
  filenameLine : ∀ filename ∈ part.filename, '\n' ∉ filename

theorem Plain.isLine {part : Part} (plain : Plain part) :
    IsLine (Part.headerLine ("Content-Disposition".toList, part.disposition)) := by
  refine isLine_headerLine (by decide) ?_ (by rw [disposition_last]; decide)
  rw [part.disposition_quotes]
  have nameLine := plain.nameLine
  cases isFilename : part.filename with
  | none =>
      unfold Part.filenameParameter
      simp [nameLine]
  | some filename =>
      have filenameLine := plain.filenameLine filename isFilename
      rw [Part.filenameParameter_quotes]
      simp [nameLine, filenameLine]

/-- The encoding of plain parts is gone through to its end. -/
theorem drain_encoding {parts : List Part} (plain : ∀ part ∈ parts, Plain part)
    (inState : parser.state = .boundary)
    (marked : parser.fullBoundary = "--".toList ++ boundary)
    (buffer : parser.buffer =
      parts.flatMap (Part.encode parser.fullBoundary) ++ parser.fullBoundary ++ "--".toList) :
    (machine.drain parser).state = .complete ∧
      (machine.drain parser).result = parser.result ++ parts.map decodedField := by
  induction parts generalizing parser with
  | nil =>
      have found : Text.findText parser.buffer parser.fullBoundary 0 = some 0 := by
        rw [buffer, List.flatMap_nil, List.nil_append, Text.findText_self]
      have behind : parser.buffer.drop (0 + parser.fullBoundary.length) = "--".toList := by
        rw [buffer, List.flatMap_nil, List.nil_append, Nat.zero_add, List.drop_left]
      have busy : parser.idle = false := by
        rw [busy_iff, buffer, inState]
        exact ⟨by simp, nofun, nofun⟩
      have turned : machine.turn parser =
          ({ parser with buffer := "--".toList, state := .complete }, true) := by
        change parser.turn = _
        rw [turn, inState]
        refine (processBoundary_found found).trans ?_
        rw [behind, if_pos (List.prefix_refl _)]
      rw [StreamMachine.drain_turn busy turned, StreamMachine.drain_idle rfl, List.map_nil,
        List.append_nil]
      exact ⟨rfl, rfl⟩
  | cons part parts inductionHypothesis =>
      have plainPart := plain part List.mem_cons_self
      obtain ⟨rest, starts⟩ := encoding_starts parser.fullBoundary parts
      have layout : parser.buffer =
          part.encode parser.fullBoundary ++ (parser.fullBoundary ++ rest) := by
        rw [buffer, ← starts, List.flatMap_cons]
        simp only [List.append_assoc]
      obtain ⟨next, drained, nextState, nextBoundary, nextBuffer, nextResult⟩ :=
        drain_part inState marked plainPart.isLine plainPart.empty layout
      have later : ∀ part ∈ parts, Plain part :=
        fun part isIn => plain part (List.mem_cons_of_mem _ isIn)
      have done := inductionHypothesis later nextState (nextBoundary.trans marked)
        (by rw [nextBuffer, nextBoundary, starts])
      rw [drained, done.2, nextResult, List.map_cons, List.append_assoc]
      exact ⟨done.1, rfl⟩

/-! ## What fields are made of -/

/-- A field as the stream parser makes it: from single lines, and without its
content. -/
structure Headed (field : MultipartField) : Prop where
  content : field.content = []
  nameLine : '\n' ∉ field.name
  filenameLine : '\n' ∉ field.filename

theorem mem_of_mem_trim {text : Text} {c : Char} (member : c ∈ trim text) : c ∈ text := by
  rw [trim, List.mem_reverse] at member
  have inner := (List.dropWhile_sublist _).subset member
  exact (List.dropWhile_sublist _).subset (List.mem_reverse.mp inner)

theorem mem_of_quotedParameter {key value found : Text}
    (isFound : quotedParameter key value = some found) {c : Char} (member : c ∈ found) :
    c ∈ value := by
  obtain ⟨pos, -, stops⟩ := Option.bind_eq_some_iff.mp isFound
  obtain ⟨stop, -, rfl⟩ := Option.map_eq_some_iff.mp stops
  exact List.mem_of_mem_drop (List.mem_of_mem_take member)

theorem oneLine_of_mem_getLines {text line : Text} (member : line ∈ getLines text) :
    '\n' ∉ line :=
  Text.not_mem_of_mem_getLines (getLines_eq text ▸ member)

theorem parseHeaderLine_headed {field : MultipartField} (headed : Headed field) {line : Text}
    (oneLine : '\n' ∉ line) (current : Text) :
    Headed (parseHeaderLine field current line).1 := by
  unfold parseHeaderLine
  generalize isStripped : (if line.getLast? = some '\r' then line.dropLast else line) = stripped
  have fromLine : ∀ c ∈ stripped, c ∈ line := by
    intro c member
    rw [← isStripped] at member
    split at member
    · exact (List.dropLast_sublist line).subset member
    · exact member
  dsimp only
  split
  · exact headed
  · rename_i colonPos _
    have quoted {key found : Text} (isFound : quotedParameter key
        (trim (stripped.drop (colonPos + 1))) = some found) : '\n' ∉ found := fun member =>
      oneLine (fromLine _ (List.mem_of_mem_drop
        (mem_of_mem_trim (mem_of_quotedParameter isFound member))))
    split
    · cases named : quotedParameter "name=\"".toList (trim (stripped.drop (colonPos + 1))) <;>
        cases filed : quotedParameter "filename=\"".toList (trim (stripped.drop (colonPos + 1)))
      case none.none => exact { headed with content := headed.content }
      case none.some => exact { headed with filenameLine := quoted filed }
      case some.none => exact { headed with nameLine := quoted named }
      case some.some => exact ⟨headed.content, quoted named, quoted filed⟩
    · exact { headed with content := headed.content }

theorem parseHeaderData_headed (current data : Text) :
    Headed (parseHeaderData current data).1 := by
  have fold {lines : List Text} (oneLines : ∀ line ∈ lines, '\n' ∉ line)
      {found : MultipartField × Text} (headed : Headed found.1) :
      Headed (lines.foldl (fun found line => parseHeaderLine found.1 found.2 line) found).1 := by
    induction lines generalizing found with
    | nil => exact headed
    | cons line lines inductionHypothesis =>
        refine inductionHypothesis (fun line isIn => oneLines line (List.mem_cons_of_mem _ isIn)) ?_
        exact parseHeaderLine_headed headed (oneLines line List.mem_cons_self) found.2
  exact fold (fun line => oneLine_of_mem_getLines) ⟨rfl, List.not_mem_nil, List.not_mem_nil⟩

/-- The current field and the fields of the result are made of header lines. -/
structure AllHeaded (parser : StreamParser) : Prop where
  current : ∀ field ∈ parser.currentField, Headed field
  result : ∀ field ∈ parser.result, Headed field

theorem AllHeaded.write (headed : AllHeaded parser) (size : Nat) :
    AllHeaded (parser.writeContentData size) := by
  by_cases isCurrent : parser.currentField = none
  · simpa [writeContentData, isCurrent] using headed
  · obtain ⟨calls, written⟩ := writeContentData_eq isCurrent size
    rw [written]
    exact ⟨headed.current, headed.result⟩

theorem AllHeaded.finalize (headed : AllHeaded parser) :
    AllHeaded parser.finalizeCurrentField := by
  have grown (calls : List CallbackCall) (field : MultipartField) (isHeaded : Headed field) :
      AllHeaded { parser with
        result := parser.result ++ [field], currentField := none, calls := calls } := by
    refine ⟨nofun, fun other isIn => ?_⟩
    rcases List.mem_append.mp isIn with old | new
    · exact headed.result other old
    · rwa [List.mem_singleton.mp new]
  have current := headed.current
  unfold finalizeCurrentField
  cases isCurrent : parser.currentField with
  | none =>
      dsimp only
      split <;> exact ⟨headed.current, headed.result⟩
  | some field =>
      dsimp only
      split <;> exact grown _ field (current field isCurrent)

theorem AllHeaded.content (headed : AllHeaded parser) : AllHeaded parser.processContent.1 := by
  unfold processContent
  split
  · split
    · have written := headed.write (parser.buffer.length - parser.fullBoundary.length - 10)
      exact ⟨written.current, written.result⟩
    · exact headed
  · rename_i boundaryPos _
    dsimp only
    have final (parser : StreamParser) (headed : AllHeaded parser) (buffer : Text) :=
      AllHeaded.finalize (⟨headed.current, headed.result⟩ :
        AllHeaded { parser with buffer := buffer })
    split
    · have finished := final _ (headed.write (contentEnd parser.buffer boundaryPos))
        (Text.erase parser.buffer 0 boundaryPos)
      exact ⟨finished.current, finished.result⟩
    · have finished := final _ headed (Text.erase parser.buffer 0 boundaryPos)
      exact ⟨finished.current, finished.result⟩

theorem AllHeaded.turn (headed : AllHeaded parser) : AllHeaded parser.turn.1 := by
  have ⟨current, result⟩ := headed
  rw [StreamParser.turn]
  split
  · rw [processBoundary]
    split
    · split <;> exact ⟨current, result⟩
    · dsimp only
      split <;> exact ⟨current, result⟩
  · rw [processHeaders]
    split
    · exact headed
    · refine ⟨fun field isCurrent => ?_, result⟩
      cases isCurrent
      exact parseHeaderData_headed _ _
  · exact headed.content
  · exact headed
  · exact headed

/-- No field of a result has its content, or a name of more than one line. -/
theorem feedData_headed (boundary : Text) (config : MultipartConfig)
    (hasProgressCallback hasErrorCallback : Bool) (data : Text) :
    ∀ field ∈ ((new boundary config hasProgressCallback hasErrorCallback).feedData data).result,
      Headed field := by
  have start : AllHeaded (machine.receive
      (new boundary config hasProgressCallback hasErrorCallback) data) := ⟨nofun, nofun⟩
  have drains := machine.drains_always []
    (machine.receive (new boundary config hasProgressCallback hasErrorCallback) data)
  have turns {state next : StreamParser} {goes : Bool}
      (headed : AllHeaded state) (_ : machine.idle state = false) (_ : True)
      (turned : machine.turn state = (next, goes)) : AllHeaded next := by
    have isNext : state.turn.1 = next := congrArg Prod.fst turned
    exact isNext ▸ headed.turn
  exact (drains.invariant turns start).result

/-! ## Encoding and decoding -/

/-- A value under which all headers of a name agree is the one found. -/
theorem lookup_addHeaders {headers : List PartHeader} {field : MultipartField} {key value : Text}
    (given : (∃ header ∈ headers, MultipartField.toLower header.name = key) ∨
      field.headers.lookup key = some value)
    (agree : ∀ header ∈ headers, MultipartField.toLower header.name = key →
      header.value = value) :
    (headers.foldl (fun field header => field.addHeader header.name header.value)
      field).headers.lookup key = some value := by
  induction headers generalizing field with
  | nil => exact given.resolve_left nofun
  | cons header headers inductionHypothesis =>
      rw [List.foldl_cons]
      refine inductionHypothesis ?_ fun other isIn => agree other (List.mem_cons_of_mem _ isIn)
      by_cases here : MultipartField.toLower header.name = key
      · have isValue := agree header List.mem_cons_self here
        rw [MultipartField.addHeader, here, isValue]
        exact .inr (AList.lookup_insert field.headers)
      · rcases given with ⟨other, isIn, isKey⟩ | given
        · rcases List.mem_cons.mp isIn with rfl | isIn
          · exact absurd isKey here
          · exact .inl ⟨other, isIn, isKey⟩
        · rw [MultipartField.addHeader]
          exact .inr ((AList.lookup_insert_ne (Ne.symm here)).trans given)

theorem mem_addHeaders {headers : List PartHeader} {field : MultipartField} {key : Text}
    (member : key ∈ (headers.foldl (fun field header => field.addHeader header.name header.value)
      field).headers) :
    (∃ header ∈ headers, MultipartField.toLower header.name = key) ∨ key ∈ field.headers := by
  induction headers generalizing field with
  | nil => exact .inr member
  | cons header headers inductionHypothesis =>
      rw [List.foldl_cons] at member
      rcases inductionHypothesis member with ⟨other, isIn, isKey⟩ | before
      · exact .inl ⟨other, List.mem_cons_of_mem _ isIn, isKey⟩
      · rw [MultipartField.addHeader] at before
        rcases AList.mem_insert _ |>.mp before with isKey | before
        · exact .inl ⟨header, List.mem_cons_self, isKey.symm⟩
        · exact .inr before

theorem addHeaders_fields (headers : List PartHeader) (field : MultipartField) :
    let added := headers.foldl (fun field header => field.addHeader header.name header.value) field
    added.name = field.name ∧ added.filename = field.filename ∧ added.content = field.content := by
  induction headers generalizing field with
  | nil => exact ⟨rfl, rfl, rfl⟩
  | cons header headers inductionHypothesis => exact inductionHypothesis _

/-- The field made of a part is the part if the part says so. -/
theorem recovered_decodedField_iff {part : Part} (plain : Plain part) :
    part.Recovered (decodedField part) ↔ part.Decodable := by
  obtain ⟨sameName, sameFilename, sameContent⟩ :=
    addHeaders_fields part.headers (namedField part)
  constructor
  · intro recovered
    refine
      { content := plain.empty
        nameLine := plain.nameLine
        filenameLine := plain.filenameLine
        filename := fun isSuffix filename isFilename => ?_
        headers := fun header isIn other isOther same => ?_ }
    · have found : foundFilename part = part.filename.getD [] :=
        sameFilename.symm.trans recovered.filename
      unfold foundFilename at found
      rw [isFilename] at found
      dsimp only at found
      rw [if_pos isSuffix] at found
      exact found.symm
    · have first := recovered.headers header isIn
      rw [same, recovered.headers other isOther] at first
      exact (Option.some.inj first).symm
  · intro decodable
    refine
      { name := sameName
        filename := sameFilename.trans ?_
        headers := fun header isIn => ?_
        noOthers := fun key isKey => ?_
        content := sameContent.trans plain.empty.symm }
    · change foundFilename part = _
      unfold foundFilename
      cases isFilename : part.filename with
      | none => rfl
      | some filename =>
          dsimp only
          split
          · rename_i isSuffix
            exact (decodable.filename isSuffix filename isFilename).symm
          · rfl
    · have agree := decodable.headers header isIn
      refine lookup_addHeaders ?_ fun further isFurther same => ?_
      · rcases List.mem_cons.mp isIn with rfl | isIn
        · exact .inr (AList.lookup_insert _)
        · obtain ⟨further, isFurther, rfl⟩ := List.mem_map.mp isIn
          exact .inl ⟨further, isFurther, rfl⟩
      · refine (agree (further.name, further.value) ?_ same.symm).symm
        exact List.mem_cons_of_mem _ (List.mem_map_of_mem isFurther)
    · rcases mem_addHeaders isKey with ⟨header, isIn, isKey⟩ | isFirst
      · exact ⟨_, List.mem_cons_of_mem _ (List.mem_map_of_mem isIn), isKey⟩
      · refine ⟨_, List.mem_cons_self, ?_⟩
        rcases (AList.mem_insert _).mp isFirst with isKey | nothing
        · exact isKey.symm
        · exact absurd nothing (AList.notMem_empty _)

/-- Every part has its field. -/
theorem exists_field {parts : List Part} {fields : List MultipartField}
    (recovered : List.Forall₂ Part.Recovered parts fields) :
    ∀ part ∈ parts, ∃ field ∈ fields, part.Recovered field := by
  induction recovered with
  | nil => exact nofun
  | cons here _ inductionHypothesis =>
      rw [List.forall_mem_cons]
      refine ⟨⟨_, List.mem_cons_self, here⟩, fun part isIn => ?_⟩
      obtain ⟨field, isField, isPart⟩ := inductionHypothesis part isIn
      exact ⟨field, List.mem_cons_of_mem _ isField, isPart⟩

/-- The single call with an encoding. -/
theorem feedData_encodeAll (boundary : Text) (config : MultipartConfig)
    (hasProgressCallback hasErrorCallback : Bool) {parts : List Part}
    (plain : ∀ part ∈ parts, Plain part) :
    let parser := (new boundary config hasProgressCallback hasErrorCallback).feedData
      (Part.encodeAll boundary parts)
    parser.state = .complete ∧ parser.result = parts.map decodedField :=
  drain_encoding plain rfl rfl rfl

/-- The stream parser gives the parts of an encoding back if and only if none of
them has any content, their names and filenames are single lines, no name ends
like the parameter `filename`, and the headers of a name agree. -/
theorem decode_encode_iff (boundary : Text) (config : MultipartConfig)
    (hasProgressCallback hasErrorCallback : Bool) (parts : List Part) :
    let parser := (new boundary config hasProgressCallback hasErrorCallback).feedData
      (Part.encodeAll boundary parts)
    (parser.state = .complete ∧ List.Forall₂ Part.Recovered parts parser.result) ↔
      ∀ part ∈ parts, part.Decodable := by
  intro parser
  have headed := feedData_headed boundary config hasProgressCallback hasErrorCallback
    (Part.encodeAll boundary parts)
  have decoded := @feedData_encodeAll boundary config hasProgressCallback hasErrorCallback parts
  constructor
  · rintro ⟨-, recovered⟩
    have plain : ∀ part ∈ parts, Plain part := by
      intro part isIn
      obtain ⟨field, isField, isPart⟩ := exists_field recovered part isIn
      obtain ⟨empty, nameLine, filenameLine⟩ := headed field isField
      refine ⟨isPart.content.symm.trans empty, isPart.name ▸ nameLine,
        fun filename isFilename => ?_⟩
      have same := isPart.filename
      rw [isFilename, Option.getD_some] at same
      exact same ▸ filenameLine
    rw [(decoded plain).2, List.forall₂_map_right_iff, List.forall₂_same] at recovered
    exact fun part isIn => (recovered_decodedField_iff (plain part isIn)).mp (recovered part isIn)
  · intro decodable
    have plain : ∀ part ∈ parts, Plain part := fun part isIn =>
      have ofPart := decodable part isIn
      ⟨ofPart.content, ofPart.nameLine, ofPart.filenameLine⟩
    obtain ⟨complete, result⟩ := decoded plain
    refine ⟨complete, ?_⟩
    rw [result, List.forall₂_map_right_iff, List.forall₂_same]
    exact fun part isIn => (recovered_decodedField_iff (plain part isIn)).mpr (decodable part isIn)

/-- The content of a part is not in its field. -/
theorem content_lost :
    ∃ (boundary : Text) (parts : List Part),
      let parser := (new boundary {} false false).feedData (Part.encodeAll boundary parts)
      ¬ (parser.state = .complete ∧ List.Forall₂ Part.Recovered parts parser.result) := by
  let part : Part :=
    { name := "a".toList
      filename := none
      headers := []
      content := "x".toList
      named := by decide
      nameUnquoted := by decide
      filenameUnquoted := nofun }
  refine ⟨"b".toList, [part], fun ⟨_, recovered⟩ => ?_⟩
  obtain ⟨field, isField, isPart⟩ := exists_field recovered part List.mem_cons_self
  have headed := feedData_headed _ _ _ _ _ field isField
  exact List.cons_ne_nil _ _ (isPart.content.symm.trans headed.content)

end StreamParser

end Foxhttp.Parser
