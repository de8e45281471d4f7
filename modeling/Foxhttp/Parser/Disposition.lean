import Foxhttp.Parser.HeaderFraming

/-!
# The parameters of a Content-Disposition

Name and filename are looked for as text: the first quote behind `name=` or
`filename=` starts the value. The key may be the end of another attribute, as it
is of `filename`, and it may be the end of a value, where the closing quote is
taken for an opening one.
-/

namespace Foxhttp.Parser

open Foxhttp.Library
open StreamParser (quotedParameter quotedParameter_quote applyHeader parseHeaderLine IsLine)

/-- What may stand between parameters. -/
def isSeparator (c : Char) : Bool :=
  c == ';' || c == ' ' || c == '\t'

/-- A quoted parameter behind a separator. -/
structure Parameter where
  separator : Text
  attr : Text
  value : Text
  separated : separator ≠ [] ∧ ∀ c ∈ separator, isSeparator c = true
  token : ∀ c ∈ attr, c ∉ "\"=; \t\r\n".toList
  unquoted : ∀ c ∈ value, c ∉ "\"\r\n".toList

namespace Parameter

/-- What stands in front of the value. -/
def opening (parameter : Parameter) : Text :=
  parameter.separator ++ parameter.attr ++ ['=']

/-- The text of a parameter. -/
def render (parameter : Parameter) : Text :=
  parameter.opening ++ '"' :: (parameter.value ++ ['"'])

theorem quote_not_mem_opening (parameter : Parameter) : '"' ∉ parameter.opening := by
  intro member
  rw [opening, List.mem_append, List.mem_append] at member
  rcases member with (inSeparator | inAttribute) | isSign
  · exact absurd (parameter.separated.2 _ inSeparator) (by decide)
  · exact parameter.token _ inAttribute (by decide)
  · exact absurd isSign (by decide)

theorem quote_not_mem_value (parameter : Parameter) : '"' ∉ parameter.value :=
  fun member => parameter.unquoted _ member (by decide)

theorem lineEnd_not_mem_render (parameter : Parameter) :
    ∀ c ∈ parameter.render, c ∉ "\r\n".toList := by
  intro c member isEnd
  simp only [render, opening, List.mem_append, List.mem_cons, List.not_mem_nil, or_false] at member
  rcases member with ((inSeparator | inAttr) | isSign) | isQuote | inValue | isQuote
  · have separates := parameter.separated.2 c inSeparator
    rcases List.mem_pair.mp isEnd with rfl | rfl
    · exact absurd separates (by decide)
    · exact absurd separates (by decide)
  · exact parameter.token c inAttr (List.mem_append_right "\"=; \t".toList isEnd)
  · subst isSign
    exact absurd isEnd (by decide)
  · subst isQuote
    exact absurd isEnd (by decide)
  · exact parameter.unquoted c inValue (List.mem_append_right "\"".toList isEnd)
  · subst isQuote
    exact absurd isEnd (by decide)

end Parameter

/-- The value which is read for a key is the wanted one: in the first parameter
whose attribute ends in the key it is the value of that parameter, and in the
first whose value ends in the key and an equals sign, what stands in front of the
next value. -/
def Leads (key wanted : Text) : List Parameter → Prop
  | [] => wanted = []
  | parameter :: rest =>
      if key <:+ parameter.attr then parameter.value = wanted
      else if key ++ ['='] <:+ parameter.value then
        (rest.head?.map Parameter.opening).getD [] = wanted
      else Leads key wanted rest

/-- A key without separators ends in an attribute when it ends in what precedes a
value. -/
theorem suffix_opening_iff {key : Text} (whole : ∀ c ∈ key, isSeparator c = false) (front : Text)
    (parameter : Parameter) :
    key ++ ['='] <:+ front ++ parameter.opening ↔ key <:+ parameter.attr := by
  obtain ⟨filled, separators⟩ := parameter.separated
  rw [Parameter.opening, ← List.append_assoc, List.suffix_append_self_iff, ← List.append_assoc]
  constructor
  · intro isSuffix
    rw [← List.reverse_prefix, List.reverse_append] at isSuffix
    rw [← List.reverse_prefix]
    refine Text.prefix_of_boundary isSuffix fun c isHead member => ?_
    rw [List.head?_reverse, List.getLast?_append_of_ne_nil _ filled] at isHead
    have separates := separators c (List.mem_of_getLast? isHead)
    rw [whole c (List.mem_reverse.mp member)] at separates
    cases separates
  · exact List.suffix_append_of_suffix

/-- What is read for a key. -/
theorem quotedParameter_leads {key : Text} (whole : ∀ c ∈ key, isSeparator c = false)
    (keyUnquoted : '"' ∉ key) {front : Text} (unquoted : '"' ∉ front)
    (parameters : List Parameter) (wanted : Text) :
    (quotedParameter (key ++ ['='] ++ ['"'])
        (front ++ parameters.flatMap Parameter.render)).getD [] = wanted ↔
      Leads key wanted parameters := by
  have signUnquoted : '"' ∉ key ++ ['='] := by simp [keyUnquoted]
  induction parameters generalizing front with
  | nil =>
      have absent : Text.findText front (key ++ ['='] ++ ['"']) 0 = none := by
        refine Text.findText_eq_none_iff.mpr fun occurs => unquoted ?_
        exact List.mem_of_mem_drop (occurs.subset (List.mem_append_right _ List.mem_cons_self))
      rw [List.flatMap_nil, List.append_nil, quotedParameter, absent, Leads]
      exact eq_comm
  | cons parameter rest inductionHypothesis =>
      have openingUnquoted : '"' ∉ front ++ parameter.opening := fun member =>
        (List.mem_append.mp member).elim unquoted parameter.quote_not_mem_opening
      have text : front ++ (parameter :: rest).flatMap Parameter.render =
          (front ++ parameter.opening) ++
            '"' :: (parameter.value ++ '"' :: rest.flatMap Parameter.render) := by
        simp [Parameter.render]
      rw [text, quotedParameter_quote openingUnquoted signUnquoted, Leads]
      simp only [suffix_opening_iff whole]
      split
      · rw [StreamParser.find_quote parameter.quote_not_mem_value, Option.getD_some]
      · rw [quotedParameter_quote parameter.quote_not_mem_value signUnquoted]
        split
        · cases rest with
          | nil => rfl
          | cons next later =>
              have after : (next :: later).flatMap Parameter.render =
                  next.opening ++ '"' :: (next.value ++ '"' :: later.flatMap Parameter.render) := by
                simp [Parameter.render]
              rw [after, StreamParser.find_quote next.quote_not_mem_opening]
              rfl
        · exact inductionHypothesis List.not_mem_nil

/-! ## Parts -/

/-- The key of the header which names a field. -/
def dispositionKey : Text :=
  "content-disposition".toList

/-- The headers of a part: one `Content-Disposition`, its name in any case and its
value made of parameters, among others. -/
structure FormHeaders where
  front : List RawHeader
  headerName : Text
  parameters : List Parameter
  back : List RawHeader
  spelled : MultipartField.toLower headerName = dispositionKey
  named : ∃ parameter ∈ parameters, parameter.attr = "name".toList
  others : ∀ header ∈ front ++ back, header.key ≠ dispositionKey

namespace FormHeaders

/-- The value of the `Content-Disposition`. -/
def disposition (headers : FormHeaders) : Text :=
  "form-data".toList ++ headers.parameters.flatMap Parameter.render

/-- The value of a parameter, empty when there is none. -/
def valueOf (headers : FormHeaders) (attr : Text) : Text :=
  ((headers.parameters.find? fun parameter => parameter.attr == attr).map
    Parameter.value).getD []

/-- The characters of the name of the header are those of its key, in any case. -/
theorem not_mem_headerName (headers : FormHeaders) {c : Char}
    (absent : c.toLower ∉ dispositionKey) : c ∉ headers.headerName := by
  intro member
  have lowered : c.toLower ∈ MultipartField.toLower headers.headerName :=
    List.mem_map.mpr ⟨c, member, rfl⟩
  rw [headers.spelled] at lowered
  exact absent lowered

theorem lineEnd_not_mem_disposition (headers : FormHeaders) :
    ∀ c ∈ headers.disposition, c ∉ "\r\n".toList := by
  intro c member
  unfold disposition at member
  rw [List.mem_append, List.mem_flatMap] at member
  rcases member with inType | ⟨parameter, -, inParameter⟩
  · intro isEnd
    rcases List.mem_pair.mp isEnd with rfl | rfl
    · exact absurd inType (by decide)
    · exact absurd inType (by decide)
  · exact parameter.lineEnd_not_mem_render c inParameter

/-- The `Content-Disposition` as a header. -/
def header (headers : FormHeaders) : RawHeader where
  name := headers.headerName
  value := headers.disposition
  named := by
    rintro empty
    have spelled := headers.spelled
    rw [empty] at spelled
    cases spelled
  noColon := headers.not_mem_headerName (by decide)
  nameLine := ⟨headers.not_mem_headerName (by decide), headers.not_mem_headerName (by decide)⟩
  valueLine := ⟨fun member => headers.lineEnd_not_mem_disposition _ member (by decide),
    fun member => headers.lineEnd_not_mem_disposition _ member (by decide)⟩

/-- All headers, in order. -/
def all (headers : FormHeaders) : List RawHeader :=
  headers.front ++ headers.header :: headers.back

theorem trim_headerName (headers : FormHeaders) :
    StreamParser.trim headers.headerName = headers.headerName := by
  have noBlank : ∀ c ∈ headers.headerName, c ≠ ' ' ∧ c ≠ '\t' := by
    intro c member
    constructor
    · rintro rfl
      exact headers.not_mem_headerName (by decide) member
    · rintro rfl
      exact headers.not_mem_headerName (by decide) member
  exact StreamParser.trim_eq_self
    (fun c isHead => noBlank c (List.mem_of_mem_head? isHead))
    (fun c isLast => noBlank c (List.mem_of_mem_getLast? isLast))

/-- The value starts with its type and ends with a quote. -/
theorem trim_disposition (headers : FormHeaders) :
    StreamParser.trim headers.disposition = headers.disposition := by
  refine StreamParser.trim_eq_self (fun c isHead => ?_) fun c isLast => ?_
  · have first : headers.disposition.head? = some 'f' := rfl
    rw [first] at isHead
    cases isHead
    decide
  · have last : headers.disposition.getLast? = some '"' ∨
        headers.disposition.getLast? = some 'a' := by
      unfold disposition
      rcases List.eq_nil_or_concat' headers.parameters with none | ⟨front, parameter, split⟩
      · rw [none]
        exact .inr (by decide)
      · refine .inl ?_
        rw [split, List.flatMap_append, List.flatMap_singleton, Parameter.render]
        simp only [← List.append_assoc, ← List.cons_append]
        exact List.getLast?_concat
    rcases last with isQuote | isLetter
    · rw [isQuote] at isLast
      cases isLast
      decide
    · rw [isLetter] at isLast
      cases isLast
      decide

theorem header_key (headers : FormHeaders) : headers.header.key = dispositionKey := by
  rw [RawHeader.key, header, trim_headerName, headers.spelled]

theorem all_ne_nil (headers : FormHeaders) : headers.all ≠ [] := by
  simp [all]

/-- The headers as they stand in front of a content. -/
def text (headers : FormHeaders) (content : Text) : Text :=
  framed "\r\n".toList headers.all.dropLast (headers.all.getLast headers.all_ne_nil) content

/-! ## What both parsers read -/

theorem readFront_concat (current : Text) (front : List RawHeader) (last : RawHeader) :
    readFront current (front ++ [last]) = readAll current front last := by
  rw [readFront, List.map_append, List.map_singleton, List.foldl_concat]
  exact last.parse_line _

/-- Headers of other names leave name and filename. -/
theorem fold_others {others : List RawHeader}
    (otherKeys : ∀ header ∈ others, header.key ≠ dispositionKey) (found : MultipartField × Text) :
    ((others.map RawHeader.line).foldl (fun found line => parseHeaderLine found.1 found.2 line)
        found).1.name = found.1.name ∧
      ((others.map RawHeader.line).foldl (fun found line => parseHeaderLine found.1 found.2 line)
        found).1.filename = found.1.filename := by
  induction others generalizing found with
  | nil => exact ⟨rfl, rfl⟩
  | cons header others inductionHypothesis =>
      obtain ⟨otherKey, later⟩ := List.forall_mem_cons.mp otherKeys
      have otherName : StreamParser.trim header.name ≠ "Content-Disposition".toList := by
        intro isName
        refine otherKey ?_
        rw [RawHeader.key, isName]
        decide
      have rest := inductionHypothesis later
      rw [List.map_cons, List.foldl_cons, header.parse_line, applyHeader, if_neg otherName]
      exact rest _

/-- The stream parser reads the parameters when the name of the header is spelled
as it expects, and leaves name and filename empty otherwise. -/
theorem processedHeaders_text (headers : FormHeaders) (content : Text) (parser : StreamParser) :
    ∃ field, processedHeaders parser (headers.text content) = some (field, content) ∧
      field.name = (if headers.headerName = "Content-Disposition".toList then
        (quotedParameter "name=\"".toList headers.disposition).getD [] else []) ∧
      field.filename = (if headers.headerName = "Content-Disposition".toList then
        (quotedParameter "filename=\"".toList headers.disposition).getD [] else []) := by
  obtain ⟨otherFront, otherBack⟩ := List.forall_mem_append.mp headers.others
  refine ⟨_, processedHeaders_returns parser, ?_⟩
  rw [← readFront_concat, List.dropLast_append_getLast, readFront, all, List.map_append,
    List.map_cons, List.foldl_append, List.foldl_cons]
  obtain ⟨backName, backFilename⟩ := fold_others otherBack (parseHeaderLine
    (readFront parser.currentFieldName headers.front).1
    (readFront parser.currentFieldName headers.front).2 headers.header.line)
  obtain ⟨frontName, frontFilename⟩ := fold_others otherFront ({}, parser.currentFieldName)
  refine ⟨backName.trans ?_, backFilename.trans ?_⟩
  · rw [headers.header.parse_line, header, trim_headerName, trim_disposition, applyHeader]
    split
    · exact congrArg (Option.getD _) frontName
    · exact frontName
  · rw [headers.header.parse_line, header, trim_headerName, trim_disposition, applyHeader]
    split
    · exact congrArg (Option.getD _) frontFilename
    · exact frontFilename

theorem lookup_all (headers : FormHeaders) :
    (entriesMap (headers.all.map RawHeader.entry)).lookup dispositionKey =
      some headers.disposition := by
  have absent : ((headers.back.map RawHeader.entry).reverse).lookup dispositionKey = none := by
    refine List.lookup_eq_none_iff.mpr fun entry member => ?_
    obtain ⟨header, isOther, rfl⟩ := List.mem_map.mp (List.mem_reverse.mp member)
    exact bne_iff_ne.mpr (headers.others header (List.mem_append_right _ isOther)).symm
  have held : headers.header.entry = (dispositionKey, headers.disposition) :=
    Prod.ext headers.header_key headers.trim_disposition
  rw [entriesMap, lookup_foldl_insert, AList.lookup_empty, Option.or_none, all, List.map_append,
    List.map_cons, List.reverse_append, List.reverse_cons, List.append_assoc, List.lookup_append,
    absent, held, List.singleton_append, List.lookup_cons_self]
  rfl

/-- The other parser reads them however the name is spelled. -/
theorem parseField_text (headers : FormHeaders) (content : Text) :
    ∃ field, MultipartParser.parseField (headers.text content) = some field ∧
      field.name = (quotedParameter "name=\"".toList headers.disposition).getD [] ∧
      field.filename = (quotedParameter "filename=\"".toList headers.disposition).getD [] := by
  have collected : MultipartParser.parseHeaders (block "\r\n".toList
      (headers.all.dropLast.map RawHeader.line) (headers.all.getLast headers.all_ne_nil).line) =
        entriesMap (headers.all.map RawHeader.entry) := by
    rw [parseHeaders_returns]
    conv_rhs => rw [← List.dropLast_append_getLast headers.all_ne_nil]
    rw [entriesMap, entriesMap, List.map_append, List.map_singleton, List.foldl_concat]
  have found : (entriesMap (headers.all.map RawHeader.entry)).lookup
      "content-disposition".toList = some headers.disposition := headers.lookup_all
  refine ⟨_, parseField_returns, ?_⟩
  rw [collected]
  unfold MultipartParser.fieldOf
  dsimp only
  rw [found]
  exact ⟨rfl, rfl⟩

/-- Both parsers read name and filename as the values of these parameters. -/
def ReadByParameter (headers : FormHeaders) (content : Text) : Prop :=
  (∀ parser, ∃ field, processedHeaders parser (headers.text content) = some (field, content) ∧
    field.name = headers.valueOf "name".toList ∧
    field.filename = headers.valueOf "filename".toList) ∧
  ∃ field, MultipartParser.parseField (headers.text content) = some field ∧
    field.name = headers.valueOf "name".toList ∧
    field.filename = headers.valueOf "filename".toList

theorem readName_iff (headers : FormHeaders) (wanted : Text) :
    (quotedParameter "name=\"".toList headers.disposition).getD [] = wanted ↔
      Leads "name".toList wanted headers.parameters := by
  have key : "name=\"".toList = "name".toList ++ ['='] ++ ['"'] := by decide
  rw [key]
  exact quotedParameter_leads (by simp [isSeparator]) (by decide) (by decide) headers.parameters
    wanted

theorem readFilename_iff (headers : FormHeaders) (wanted : Text) :
    (quotedParameter "filename=\"".toList headers.disposition).getD [] = wanted ↔
      Leads "filename".toList wanted headers.parameters := by
  have key : "filename=\"".toList = "filename".toList ++ ['='] ++ ['"'] := by decide
  rw [key]
  exact quotedParameter_leads (by simp [isSeparator]) (by decide) (by decide) headers.parameters
    wanted

/-- **Name and filename are read by parameter** exactly when each key leads to its
parameter, and the name of the header is spelled with capitals or both values are
empty. -/
theorem readByParameter_iff (headers : FormHeaders) (content : Text) :
    headers.ReadByParameter content ↔
      Leads "name".toList (headers.valueOf "name".toList) headers.parameters ∧
        Leads "filename".toList (headers.valueOf "filename".toList) headers.parameters ∧
        (headers.headerName = "Content-Disposition".toList ∨
          headers.valueOf "name".toList = [] ∧ headers.valueOf "filename".toList = []) := by
  rw [← readName_iff, ← readFilename_iff]
  constructor
  · rintro ⟨processed, field, parsed, isName, isFilename⟩
    obtain ⟨other, isOther, name, filename⟩ := headers.parseField_text content
    obtain rfl := Option.some.inj (parsed.symm.trans isOther)
    refine ⟨name.symm.trans isName, filename.symm.trans isFilename, ?_⟩
    obtain ⟨field, isField, isName, isFilename⟩ := processed (.new [] {} false false)
    obtain ⟨other, isOther, name, filename⟩ :=
      headers.processedHeaders_text content (.new [] {} false false)
    obtain ⟨rfl, -⟩ := Prod.mk.inj (Option.some.inj (isField.symm.trans isOther))
    by_cases spelled : headers.headerName = "Content-Disposition".toList
    · exact .inl spelled
    · rw [if_neg spelled] at name filename
      exact .inr ⟨isName.symm.trans name, isFilename.symm.trans filename⟩
  · rintro ⟨isName, isFilename, spelledOrEmpty⟩
    constructor
    · intro parser
      obtain ⟨field, isField, name, filename⟩ := headers.processedHeaders_text content parser
      refine ⟨field, isField, ?_, ?_⟩
      · rw [name, isName]
        rcases spelledOrEmpty with spelled | ⟨empty, -⟩
        · rw [if_pos spelled]
        · rw [empty, ite_self]
      · rw [filename, isFilename]
        rcases spelledOrEmpty with spelled | ⟨-, empty⟩
        · rw [if_pos spelled]
        · rw [empty, ite_self]
    · obtain ⟨field, isField, name, filename⟩ := headers.parseField_text content
      exact ⟨field, isField, name.trans isName, filename.trans isFilename⟩

end FormHeaders

/-- A filename in front of the name. -/
def filenameFirst : FormHeaders where
  front := []
  headerName := "Content-Disposition".toList
  parameters := [{ separator := "; ".toList, attr := "filename".toList, value := "a".toList,
                   separated := by simp [isSeparator], token := by simp, unquoted := by simp },
                 { separator := "; ".toList, attr := "name".toList, value := "b".toList,
                   separated := by simp [isSeparator], token := by simp, unquoted := by simp }]
  back := []
  spelled := by decide
  named := ⟨_, List.mem_cons_of_mem _ (List.mem_singleton_self _), rfl⟩
  others := List.forall_mem_nil _

/-- The filename is taken for the name. -/
theorem filename_taken_for_name :
    ¬ ∀ headers content, FormHeaders.ReadByParameter headers content := by
  intro always
  obtain ⟨-, field, parsed, isName, -⟩ := always filenameFirst []
  obtain ⟨other, isOther, name, -⟩ := filenameFirst.parseField_text []
  obtain rfl := Option.some.inj (parsed.symm.trans isOther)
  exact absurd (name.symm.trans isName) (by decide)

end Foxhttp.Parser
