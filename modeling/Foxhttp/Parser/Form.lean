import Mathlib.Data.List.AList
import Mathlib.Data.List.Induction
import Foxhttp.Config.Sections
import Foxhttp.Library.UrlEncoded

/-!
# The form parser

`FormParser::parse` splits a body at the ampersands, and each pair at its first
equals sign. Values of one name are collected in one field, and the name of a
list loses its brackets. What was encoded pair by pair comes back whole.
-/

namespace Foxhttp.Parser

open Foxhttp.Library Foxhttp.Library.UrlEncoded
open Foxhttp.Config (FormConfig)

/-- `FormField`. -/
structure FormField where
  name : Text := []
  values : List Text := []
  isArray : Bool := false

namespace FormField

/-- `FormField::add_value`. -/
def addValue (field : FormField) (value : Text) : FormField :=
  { field with values := field.values ++ [value], isArray := true }

/-- `FormField::set_single_value`. -/
def setSingleValue (field : FormField) (value : Text) : FormField :=
  { field with values := [value], isArray := false }

end FormField

/-- `FormData`. -/
abbrev FormData := AList fun _ : Text => FormField

namespace FormParser

/-- `FormParserImpl::url_decode`. -/
def urlDecode (encoded : Text) : Text :=
  decodeWith extractHex encoded

/-- `FormParserImpl::url_encode`. -/
def urlEncode (decoded : Text) : Text :=
  encode decoded

/-- `FormParserImpl::extract_field_name`. -/
def extractFieldName (pair : Text) : Text :=
  match Text.find pair '=' 0 with
  | some pos => Text.substr pair 0 pos
  | none => pair

/-- `FormParserImpl::extract_field_value`. -/
def extractFieldValue (pair : Text) : Text :=
  match Text.find pair '=' 0 with
  | some pos => pair.drop (pos + 1)
  | none => []

section Config

variable (config : FormConfig)

/-- `FormParserImpl::is_array_field`. -/
def isArrayField (name : Text) : Bool :=
  config.supportArrays && "[]".toList.isSuffixOf name

/-- `FormParserImpl::normalize_field_name`. -/
def normalizeFieldName (name : Text) : Text :=
  if isArrayField config name then Text.substr name 0 (name.length - 2) else name

/-- `FormParserImpl::validate_field_size`. -/
def validateFieldSize (name value : Text) : Bool :=
  name.length ≤ config.maxFieldSize && value.length ≤ config.maxFieldSize

/-- What `parse_pairs` makes of a decoded name and value. -/
def addPair (data : FormData) (name value : Text) : FormData :=
  let normalizedName := normalizeFieldName config name
  let isArray := isArrayField config name
  match data.lookup normalizedName with
  | some field => data.insert normalizedName (field.addValue value)
  | none =>
      let field : FormField := { name := normalizedName }
      data.insert normalizedName
        (if isArray then field.addValue value else field.setSingleValue value)

/-- A turn of the loop of `parse_pairs`. -/
def parsePair (data : FormData) (pair : Text) : Except Text FormData :=
  let name := extractFieldName pair
  let value := extractFieldValue pair
  if validateFieldSize config name value then
    .ok (addPair config data (urlDecode name) (urlDecode value))
  else .error "Field size exceeds maximum allowed size".toList

/-- `FormParserImpl::parse_pairs`. -/
def parsePairs (data : Text) : Except Text FormData :=
  ((Text.getLines '&' data).filter fun pair => !pair.isEmpty).foldlM (parsePair config) ∅

/-- `FormParser::parse`, of the body of the request. -/
def parse (body : Text) : Except Text FormData :=
  if config.maxTotalSize < body.length then
    .error "Request body exceeds maximum total size".toList
  else parsePairs config body

/-! ## What the fields collect -/

/-- The values given for a key, in order. -/
def valuesOf (pairs : List (Text × Text)) (key : Text) : List Text :=
  (pairs.filter fun pair => normalizeFieldName config pair.1 == key).map Prod.snd

/-- The fields hold the pairs: a field for every normalised name, with the
values of the name, and a list where the name came twice or as a list. -/
structure Collects (pairs : List (Text × Text)) (data : FormData) : Prop where
  keys : ∀ key, key ∈ data ↔ ∃ pair ∈ pairs, normalizeFieldName config pair.1 = key
  names : ∀ key field, data.lookup key = some field → field.name = key
  values : ∀ key field, data.lookup key = some field → field.values = valuesOf config pairs key
  arrays : ∀ key field, data.lookup key = some field →
    (field.isArray = true ↔ 1 < (valuesOf config pairs key).length ∨
      config.supportArrays = true ∧ ∃ pair ∈ pairs, normalizeFieldName config pair.1 = key ∧
        "[]".toList <:+ pair.1)

variable {config}

theorem valuesOf_snoc_same {pairs : List (Text × Text)} {pair : Text × Text} {key : Text}
    (isKey : normalizeFieldName config pair.1 = key) :
    valuesOf config (pairs ++ [pair]) key = valuesOf config pairs key ++ [pair.2] := by
  simp [valuesOf, List.filter_append, isKey]

theorem valuesOf_snoc_other {pairs : List (Text × Text)} {pair : Text × Text} {key : Text}
    (other : normalizeFieldName config pair.1 ≠ key) :
    valuesOf config (pairs ++ [pair]) key = valuesOf config pairs key := by
  simp [valuesOf, List.filter_append, other]

theorem isArrayField_iff (name : Text) :
    isArrayField config name = true ↔ config.supportArrays = true ∧ "[]".toList <:+ name := by
  rw [isArrayField, Bool.and_eq_true, List.isSuffixOf_iff_suffix]

/-- A key has values when some pair has the key. -/
theorem valuesOf_pos_iff (pairs : List (Text × Text)) (key : Text) :
    0 < (valuesOf config pairs key).length ↔
      ∃ pair ∈ pairs, normalizeFieldName config pair.1 = key := by
  rw [valuesOf, List.length_map, List.length_pos_iff, ne_eq, List.filter_eq_nil_iff]
  simp

/-- The field a pair is added to: it is a list when its key had values before,
or when the pair is written as one of a list. -/
theorem exists_field_addPair {pairs : List (Text × Text)} {data : FormData}
    (collects : Collects config pairs data) (pair : Text × Text) :
    ∃ field, addPair config data pair.1 pair.2 =
        data.insert (normalizeFieldName config pair.1) field ∧
      field.name = normalizeFieldName config pair.1 ∧
      field.values = valuesOf config pairs (normalizeFieldName config pair.1) ++ [pair.2] ∧
      (field.isArray = true ↔
        0 < (valuesOf config pairs (normalizeFieldName config pair.1)).length ∨
          isArrayField config pair.1 = true) := by
  generalize isKey : normalizeFieldName config pair.1 = key
  rw [addPair, isKey]
  dsimp only
  cases held : data.lookup key with
  | some field =>
      refine ⟨field.addValue pair.2, rfl, collects.names key field held, ?_, ?_⟩
      · rw [FormField.addValue, collects.values key field held]
      · have before : key ∈ data := AList.lookup_isSome.mp (by rw [held]; rfl)
        have valued := (valuesOf_pos_iff pairs key).mpr ((collects.keys key).mp before)
        simp [FormField.addValue, valued]
  | none =>
      have fresh : ¬ 0 < (valuesOf config pairs key).length := by
        rw [valuesOf_pos_iff, ← collects.keys]
        exact AList.lookup_eq_none.mp held
      have noValues : valuesOf config pairs key = [] :=
        List.length_eq_zero_iff.mp (Nat.eq_zero_of_not_pos fresh)
      refine ⟨_, rfl, ?_, ?_, ?_⟩
      · split <;> rfl
      · rw [noValues]
        split <;> rfl
      · rw [noValues]
        split
        · simp [FormField.addValue, *]
        · simp [FormField.setSingleValue, *]

/-- A new pair joins the values of its key and no others. -/
theorem Collects.snoc {pairs : List (Text × Text)} {data : FormData}
    (collects : Collects config pairs data) (pair : Text × Text) :
    Collects config (pairs ++ [pair]) (addPair config data pair.1 pair.2) := by
  obtain ⟨field, stored, named, collected, isList⟩ := exists_field_addPair collects pair
  rw [stored]
  have held : ∀ key other, (data.insert (normalizeFieldName config pair.1) field).lookup key =
      some other → key = normalizeFieldName config pair.1 ∧ other = field ∨
        normalizeFieldName config pair.1 ≠ key ∧ data.lookup key = some other := by
    intro key other found
    by_cases isKey : key = normalizeFieldName config pair.1
    · subst isKey
      rw [AList.lookup_insert] at found
      exact .inl ⟨rfl, (Option.some.inj found).symm⟩
    · rw [AList.lookup_insert_ne isKey] at found
      exact .inr ⟨Ne.symm isKey, found⟩
  refine ⟨fun key => ?_, fun key other found => ?_, fun key other found => ?_,
    fun key other found => ?_⟩
  · rw [AList.mem_insert, collects.keys]
    simp [or_comm, eq_comm, or_and_right, exists_or]
  · rcases held key other found with ⟨rfl, rfl⟩ | ⟨-, earlier⟩
    · exact named
    · exact collects.names key other earlier
  · rcases held key other found with ⟨rfl, rfl⟩ | ⟨different, earlier⟩
    · rw [collected, valuesOf_snoc_same rfl]
    · rw [collects.values key other earlier, valuesOf_snoc_other different]
  · rcases held key other found with ⟨rfl, rfl⟩ | ⟨different, earlier⟩
    · rw [isList, valuesOf_snoc_same rfl, List.length_append, List.length_singleton,
        Nat.lt_add_left_iff_pos, isArrayField_iff]
      constructor
      · rintro (before | ⟨supported, suffix⟩)
        · exact .inl before
        · exact .inr ⟨supported, pair, by simp, rfl, suffix⟩
      · rintro (before | ⟨supported, source, isSource, isKey, suffix⟩)
        · exact .inl before
        · rcases List.mem_append.mp isSource with earlier | here
          · exact .inl ((valuesOf_pos_iff pairs _).mpr ⟨source, earlier, isKey⟩)
          · obtain rfl := List.mem_singleton.mp here
            exact .inr ⟨supported, suffix⟩
    · rw [collects.arrays key other earlier, valuesOf_snoc_other different]
      simp [or_and_right, exists_or, different]

theorem collects_foldl (pairs : List (Text × Text)) :
    Collects config pairs
      (pairs.foldl (fun data pair => FormParser.addPair config data pair.1 pair.2) ∅) := by
  induction pairs using List.reverseRecOn with
  | nil =>
      refine ⟨fun key => by simp, fun key field found => ?_, fun key field found => ?_,
        fun key field found => ?_⟩ <;> cases found
  | append_singleton pairs pair inductionHypothesis =>
      rw [List.foldl_concat]
      exact inductionHypothesis.snoc pair

/-! ## Parsing what was encoded -/

/-- A turn of the loop takes an encoded pair apart. -/
theorem parsePair_encodePair {pair : Text × Text} (bytes : BytePair pair)
    (nameFits : (urlEncode pair.1).length ≤ config.maxFieldSize)
    (valueFits : (urlEncode pair.2).length ≤ config.maxFieldSize) (data : FormData) :
    parsePair config data (encodePair pair) = .ok (addPair config data pair.1 pair.2) := by
  have isName : extractFieldName (encodePair pair) = urlEncode pair.1 := by
    rw [extractFieldName, find_encodePair bytes]
    exact List.take_left
  have isValue : extractFieldValue (encodePair pair) = urlEncode pair.2 := by
    rw [extractFieldValue, find_encodePair bytes]
    simp [encodePair, urlEncode, List.drop_append]
  have fits : validateFieldSize config (urlEncode pair.1) (urlEncode pair.2) = true := by
    simp [validateFieldSize, nameFits, valueFits]
  have nameBack : urlDecode (urlEncode pair.1) = pair.1 :=
    decodeWith_encode readsDigits_extractHex bytes.1
  have valueBack : urlDecode (urlEncode pair.2) = pair.2 :=
    decodeWith_encode readsDigits_extractHex bytes.2
  simp only [parsePair, isName, isValue, fits, if_true, nameBack, valueBack]

/-- The body of encoded pairs within the limits parses to fields which hold
the pairs. -/
theorem parse_encodePairs (pairs : List (Text × Text)) (bytes : ∀ pair ∈ pairs, BytePair pair)
    (bodyFits : (encodePairs pairs).length ≤ config.maxTotalSize)
    (pairsFit : ∀ pair ∈ pairs, (urlEncode pair.1).length ≤ config.maxFieldSize ∧
      (urlEncode pair.2).length ≤ config.maxFieldSize) :
    ∃ data, parse config (encodePairs pairs) = .ok data ∧ Collects config pairs data := by
  refine ⟨_, ?_, collects_foldl pairs⟩
  rw [parse, if_neg (Nat.not_lt.mpr bodyFits), parsePairs, filled_encodePairs bytes]
  clear bodyFits
  generalize (∅ : FormData) = data
  induction pairs generalizing data with
  | nil => rfl
  | cons pair pairs inductionHypothesis =>
      obtain ⟨pairBytes, laterBytes⟩ := List.forall_mem_cons.mp bytes
      obtain ⟨⟨nameFits, valueFits⟩, laterFit⟩ := List.forall_mem_cons.mp pairsFit
      rw [List.map_cons, List.foldlM_cons, parsePair_encodePair pairBytes nameFits valueFits]
      exact inductionHypothesis laterBytes laterFit _

/-- One name as a list and alone, and an empty name. -/
theorem parse_mixed_names :
    ∃ data, parse {} (encodePairs
        [("a[]".toList, "1&2".toList), ("a".toList, "x=y".toList), ([], [])]) = .ok data ∧
      Collects {} [("a[]".toList, "1&2".toList), ("a".toList, "x=y".toList), ([], [])] data :=
  parse_encodePairs _ (by simp [BytePair]) (by decide) (by decide)

end Config

end FormParser

end Foxhttp.Parser
