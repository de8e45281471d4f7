import Mathlib.Data.List.Dedup
import Mathlib.Algebra.Order.BigOperators.Group.List
import Mathlib.Algebra.Order.Group.Nat
import Mathlib.Algebra.GroupWithZero.Nat
import Foxhttp.Parser.Form

/-!
# Do the limits hold for what was parsed?

`parse` checks the size of the body and of each pair of it before it decodes
them, and `validate_all_fields` checks the fields which the pairs become. Neither
decoding nor collecting makes anything longer, so the sizes hold. The number of
fields and their names are not looked at before.
-/

namespace Foxhttp.Parser.FormParser

open Foxhttp.Library Foxhttp.Library.UrlEncoded
open Foxhttp.Config (FormConfig)

/-- `FormField::validation_error`. -/
def validationError (field : FormField) : Text :=
  if field.name.isEmpty then "Field name is empty".toList else []

/-- `FormField::is_valid`. -/
def isValid (field : FormField) : Bool :=
  !field.name.isEmpty && (validationError field).isEmpty

/-- What a field adds to the total size. -/
def entrySize (name : Text) (field : FormField) : Nat :=
  name.length + (field.values.map List.length).sum

/-- The `total_size` of `validate_total_size`. -/
def totalSize (data : FormData) : Nat :=
  (data.entries.map fun entry => entrySize entry.1 entry.2).sum

section Validators

variable (config : FormConfig)

/-- `FormParserImpl::validate_total_size`. -/
def validateTotalSize (data : FormData) : Bool :=
  totalSize data ≤ config.maxTotalSize

/-- `FormParserImpl::validate_field_count`. -/
def validateFieldCount (data : FormData) : Bool :=
  data.entries.length ≤ config.maxFields

/-- `FormParserImpl::validate_field`. -/
def validateField (field : FormField) : Bool :=
  isValid field && field.values.all fun value => value.length ≤ config.maxFieldSize

/-- `FormParserImpl::validate_all_fields`. -/
def validateAllFields (data : FormData) : List Text :=
  (if validateFieldCount config data then [] else ["Too many fields".toList]) ++
    (if validateTotalSize config data then [] else ["Total data size exceeds limit".toList]) ++
    (data.entries.filter fun entry => !validateField config entry.2).map fun entry =>
      "Field '".toList ++ entry.1 ++ "' validation failed".toList

end Validators

variable {config : FormConfig} {data : FormData} {body : Text}

/-- Nothing is reported within the limits. -/
theorem validateAllFields_eq_nil_iff : validateAllFields config data = [] ↔
    data.entries.length ≤ config.maxFields ∧ totalSize data ≤ config.maxTotalSize ∧
      ∀ entry ∈ data.entries, entry.2.name ≠ [] ∧
        ∀ value ∈ entry.2.values, value.length ≤ config.maxFieldSize := by
  have valid (field : FormField) : validateField config field = true ↔ field.name ≠ [] ∧
      ∀ value ∈ field.values, value.length ≤ config.maxFieldSize := by
    cases isName : field.name with
    | nil => simp [validateField, isValid, isName]
    | cons c name => simp [validateField, isValid, validationError, isName]
  rw [validateAllFields, List.append_eq_nil_iff, List.append_eq_nil_iff, List.map_eq_nil_iff,
    List.filter_eq_nil_iff, and_assoc]
  simp only [Bool.not_eq_true', Bool.not_eq_false, valid]
  simp [validateFieldCount, validateTotalSize]

/-! ## The pairs of a body -/

/-- The pairs of a body which are not empty, as they are written. -/
def writtenPairs (body : Text) : List Text :=
  (Text.getLines '&' body).filter fun pair => !pair.isEmpty

/-- A pair with its name and value decoded. -/
def decodePair (pair : Text) : Text × Text :=
  (urlDecode (extractFieldName pair), urlDecode (extractFieldValue pair))

/-- The names of the fields which a body has pairs for. -/
def fieldNames (config : FormConfig) (body : Text) : List Text :=
  (writtenPairs body).map fun pair =>
    normalizeFieldName config (urlDecode (extractFieldName pair))

/-- The fields of a body collect its pairs, each of which is within the limit. -/
theorem parse_ok (parsed : parse config body = .ok data) :
    body.length ≤ config.maxTotalSize ∧
      (∀ pair ∈ writtenPairs body,
        validateFieldSize config (extractFieldName pair) (extractFieldValue pair) = true) ∧
      data = ((writtenPairs body).map decodePair).foldl
        (fun data pair => addPair config data pair.1 pair.2) ∅ := by
  rw [parse] at parsed
  split at parsed
  · cases parsed
  · rename_i fits
    refine ⟨Nat.not_lt.mp fits, ?_⟩
    rw [parsePairs, ← writtenPairs] at parsed
    generalize writtenPairs body = pairs at parsed ⊢
    generalize (∅ : FormData) = start at parsed ⊢
    induction pairs generalizing start with
    | nil =>
        cases parsed
        exact ⟨List.forall_mem_nil _, rfl⟩
    | cons pair pairs inductionHypothesis =>
        rw [List.foldlM_cons, parsePair] at parsed
        split at parsed
        · rename_i within
          obtain ⟨others, collected⟩ := inductionHypothesis _ parsed
          exact ⟨List.forall_mem_cons.mpr ⟨within, others⟩, collected⟩
        · cases parsed

theorem length_name_value_le (pair : Text) :
    (extractFieldName pair).length + (extractFieldValue pair).length ≤ pair.length := by
  rw [extractFieldName, extractFieldValue]
  cases Text.find pair '=' 0 with
  | none => simp
  | some pos =>
      simp only [Text.substr, List.drop_zero, List.length_take, List.length_drop]
      omega

theorem length_decodePair_le (pair : Text) :
    (decodePair pair).1.length + (decodePair pair).2.length ≤ pair.length :=
  Nat.le_trans (Nat.add_le_add (length_decodeWith_le _ _) (length_decodeWith_le _ _))
    (length_name_value_le pair)

theorem sum_getLines_le (delimiter : Char) (text : Text) :
    ((Text.getLines delimiter text).map List.length).sum ≤ text.length := by
  fun_induction Text.getLines delimiter text with
  | case1 => exact Nat.le_refl 0
  | case2 rest inductionHypothesis => simp; omega
  | case3 c rest other noLines inductionHypothesis => simp
  | case4 c rest other line lines isLines inductionHypothesis =>
      rw [isLines] at inductionHypothesis
      simp only [List.map_cons, List.sum_cons, List.length_cons] at inductionHypothesis ⊢
      omega

/-- The written pairs are no longer than the body. -/
theorem sum_writtenPairs_le (body : Text) :
    ((writtenPairs body).map List.length).sum ≤ body.length :=
  Nat.le_trans ((List.filter_sublist.map _).sum_le_sum fun _ _ => Nat.zero_le _)
    (sum_getLines_le '&' body)

/-! ## The fields -/

theorem length_normalizeFieldName_le (config : FormConfig) (name : Text) :
    (normalizeFieldName config name).length ≤ name.length := by
  rw [normalizeFieldName]
  split
  · simp [Text.substr]
  · exact Nat.le_refl _

/-- The total with a field is its size beside the total without. -/
theorem totalSize_insert (data : FormData) (name : Text) (field : FormField) :
    totalSize (data.insert name field) = entrySize name field + totalSize (data.erase name) := by
  rw [totalSize, AList.entries_insert]
  rfl

theorem totalSize_erase {name : Text} {field : FormField} (held : data.lookup name = some field) :
    totalSize data = entrySize name field + totalSize (data.erase name) := by
  have present : name ∈ data.entries.keys :=
    AList.lookup_isSome.mp (by rw [held]; rfl)
  obtain ⟨other, before, after, -, entries, erased⟩ := List.exists_of_kerase present
  have isOther : other ∈ data.lookup name :=
    AList.mem_lookup_iff.mpr (by rw [entries]; simp)
  obtain rfl : field = other := Option.some.inj (held.symm.trans isOther)
  have rest : totalSize (data.erase name) =
      ((before ++ after).map fun entry => entrySize entry.1 entry.2).sum := by
    rw [← erased]
    rfl
  rw [rest, totalSize, entries]
  simp only [List.map_append, List.map_cons, List.sum_append, List.sum_cons]
  omega

/-- A pair adds no more than its name and its value. -/
theorem totalSize_addPair_le (config : FormConfig) (data : FormData) (name value : Text) :
    totalSize (addPair config data name value) ≤ totalSize data + (name.length + value.length) := by
  have shorter := length_normalizeFieldName_le config name
  rw [addPair]
  cases held : data.lookup (normalizeFieldName config name) with
  | some field =>
      simp only [totalSize_insert, totalSize_erase held, entrySize, FormField.addValue,
        List.map_append, List.sum_append, List.map_cons, List.map_nil, List.sum_cons, List.sum_nil]
      omega
  | none =>
      have absent : data.erase (normalizeFieldName config name) = data :=
        AList.ext (List.kerase_of_notMem_keys (AList.lookup_eq_none.mp held))
      have size : ∀ isArray, entrySize (normalizeFieldName config name)
          (if isArray = true then
            ({ name := normalizeFieldName config name } : FormField).addValue value
          else ({ name := normalizeFieldName config name } : FormField).setSingleValue value) =
          (normalizeFieldName config name).length + value.length := by
        intro isArray
        cases isArray <;> simp [entrySize, FormField.addValue, FormField.setSingleValue]
      simp only [totalSize_insert, absent, size]
      omega

theorem totalSize_foldl_le (config : FormConfig) (pairs : List (Text × Text)) (data : FormData) :
    totalSize (pairs.foldl (fun data pair => addPair config data pair.1 pair.2) data) ≤
      totalSize data + (pairs.map fun pair => pair.1.length + pair.2.length).sum := by
  induction pairs generalizing data with
  | nil => exact Nat.le_refl _
  | cons pair pairs inductionHypothesis =>
      have later := inductionHypothesis (addPair config data pair.1 pair.2)
      have added := totalSize_addPair_le config data pair.1 pair.2
      rw [List.foldl_cons, List.map_cons, List.sum_cons]
      omega

/-- What was parsed is within the limits of size. -/
theorem sizes_hold (parsed : parse config body = .ok data) :
    totalSize data ≤ config.maxTotalSize ∧
      ∀ entry ∈ data.entries, ∀ value ∈ entry.2.values, value.length ≤ config.maxFieldSize := by
  obtain ⟨bodyFits, pairsFit, rfl⟩ := parse_ok parsed
  constructor
  · have collected := totalSize_foldl_le config ((writtenPairs body).map decodePair) ∅
    have decoded : (((writtenPairs body).map decodePair).map fun pair =>
        pair.1.length + pair.2.length).sum ≤ ((writtenPairs body).map List.length).sum := by
      rw [List.map_map]
      exact List.sum_le_sum fun pair _ => length_decodePair_le pair
    have written := sum_writtenPairs_le body
    have empty : totalSize ∅ = 0 := rfl
    omega
  · intro entry member value isValue
    have collects := @collects_foldl config ((writtenPairs body).map decodePair)
    rw [collects.values entry.1 entry.2 (AList.mem_lookup_iff.mpr member), valuesOf] at isValue
    obtain ⟨pair, isPair, rfl⟩ := List.mem_map.mp isValue
    obtain ⟨written, isWritten, rfl⟩ := List.mem_map.mp (List.mem_of_mem_filter isPair)
    have fits := pairsFit written isWritten
    rw [validateFieldSize, Bool.and_eq_true, decide_eq_true_eq, decide_eq_true_eq] at fits
    exact Nat.le_trans (length_decodeWith_le _ _) fits.2

/-- There is a field for each different name. -/
theorem perm_keys (parsed : parse config body = .ok data) :
    data.keys.Perm (fieldNames config body).dedup := by
  obtain ⟨-, -, rfl⟩ := parse_ok parsed
  have collects := @collects_foldl config ((writtenPairs body).map decodePair)
  refine (List.perm_ext_iff_of_nodup (AList.keys_nodup _) (List.nodup_dedup _)).mpr fun name => ?_
  rw [← AList.mem_keys, collects.keys, List.mem_dedup, fieldNames]
  simp [decodePair]

theorem names_filled_iff (parsed : parse config body = .ok data) :
    (∀ entry ∈ data.entries, entry.2.name ≠ []) ↔ [] ∉ fieldNames config body := by
  have keys := perm_keys parsed
  obtain ⟨-, -, collected⟩ := parse_ok parsed
  have collects := @collects_foldl config ((writtenPairs body).map decodePair)
  rw [← collected] at collects
  rw [← List.mem_dedup, ← keys.mem_iff]
  constructor
  · intro filled isKey
    obtain ⟨entry, member, isName⟩ := List.mem_map.mp isKey
    refine filled entry member ?_
    rw [collects.names entry.1 entry.2 (AList.mem_lookup_iff.mpr member), isName]
  · intro filled entry member isName
    rw [collects.names entry.1 entry.2 (AList.mem_lookup_iff.mpr member)] at isName
    exact filled (isName ▸ List.mem_map_of_mem member)

/-- **What was parsed passes the validation** exactly when the body has pairs for
at most `max_fields` names, and none for an empty one. -/
theorem limits_hold_iff (parsed : parse config body = .ok data) :
    validateAllFields config data = [] ↔
      (fieldNames config body).dedup.length ≤ config.maxFields ∧
        [] ∉ fieldNames config body := by
  obtain ⟨total, values⟩ := sizes_hold parsed
  have count : data.entries.length = (fieldNames config body).dedup.length := by
    rw [← (perm_keys parsed).length_eq]
    exact (List.length_map _).symm
  rw [validateAllFields_eq_nil_iff, count, ← names_filled_iff parsed]
  constructor
  · rintro ⟨few, -, each⟩
    exact ⟨few, fun entry member => (each entry member).1⟩
  · rintro ⟨few, filled⟩
    exact ⟨few, total, fun entry member => ⟨filled entry member, values entry member⟩⟩

/-- A small form. -/
def smallForm : FormConfig where
  maxFieldSize := 4
  maxTotalSize := 16
  maxFields := 2

/-- Two fields of which one is a list. -/
theorem limits_hold_list :
    ∃ data, parse smallForm "a=1&b[]=2".toList = .ok data ∧
      (validateAllFields smallForm data = [] ↔
        (fieldNames smallForm "a=1&b[]=2".toList).dedup.length ≤ smallForm.maxFields ∧
          [] ∉ fieldNames smallForm "a=1&b[]=2".toList) :=
  ⟨_, rfl, limits_hold_iff rfl⟩

/-- A pair without a name passes the parser alone. -/
theorem empty_name_accepted :
    ¬ ∀ (config : FormConfig) (body : Text) (data : FormData),
      parse config body = .ok data → validateAllFields config data = [] := by
  intro limitsHold
  have valid := limitsHold smallForm "=x".toList _ rfl
  cases valid

end Foxhttp.Parser.FormParser
