import Foxhttp.Config.Document

/-!
# The sections of a configuration

Every `*_from_doc` reads one section of a document into a configuration which
starts from its defaults. A section which is not an object gives the defaults;
a group which is not an object, or a member of the wrong type, throws.
-/

namespace Foxhttp.Config

open Foxhttp.Library

/-! ## The configurations -/

structure JsonConfig where
  maxSize : Nat := 10 * 1024 * 1024
  maxDepth : Nat := 100
  strictMode : Bool := true
  allowComments : Bool := false
  allowTrailingCommas : Bool := false
  allowDuplicateKeys : Bool := true
  validateSchema : Bool := false
  schema : Json := .null
  charset : Text := "UTF-8".toList

structure MultipartConfig where
  maxFieldSize : Nat := 10 * 1024 * 1024
  maxFileSize : Nat := 100 * 1024 * 1024
  maxTotalSize : Nat := 500 * 1024 * 1024
  memoryThreshold : Nat := 1024 * 1024
  tempDirectory : Text := "/tmp".toList
  autoCleanup : Bool := true
  /-- in seconds -/
  tempFileLifetime : Int := 3600
  strictMode : Bool := true
  allowEmptyFields : Bool := false
  allowedExtensions : List Text := []
  allowedContentTypes : List Text := []

structure FormConfig where
  maxFieldSize : Nat := 1024 * 1024
  maxTotalSize : Nat := 10 * 1024 * 1024
  maxFields : Nat := 1000
  strictMode : Bool := true
  allowEmptyValues : Bool := true
  supportArrays : Bool := true
  charset : Text := "UTF-8".toList

structure PlainTextConfig where
  maxSize : Nat := 10 * 1024 * 1024
  normalizeLineEndings : Bool := true
  trimWhitespace : Bool := false
  validateEncoding : Bool := true
  charset : Text := "UTF-8".toList
  allowedContentTypes : List Text := []
  strictMode : Bool := false

inductive LoadBalanceStrategy where
  | roundRobin | leastConnections | consistentHash | random | weightedRoundRobin
deriving DecidableEq, Repr

/-- `StrandPoolConfig`. The times are in milliseconds and the thresholds are
the bits of doubles, of 0.8 and 0.2 at first. The first size is what
`hardware_concurrency` gives. -/
structure StrandPoolConfig where
  initialSize : Nat
  minSize : Nat := 1
  maxSize : Nat := 64
  strategy : LoadBalanceStrategy := .roundRobin
  healthCheckInterval : Int := 5000
  metricsReportInterval : Int := 10000
  enableAutoScaling : Bool := true
  loadThreshold : UInt64 := 0x3FE999999999999A
  idleThreshold : UInt64 := 0x3FC999999999999A

/-- `TimerManagerConfig`, in milliseconds. -/
structure TimerManagerConfig where
  bucketCount : Nat := 16
  cleanupInterval : Int := 60000
  statisticsReportInterval : Int := 30000
  enableStatistics : Bool := true
  enableCleanup : Bool := true

/-! ## The readers -/

open Json

/-- The frame of every reader: find the section of a group, and read it into
the defaults when it is an object. -/
def readSection {Config : Type} (group name : String) (default : Config)
    (read : Json → Except TypeError Config) (document : Json) : Except TypeError Config := do
  let members ← document.value getJson group .null
  let json ← members.value getJson name .null
  if json.isObject then read json else return default

/-- `json_from_doc`. -/
def jsonFromDoc (document : Json) : Except TypeError JsonConfig :=
  let cfg : JsonConfig := {}
  document |> readSection "parsers" "json" cfg fun j => do
    let maxSize ← j.value getSize "maxBodySize" cfg.maxSize
    let maxDepth ← j.value getSize "maxDepth" cfg.maxDepth
    let strictMode ← j.value getBool "strict" cfg.strictMode
    let allowComments ← j.value getBool "allowComments" cfg.allowComments
    let allowTrailingCommas ← j.value getBool "allowTrailingCommas" cfg.allowTrailingCommas
    let allowDuplicateKeys ← j.value getBool "allowDuplicateKeys" cfg.allowDuplicateKeys
    let validateSchema ← j.value getBool "validateSchema" cfg.validateSchema
    let schema := match j.find "schema".toList with
      | some schema => if schema.isObject then schema else cfg.schema
      | none => cfg.schema
    let charset ← j.value getString "charset" cfg.charset
    return { maxSize, maxDepth, strictMode, allowComments, allowTrailingCommas,
             allowDuplicateKeys, validateSchema, schema, charset }

/-- `multipart_from_doc`. -/
def multipartFromDoc (document : Json) : Except TypeError MultipartConfig :=
  let cfg : MultipartConfig := {}
  document |> readSection "parsers" "multipart" cfg fun m => do
    let maxFieldSize ← m.value getSize "maxFieldSize" cfg.maxFieldSize
    let maxFileSize ← m.value getSize "maxFileSize" cfg.maxFileSize
    let maxTotalSize ← m.value getSize "maxTotalSize" cfg.maxTotalSize
    let memoryThreshold ← m.value getSize "memoryThreshold" cfg.memoryThreshold
    let tempDirectory ← m.value getString "tempDirectory" cfg.tempDirectory
    let autoCleanup ← m.value getBool "autoCleanup" cfg.autoCleanup
    let strictMode ← m.value getBool "strict" cfg.strictMode
    let allowEmptyFields ← m.value getBool "allowEmptyFields" cfg.allowEmptyFields
    let allowedExtensions ← m.contained getStrings "allowedExtensions" cfg.allowedExtensions
    let allowedContentTypes ← m.contained getStrings "allowedContentTypes" cfg.allowedContentTypes
    return { cfg with
      maxFieldSize, maxFileSize, maxTotalSize, memoryThreshold, tempDirectory, autoCleanup,
      strictMode, allowEmptyFields, allowedExtensions, allowedContentTypes }

/-- `form_from_doc`. -/
def formFromDoc (document : Json) : Except TypeError FormConfig :=
  let cfg : FormConfig := {}
  document |> readSection "parsers" "form" cfg fun f => do
    let maxFieldSize ← f.value getSize "maxFieldSize" cfg.maxFieldSize
    let maxTotalSize ← f.value getSize "maxTotalSize" cfg.maxTotalSize
    let maxFields ← f.value getSize "maxFields" cfg.maxFields
    let strictMode ← f.value getBool "strict" cfg.strictMode
    let allowEmptyValues ← f.value getBool "allowEmptyValues" cfg.allowEmptyValues
    let supportArrays ← f.value getBool "supportArrays" cfg.supportArrays
    let charset ← f.value getString "charset" cfg.charset
    return { maxFieldSize, maxTotalSize, maxFields, strictMode, allowEmptyValues, supportArrays,
             charset }

/-- `plain_from_doc`. -/
def plainFromDoc (document : Json) : Except TypeError PlainTextConfig :=
  let cfg : PlainTextConfig := {}
  document |> readSection "parsers" "plain" cfg fun p => do
    let maxSize ← p.value getSize "maxBodySize" cfg.maxSize
    let normalizeLineEndings ← p.value getBool "normalizeLineEndings" cfg.normalizeLineEndings
    let trimWhitespace ← p.value getBool "trimWhitespace" cfg.trimWhitespace
    let validateEncoding ← p.value getBool "validateEncoding" cfg.validateEncoding
    let charset ← p.value getString "charset" cfg.charset
    let allowedContentTypes ← p.contained getStrings "allowedContentTypes" cfg.allowedContentTypes
    let strictMode ← p.value getBool "strict" cfg.strictMode
    return { maxSize, normalizeLineEndings, trimWhitespace, validateEncoding, charset,
             allowedContentTypes, strictMode }

/-- `strand_pool_from_doc`. -/
def strandPoolFromDoc (cores : Nat) (document : Json) : Except TypeError StrandPoolConfig :=
  let cfg : StrandPoolConfig := { initialSize := cores }
  document |> readSection "core" "StrandPool" cfg fun s => do
    let initialSize ← s.value getInt "initialSize" (toInt cfg.initialSize)
    let minSize ← s.value getInt "minSize" (toInt cfg.minSize)
    let maxSize ← s.value getInt "maxSize" (toInt cfg.maxSize)
    let healthCheckInterval ←
      s.value getInt "healthCheckIntervalMs" (toInt cfg.healthCheckInterval)
    let metricsReportInterval ←
      s.value getInt "metricsIntervalMs" (toInt cfg.metricsReportInterval)
    let enableAutoScaling ← s.value getBool "autoScaling" cfg.enableAutoScaling
    let loadThreshold ← s.value getDouble "loadThreshold" cfg.loadThreshold
    let idleThreshold ← s.value getDouble "idleThreshold" cfg.idleThreshold
    return { cfg with
      initialSize := toSize initialSize, minSize := toSize minSize, maxSize := toSize maxSize,
      healthCheckInterval, metricsReportInterval, enableAutoScaling, loadThreshold,
      idleThreshold }

/-- `timer_from_doc`. -/
def timerFromDoc (document : Json) : Except TypeError TimerManagerConfig :=
  let cfg : TimerManagerConfig := {}
  document |> readSection "core" "TimerManager" cfg fun t => do
    let bucketCount ← t.value getInt "bucketCount" (toInt cfg.bucketCount)
    let cleanupInterval ← t.value getInt "cleanupIntervalMs" (toInt cfg.cleanupInterval)
    let statisticsReportInterval ←
      t.value getInt "statisticsIntervalMs" (toInt cfg.statisticsReportInterval)
    let enableStatistics ← t.value getBool "enableStatistics" cfg.enableStatistics
    let enableCleanup ← t.value getBool "enableCleanup" cfg.enableCleanup
    return { bucketCount := toSize bucketCount, cleanupInterval, statisticsReportInterval,
             enableStatistics, enableCleanup }

/-! ## Types which the readers take -/

/-- The types which the readers convert to. -/
inductive Kind where
  | size | int | double | bool | string | strings
deriving DecidableEq, Repr

/-- `is_string`. -/
def Json.isString : Json → Bool
  | .string _ => true
  | _ => false

/-- Whether a value can be converted. -/
def Kind.accepts : Kind → Json → Bool
  | .size, .number _ | .double, .number _ | .int, .number _ | .int, .boolean _ => true
  | .bool, .boolean _ => true
  | .string, json => json.isString
  | .strings, .array elements => elements.all Json.isString
  | _, _ => false

/-- A section of a document, with the keys which its reader converts. -/
structure Section where
  group : String
  name : String
  keys : List (String × Kind)

/-- The member of each key can be converted, where there is one. -/
def Fits (members : List (Text × Json)) (key : String × Kind) : Prop :=
  ∀ member, members.lookup key.1.toList = some member → key.2.accepts member = true

/-- A document has the group of a section, and the section fits when it is an
object. -/
def Section.Readable (part : Section) (document : Json) : Prop :=
  ∃ groups parts, document = .object groups ∧
    groups.lookup part.group.toList = some (.object parts) ∧
    ∀ members, parts.lookup part.name.toList = some (.object members) →
      ∀ key ∈ part.keys, Fits members key

namespace Section

def json : Section where
  group := "parsers"
  name := "json"
  keys := [("maxBodySize", .size), ("maxDepth", .size), ("strict", .bool), ("allowComments", .bool),
    ("allowTrailingCommas", .bool), ("allowDuplicateKeys", .bool), ("validateSchema", .bool),
    ("charset", .string)]

def multipart : Section where
  group := "parsers"
  name := "multipart"
  keys := [("maxFieldSize", .size), ("maxFileSize", .size), ("maxTotalSize", .size),
    ("memoryThreshold", .size), ("tempDirectory", .string), ("autoCleanup", .bool),
    ("strict", .bool), ("allowEmptyFields", .bool), ("allowedExtensions", .strings),
    ("allowedContentTypes", .strings)]

def form : Section where
  group := "parsers"
  name := "form"
  keys := [("maxFieldSize", .size), ("maxTotalSize", .size), ("maxFields", .size),
    ("strict", .bool), ("allowEmptyValues", .bool), ("supportArrays", .bool), ("charset", .string)]

def plain : Section where
  group := "parsers"
  name := "plain"
  keys := [("maxBodySize", .size), ("normalizeLineEndings", .bool), ("trimWhitespace", .bool),
    ("validateEncoding", .bool), ("charset", .string), ("allowedContentTypes", .strings),
    ("strict", .bool)]

def strandPool : Section where
  group := "core"
  name := "StrandPool"
  keys := [("initialSize", .int), ("minSize", .int), ("maxSize", .int),
    ("healthCheckIntervalMs", .int), ("metricsIntervalMs", .int), ("autoScaling", .bool),
    ("loadThreshold", .double), ("idleThreshold", .double)]

def timerManager : Section where
  group := "core"
  name := "TimerManager"
  keys := [("bucketCount", .int), ("cleanupIntervalMs", .int), ("statisticsIntervalMs", .int),
    ("enableStatistics", .bool), ("enableCleanup", .bool)]

end Section

/-- Every section can be read. -/
def WellTyped (document : Json) : Prop :=
  ∀ part ∈ [Section.json, .multipart, .form, .plain, .strandPool, .timerManager],
    part.Readable document

/-! ## When the readers return -/

/-- The reading ends without an exception. -/
def Reads {T : Type} (reading : Except TypeError T) : Prop :=
  ∃ read, reading = .ok read

@[simp] theorem reads_ok {T : Type} (read : T) : Reads (.ok read : Except TypeError T) :=
  ⟨read, rfl⟩

@[simp] theorem reads_pure {T : Type} (read : T) : Reads (pure read : Except TypeError T) :=
  ⟨read, rfl⟩

@[simp] theorem not_reads_error {T : Type} (error : TypeError) :
    ¬ Reads (.error error : Except TypeError T) := by
  rintro ⟨read, same⟩
  cases same

theorem bind_eq_ok {S T : Type} {first : Except TypeError S} {next : S → Except TypeError T}
    {last : T} :
    first >>= next = .ok last ↔ ∃ read, first = .ok read ∧ next read = .ok last := by
  cases first with
  | ok read =>
    refine ⟨fun same => ⟨read, rfl, same⟩, ?_⟩
    rintro ⟨_, isRead, same⟩
    cases isRead
    exact same
  | error error =>
    refine iff_of_false (fun same => nomatch same) ?_
    rintro ⟨_, isRead, -⟩
    cases isRead

theorem reads_bind {S T : Type} (first : Except TypeError S) (next : S → Except TypeError T) :
    Reads (first >>= next) ↔ ∃ read, first = .ok read ∧ Reads (next read) := by
  simp only [Reads, bind_eq_ok]
  exact ⟨fun ⟨last, read, isRead, same⟩ => ⟨read, isRead, last, same⟩,
    fun ⟨read, isRead, last, same⟩ => ⟨last, read, isRead, same⟩⟩

/-- What follows reads or not whatever was read first. -/
theorem reads_bind_iff {S T : Type} {first : Except TypeError S} {next : S → Except TypeError T}
    {fits later : Prop} (firstReads : Reads first ↔ fits)
    (nextReads : ∀ read, Reads (next read) ↔ later) :
    Reads (first >>= next) ↔ fits ∧ later := by
  rw [reads_bind]
  simp only [nextReads, exists_and_right]
  rw [← firstReads, Reads]

section Conversions

theorem reads_getSize (json : Json) : Reads json.getSize ↔ Kind.size.accepts json = true := by
  cases json with
  | number value => cases value <;> simp [Json.getSize, Kind.accepts]
  | _ => simp [Json.getSize, Kind.accepts]

theorem reads_getInt (json : Json) : Reads json.getInt ↔ Kind.int.accepts json = true := by
  cases json with
  | number value => cases value <;> simp [Json.getInt, Kind.accepts]
  | _ => simp [Json.getInt, Kind.accepts]

theorem reads_getDouble (json : Json) : Reads json.getDouble ↔ Kind.double.accepts json = true := by
  cases json with
  | number value => cases value <;> simp [Json.getDouble, Kind.accepts]
  | _ => simp [Json.getDouble, Kind.accepts]

theorem reads_getBool (json : Json) : Reads json.getBool ↔ Kind.bool.accepts json = true := by
  cases json <;> simp [Json.getBool, Kind.accepts]

theorem reads_getString (json : Json) :
    Reads json.getString ↔ Kind.string.accepts json = true := by
  cases json <;> simp [Json.getString, Kind.accepts, Json.isString]

theorem reads_getStrings (json : Json) :
    Reads json.getStrings ↔ Kind.strings.accepts json = true := by
  cases json with
  | array elements =>
    rw [Json.getStrings, Kind.accepts]
    induction elements with
    | nil => simp
    | cons element rest inductionHypothesis =>
      rw [List.mapM_cons, List.all_cons, Bool.and_eq_true, ← inductionHypothesis]
      refine reads_bind_iff (reads_getString element) fun read => ?_
      rw [reads_bind]
      simp only [reads_pure, and_true]
      rfl
  | _ => simp [Json.getStrings, Kind.accepts]

variable {T : Type} {get : Json → Except TypeError T} {kind : Kind}
  (converts : ∀ json, Reads (get json) ↔ kind.accepts json = true)

include converts

theorem reads_value (key : String) (default : T) (members : List (Text × Json)) :
    Reads (Json.value get key default (.object members)) ↔ Fits members (key, kind) := by
  rw [Json.value, Fits]
  split <;> rename_i found
  · simp [found, converts]
  · simp [found]

theorem reads_contained (key : String) (default : T) (members : List (Text × Json)) :
    Reads (Json.contained get key default (.object members)) ↔ Fits members (key, kind) := by
  rw [Json.contained, Json.find, Fits]
  split <;> rename_i found
  · simp [found, converts]
  · simp [found]

end Conversions

/-- Only an object has values. -/
theorem object_of_value {T : Type} {get : Json → Except TypeError T} {key : String}
    {default read : T} {json : Json} (isRead : json.value get key default = .ok read) :
    ∃ members, json = .object members := by
  cases json with
  | object members => exact ⟨members, rfl⟩
  | _ => cases isRead

/-- A section is read when its group is there and its reader reads it. -/
theorem reads_section {Config : Type} (part : Section) (default : Config)
    {read : Json → Except TypeError Config}
    (reads : ∀ members, Reads (read (.object members)) ↔ ∀ key ∈ part.keys, Fits members key)
    (document : Json) :
    Reads (readSection part.group part.name default read document) ↔ part.Readable document := by
  rw [readSection, Section.Readable, reads_bind]
  constructor
  · rintro ⟨group, isGroup, rest⟩
    obtain ⟨json, isSection, rest⟩ := (reads_bind _ _).mp rest
    obtain ⟨groups, rfl⟩ := object_of_value isGroup
    obtain ⟨parts, rfl⟩ := object_of_value isSection
    refine ⟨groups, parts, rfl, ?_, fun members found => ?_⟩
    · rw [Json.value] at isGroup
      split at isGroup
      · rename_i found
        cases isGroup
        exact found
      · cases isGroup
    · rw [Json.value, found] at isSection
      cases isSection
      exact (reads members).mp rest
  · rintro ⟨groups, parts, rfl, isGroup, fits⟩
    refine ⟨.object parts, by rw [Json.value, isGroup]; rfl, (reads_bind _ _).mpr ?_⟩
    cases found : parts.lookup part.name.toList with
    | none => exact ⟨.null, by rw [Json.value, found], reads_pure default⟩
    | some json =>
      refine ⟨json, by rw [Json.value, found]; rfl, ?_⟩
      cases json with
      | object members => exact (reads members).mpr (fits members found)
      | _ => exact reads_pure default

/-! ## The six readers -/

theorem exists_reads {T : Type} (reading : Except TypeError T) :
    (∃ read, reading = .ok read) ↔ Reads reading :=
  Iff.rfl

theorem forall_keys_nil (members : List (Text × Json)) : (∀ key ∈ [], Fits members key) ↔ True :=
  iff_true_intro fun _ member => nomatch member

theorem reads_jsonFromDoc (document : Json) :
    Reads (jsonFromDoc document) ↔ Section.json.Readable document := by
  refine reads_section .json _ (fun members => ?_) document
  simp only [reads_bind, exists_and_right, exists_reads, reads_pure, and_true,
    reads_value reads_getSize, reads_value reads_getBool, reads_value reads_getString,
    Section.json, List.forall_mem_cons, forall_keys_nil]

theorem reads_multipartFromDoc (document : Json) :
    Reads (multipartFromDoc document) ↔ Section.multipart.Readable document := by
  refine reads_section .multipart _ (fun members => ?_) document
  simp only [reads_bind, exists_and_right, exists_reads, reads_pure, and_true,
    reads_value reads_getSize, reads_value reads_getBool, reads_value reads_getString,
    reads_contained reads_getStrings, Section.multipart, List.forall_mem_cons, forall_keys_nil]

theorem reads_formFromDoc (document : Json) :
    Reads (formFromDoc document) ↔ Section.form.Readable document := by
  refine reads_section .form _ (fun members => ?_) document
  simp only [reads_bind, exists_and_right, exists_reads, reads_pure, and_true,
    reads_value reads_getSize, reads_value reads_getBool, reads_value reads_getString,
    Section.form, List.forall_mem_cons, forall_keys_nil]

theorem reads_plainFromDoc (document : Json) :
    Reads (plainFromDoc document) ↔ Section.plain.Readable document := by
  refine reads_section .plain _ (fun members => ?_) document
  simp only [reads_bind, exists_and_right, exists_reads, reads_pure, and_true,
    reads_value reads_getSize, reads_value reads_getBool, reads_value reads_getString,
    reads_contained reads_getStrings, Section.plain, List.forall_mem_cons, forall_keys_nil]

theorem reads_strandPoolFromDoc (cores : Nat) (document : Json) :
    Reads (strandPoolFromDoc cores document) ↔ Section.strandPool.Readable document := by
  refine reads_section .strandPool _ (fun members => ?_) document
  simp only [reads_bind, exists_and_right, exists_reads, reads_pure, and_true,
    reads_value reads_getInt, reads_value reads_getBool, reads_value reads_getDouble,
    Section.strandPool, List.forall_mem_cons, forall_keys_nil]

theorem reads_timerFromDoc (document : Json) :
    Reads (timerFromDoc document) ↔ Section.timerManager.Readable document := by
  refine reads_section .timerManager _ (fun members => ?_) document
  simp only [reads_bind, exists_and_right, exists_reads, reads_pure, and_true,
    reads_value reads_getInt, reads_value reads_getBool,
    Section.timerManager, List.forall_mem_cons, forall_keys_nil]

end Foxhttp.Config
