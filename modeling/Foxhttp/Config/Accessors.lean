import Foxhttp.Config.TwoFormats

/-!
# The accessors of the parser sections

Every `get_*_config` reads its section of the document in place when it is
called. A section which is not there gives the defaults, but only within a group
which is there: a document without `"parsers"` makes every accessor throw, and so
does the null document before the first load.
-/

namespace Foxhttp.Config

open Foxhttp.Library Json

/-! ## What the accessors are to give -/

/-- The members of an object, and none of anything else. -/
def Json.members : Json → List (Text × Json)
  | .object members => members
  | _ => []

/-- The members of a section of a document, and none where it is not an object. -/
def Section.members (part : Section) (document : Json) : List (Text × Json) :=
  (((document.find part.group.toList).getD .null).find part.name.toList).getD .null |>.members

/-- The value of a key which is present with the right type, and the default of
one which is absent. -/
def given {T : Type} (get : Json → Except TypeError T) (key : String) (default : T)
    (members : List (Text × Json)) : T :=
  ((members.lookup key.toList).bind fun member => (get member).toOption).getD default

/-- The JSON configuration of these members. -/
def jsonGiven (members : List (Text × Json)) : JsonConfig :=
  let cfg : JsonConfig := {}
  { maxSize := given getSize "maxBodySize" cfg.maxSize members
    maxDepth := given getSize "maxDepth" cfg.maxDepth members
    strictMode := given getBool "strict" cfg.strictMode members
    allowComments := given getBool "allowComments" cfg.allowComments members
    allowTrailingCommas := given getBool "allowTrailingCommas" cfg.allowTrailingCommas members
    allowDuplicateKeys := given getBool "allowDuplicateKeys" cfg.allowDuplicateKeys members
    validateSchema := given getBool "validateSchema" cfg.validateSchema members
    schema := given (fun json => if json.isObject then .ok json else .ok cfg.schema) "schema"
      cfg.schema members
    charset := given getString "charset" cfg.charset members }

/-- The multipart configuration of these members. -/
def multipartGiven (members : List (Text × Json)) : MultipartConfig :=
  let cfg : MultipartConfig := {}
  { cfg with
    maxFieldSize := given getSize "maxFieldSize" cfg.maxFieldSize members
    maxFileSize := given getSize "maxFileSize" cfg.maxFileSize members
    maxTotalSize := given getSize "maxTotalSize" cfg.maxTotalSize members
    memoryThreshold := given getSize "memoryThreshold" cfg.memoryThreshold members
    tempDirectory := given getString "tempDirectory" cfg.tempDirectory members
    autoCleanup := given getBool "autoCleanup" cfg.autoCleanup members
    strictMode := given getBool "strict" cfg.strictMode members
    allowEmptyFields := given getBool "allowEmptyFields" cfg.allowEmptyFields members
    allowedExtensions := given getStrings "allowedExtensions" cfg.allowedExtensions members
    allowedContentTypes := given getStrings "allowedContentTypes" cfg.allowedContentTypes members }

/-- The form configuration of these members. -/
def formGiven (members : List (Text × Json)) : FormConfig :=
  let cfg : FormConfig := {}
  { maxFieldSize := given getSize "maxFieldSize" cfg.maxFieldSize members
    maxTotalSize := given getSize "maxTotalSize" cfg.maxTotalSize members
    maxFields := given getSize "maxFields" cfg.maxFields members
    strictMode := given getBool "strict" cfg.strictMode members
    allowEmptyValues := given getBool "allowEmptyValues" cfg.allowEmptyValues members
    supportArrays := given getBool "supportArrays" cfg.supportArrays members
    charset := given getString "charset" cfg.charset members }

/-- The plain text configuration of these members. -/
def plainGiven (members : List (Text × Json)) : PlainTextConfig :=
  let cfg : PlainTextConfig := {}
  { maxSize := given getSize "maxBodySize" cfg.maxSize members
    normalizeLineEndings := given getBool "normalizeLineEndings" cfg.normalizeLineEndings members
    trimWhitespace := given getBool "trimWhitespace" cfg.trimWhitespace members
    validateEncoding := given getBool "validateEncoding" cfg.validateEncoding members
    charset := given getString "charset" cfg.charset members
    allowedContentTypes := given getStrings "allowedContentTypes" cfg.allowedContentTypes members
    strictMode := given getBool "strict" cfg.strictMode members }

/-! ## The accessors -/

namespace ConfigManager

/-- Every accessor returns, with the values of the document and the defaults. -/
structure AccessorsGive (manager : ConfigManager) : Prop where
  json : manager.getJsonConfig = .ok (jsonGiven (Section.json.members manager.document))
  multipart : manager.getMultipartConfig =
    .ok (multipartGiven (Section.multipart.members manager.document))
  form : manager.getFormConfig = .ok (formGiven (Section.form.members manager.document))
  plain : manager.getPlainTextConfig = .ok (plainGiven (Section.plain.members manager.document))

end ConfigManager

/-- Every section of a parser can be read. -/
def ParsersReadable (document : Json) : Prop :=
  ∀ part ∈ [Section.json, .multipart, .form, .plain], part.Readable document

/-! ## What is read is what is given -/

section Given

variable {T : Type} {get : Json → Except TypeError T} {key : String} {default read : T}
  {members : List (Text × Json)}

theorem eq_given_of_value (isRead : Json.value get key default (.object members) = .ok read) :
    read = given get key default members := by
  rw [Json.value] at isRead
  rw [given]
  split at isRead
  · rename_i member found
    rw [found, Option.bind_some, isRead]
    rfl
  · rename_i found
    rw [found]
    exact (Except.ok.inj isRead).symm

theorem eq_given_of_contained
    (isRead : Json.contained get key default (.object members) = .ok read) :
    read = given get key default members := by
  refine eq_given_of_value ?_
  rw [Json.value, ← isRead]
  rfl

end Given

/-- A member which is read as it is is there, or null is. -/
theorem eq_getD_of_value {key : String} {read : Json} {members : List (Text × Json)}
    (isRead : Json.value getJson key .null (.object members) = .ok read) :
    read = (members.lookup key.toList).getD .null := by
  rw [Json.value] at isRead
  split at isRead
  · rename_i member found
    rw [found]
    exact (Except.ok.inj isRead).symm
  · rename_i found
    rw [found]
    exact (Except.ok.inj isRead).symm

/-- A section which is read gives what its members give. -/
theorem eq_given_of_section {Config : Type} (part : Section) {default cfg : Config}
    {read : Json → Except TypeError Config} {given : List (Text × Json) → Config}
    (reads : ∀ members cfg, read (.object members) = .ok cfg → cfg = given members)
    (defaults : given [] = default) {document : Json}
    (isRead : readSection part.group part.name default read document = .ok cfg) :
    cfg = given (part.members document) := by
  rw [readSection, bind_eq_ok] at isRead
  obtain ⟨group, isGroup, rest⟩ := isRead
  obtain ⟨json, isSection, isRead⟩ := bind_eq_ok.mp rest
  obtain ⟨groups, rfl⟩ := object_of_value isGroup
  obtain ⟨parts, rfl⟩ := object_of_value isSection
  have isMembers : part.members (.object groups) = json.members := by
    rw [eq_getD_of_value isSection, Section.members, Json.find, ← eq_getD_of_value isGroup,
      Json.find]
  rw [isMembers]
  split at isRead
  · rename_i isObject
    cases json with
    | object members => exact reads members cfg isRead
    | _ => cases isObject
  · rename_i other
    cases json with
    | object members => exact absurd rfl other
    | _ => exact (Except.ok.inj isRead).symm.trans defaults.symm

theorem schema_eq_given (default : Json) (members : List (Text × Json)) :
    (match Json.find "schema".toList (.object members) with
      | some schema => if schema.isObject then schema else default
      | none => default) =
      given (fun json => if json.isObject then .ok json else .ok default) "schema" default
        members := by
  rw [given, Json.find]
  cases members.lookup "schema".toList with
  | none => rfl
  | some schema =>
      rw [Option.bind_some]
      dsimp only
      split <;> rfl

theorem eq_jsonGiven {document : Json} {cfg : JsonConfig}
    (isRead : jsonFromDoc document = .ok cfg) :
    cfg = jsonGiven (Section.json.members document) := by
  refine eq_given_of_section .json (fun members cfg isRead => ?_) rfl isRead
  simp only [bind_eq_ok] at isRead
  obtain ⟨_, maxSize, _, maxDepth, _, strict, _, comments, _, commas, _, duplicates, _, validates,
    _, charset, same⟩ := isRead
  cases same
  simp only [jsonGiven, ← eq_given_of_value maxSize, ← eq_given_of_value maxDepth,
    ← eq_given_of_value strict, ← eq_given_of_value comments, ← eq_given_of_value commas,
    ← eq_given_of_value duplicates, ← eq_given_of_value validates, ← eq_given_of_value charset]
  exact congrArg (JsonConfig.mk _ _ _ _ _ _ _ · _) (schema_eq_given .null members)

theorem eq_multipartGiven {document : Json} {cfg : MultipartConfig}
    (isRead : multipartFromDoc document = .ok cfg) :
    cfg = multipartGiven (Section.multipart.members document) := by
  refine eq_given_of_section .multipart (fun members cfg isRead => ?_) rfl isRead
  simp only [bind_eq_ok] at isRead
  obtain ⟨_, fieldSize, _, fileSize, _, totalSize, _, threshold, _, directory, _, cleanup,
    _, strict, _, empty, _, extensions, _, contentTypes, same⟩ := isRead
  cases same
  simp only [multipartGiven, ← eq_given_of_value fieldSize, ← eq_given_of_value fileSize,
    ← eq_given_of_value totalSize, ← eq_given_of_value threshold, ← eq_given_of_value directory,
    ← eq_given_of_value cleanup, ← eq_given_of_value strict, ← eq_given_of_value empty,
    ← eq_given_of_contained extensions, ← eq_given_of_contained contentTypes]

theorem eq_formGiven {document : Json} {cfg : FormConfig}
    (isRead : formFromDoc document = .ok cfg) :
    cfg = formGiven (Section.form.members document) := by
  refine eq_given_of_section .form (fun members cfg isRead => ?_) rfl isRead
  simp only [bind_eq_ok] at isRead
  obtain ⟨_, fieldSize, _, totalSize, _, fields, _, strict, _, empty, _, arrays, _, charset,
    same⟩ := isRead
  cases same
  simp only [formGiven, ← eq_given_of_value fieldSize, ← eq_given_of_value totalSize,
    ← eq_given_of_value fields, ← eq_given_of_value strict, ← eq_given_of_value empty,
    ← eq_given_of_value arrays, ← eq_given_of_value charset]

theorem eq_plainGiven {document : Json} {cfg : PlainTextConfig}
    (isRead : plainFromDoc document = .ok cfg) :
    cfg = plainGiven (Section.plain.members document) := by
  refine eq_given_of_section .plain (fun members cfg isRead => ?_) rfl isRead
  simp only [bind_eq_ok] at isRead
  obtain ⟨_, size, _, endings, _, trim, _, encoding, _, charset, _, contentTypes, _, strict,
    same⟩ := isRead
  cases same
  simp only [plainGiven, ← eq_given_of_value size, ← eq_given_of_value endings,
    ← eq_given_of_value trim, ← eq_given_of_value encoding, ← eq_given_of_value charset,
    ← eq_given_of_contained contentTypes, ← eq_given_of_value strict]

/-! ## When the accessors return -/

namespace ConfigManager

variable (cores : Nat)

/-- **The accessors return when every section of a parser can be read**, and then
they give the values of the document and the defaults. -/
theorem accessorsGive_iff (manager : ConfigManager) :
    manager.AccessorsGive ↔ ParsersReadable manager.document := by
  have sections : ParsersReadable manager.document ↔
      Reads manager.getJsonConfig ∧ Reads manager.getMultipartConfig ∧
        Reads manager.getFormConfig ∧ Reads manager.getPlainTextConfig := by
    simp only [ParsersReadable, List.forall_mem_cons, List.not_mem_nil, false_implies,
      implies_true, and_true, ← reads_jsonFromDoc, ← reads_multipartFromDoc,
      ← reads_formFromDoc, ← reads_plainFromDoc]
    rfl
  rw [sections]
  constructor
  · intro gives
    exact ⟨⟨_, gives.json⟩, ⟨_, gives.multipart⟩, ⟨_, gives.form⟩, ⟨_, gives.plain⟩⟩
  · rintro ⟨⟨json, isJson⟩, ⟨multipart, isMultipart⟩, ⟨form, isForm⟩, ⟨plain, isPlain⟩⟩
    exact {
      json := isJson.trans (congrArg _ (eq_jsonGiven isJson))
      multipart := isMultipart.trans (congrArg _ (eq_multipartGiven isMultipart))
      form := isForm.trans (congrArg _ (eq_formGiven isForm))
      plain := isPlain.trans (congrArg _ (eq_plainGiven isPlain)) }

/-! ## The calls of a manager -/

/-- The document which a load would put in place. -/
def proposed (outside : Outside) (manager : ConfigManager) (path : Text) : Option Json := do
  let loader ← manager.loaderFor outside (extension path)
  let document ← (loader path).toOption.join
  let merged := Json.deepMerge (defaultDocument cores) document
  if (manager.validated outside merged).toOption = some true then some merged else none

/-- The calls which write to a manager. A watcher makes loads of its own. -/
inductive Call where
  | registerLoader (extension : Text) (loader : Option LoaderId)
  | subscribe (path : Text) (subscriber : SubscriberId)
  | setLogger (present : Bool)
  | setValidator (present : Bool)
  | initializeWith (outside : Outside) (path : Text)
  | loadFile (outside : Outside) (path : Text)
  | reload (outside : Outside)

/-- The manager after a call. -/
def perform (manager : ConfigManager) : Call → ConfigManager
  | .registerLoader extension loader => manager.registerLoader extension loader
  | .subscribe path subscriber => manager.subscribe path subscriber
  | .setLogger present => { manager with hasLogger := present }
  | .setValidator present => { manager with hasValidator := present }
  | .initializeWith outside path => (manager.initializeWith cores outside path).manager
  | .loadFile outside path => (manager.loadFile cores outside path).manager
  | .reload outside => (manager.reload cores outside).manager

/-- The document which a call puts in place. -/
def placed (manager : ConfigManager) : Call → Option Json
  | .initializeWith outside path =>
      ({ manager with configPath := path } : ConfigManager).proposed cores outside path
  | .loadFile outside path => manager.proposed cores outside path
  | .reload outside =>
      if manager.configPath = [] then none
      else manager.proposed cores outside manager.configPath
  | _ => none

/-- The manager after the calls. -/
def performAll (manager : ConfigManager) (calls : List Call) : ConfigManager :=
  calls.foldl (perform cores) manager

/-- The document which the last of the calls to put one in place did. -/
def lastPlaced (manager : ConfigManager) (last : Option Json) : List Call → Option Json
  | [] => last
  | call :: rest =>
      lastPlaced (manager.perform cores call) ((manager.placed cores call).or last) rest

section Steps

variable {cores : Nat} {outside : Outside} {manager : ConfigManager} {path : Text}

theorem ok_of_toOption {E T : Type} {result : Except E T} {value : T}
    (isValue : result.toOption = some value) : result = .ok value := by
  cases result with
  | error error => cases isValue
  | ok other => rw [Option.some.inj isValue]

theorem proposed_eq_some {merged : Json} :
    manager.proposed cores outside path = some merged ↔
      manager.Proposes cores outside path merged := by
  simp only [proposed, Option.bind_eq_bind, Option.bind_eq_some_iff, Proposes]
  constructor
  · rintro ⟨loader, isLoader, document, loads, valid⟩
    rw [Option.ite_none_right_eq_some] at valid
    obtain ⟨isValid, same⟩ := valid
    refine ⟨loader, document, isLoader, ?_, (Option.some.inj same).symm, ?_⟩
    · exact ok_of_toOption (Option.join_eq_some_iff.mp loads)
    · rw [← Option.some.inj same]
      exact ok_of_toOption isValid
  · rintro ⟨loader, document, isLoader, loads, rfl, valid⟩
    refine ⟨loader, isLoader, document, by rw [loads]; rfl, ?_⟩
    rw [valid]
    rfl

/-- A load leaves the document it proposes, or the one before. -/
theorem document_loadFile :
    (manager.loadFile cores outside path).manager.document =
      (manager.proposed cores outside path).getD manager.document := by
  cases isProposed : manager.proposed cores outside path with
  | some merged => exact (loadFile_installs (proposed_eq_some.mp isProposed)).document
  | none =>
      have refused (merged : Json) : ¬ manager.Proposes cores outside path merged := by
        intro proposes
        cases isProposed.symm.trans (proposed_eq_some.mpr proposes)
      rw [(loadFile_of_not_proposes refused).1]
      rfl

/-- A call leaves the document it puts in place, or the one before. -/
theorem document_perform (call : Call) :
    (manager.perform cores call).document =
      (manager.placed cores call).getD manager.document := by
  cases call with
  | initializeWith outside path => exact document_loadFile
  | loadFile outside path => exact document_loadFile
  | reload outside =>
      rw [perform, placed, reload]
      split
      · rfl
      · exact document_loadFile
  | _ => rfl

/-- So a run leaves the document last put in place. -/
theorem document_performAll (calls : List Call) {last : Option Json}
    (isLast : manager.document = last.getD .null) :
    (manager.performAll cores calls).document =
      (manager.lastPlaced cores last calls).getD .null := by
  induction calls generalizing manager last with
  | nil => exact isLast
  | cons call rest inductionHypothesis =>
      refine inductionHypothesis ?_
      rw [document_perform, isLast]
      cases manager.placed cores call <;> rfl

end Steps

theorem not_parsersReadable_null : ¬ ParsersReadable .null := by
  intro readable
  obtain ⟨groups, parts, same, -⟩ := readable .json List.mem_cons_self
  cases same

/-- **After any calls of a fresh manager the accessors give** the values of the
document and the defaults **exactly when** a document has been put in place and
every section of a parser of the last one can be read. -/
theorem accessorsGive_performAll_iff (calls : List Call) :
    (({} : ConfigManager).performAll cores calls).AccessorsGive ↔
      ∃ document, ({} : ConfigManager).lastPlaced cores none calls = some document ∧
        ParsersReadable document := by
  have isLast : ({} : ConfigManager).document = (none : Option Json).getD .null := rfl
  rw [accessorsGive_iff, document_performAll calls isLast]
  cases ({} : ConfigManager).lastPlaced cores none calls with
  | some document => simp
  | none => simpa using not_parsersReadable_null

/-- Before the first load the accessors throw. -/
theorem fresh_manager_throws :
    ¬ ∀ (cores : Nat) (calls : List Call),
      (({} : ConfigManager).performAll cores calls).AccessorsGive := by
  intro givesPerformed
  have gives := (givesPerformed 4 []).json
  cases gives

/-- A load which returns true leaves accessors which give. -/
theorem accessorsGive_of_loaded {cores : Nat} {outside : Outside} {manager : ConfigManager}
    {path : Text} (loaded : (manager.loadFile cores outside path).outcome = .ok true) :
    (manager.loadFile cores outside path).manager.AccessorsGive := by
  rw [accessorsGive_iff]
  rcases refused_or_proposes cores outside manager path with refused | ⟨merged, proposes⟩
  · exact absurd loaded (loadFile_of_not_proposes refused).2.1
  · have installs := loadFile_installs proposes
    have outcome := installs.outcome
    rw [loaded] at outcome
    rw [installs.document]
    cases isRead : readSnapshot cores ((manager.versionCounter + 1) % UInt64.size) merged with
    | error error => rw [isRead] at outcome; cases outcome
    | ok snapshot =>
        have wellTyped := (reads_snapshot cores _ merged).mp ⟨snapshot, isRead⟩
        intro part isParser
        refine wellTyped part ?_
        exact List.mem_append_left [.strandPool, .timerManager] isParser

end ConfigManager

end Foxhttp.Config
