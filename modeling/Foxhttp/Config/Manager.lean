import Foxhttp.Config.Sections

/-!
# The configuration manager

`load_file` gets a document from a loader, merges it into the defaults, asks the
validator, and then swaps the document in and rebuilds the snapshot under the
lock. Every call is one indivisible update here; what loaders, validators,
loggers and the parsers do in a call is the `Outside` of the call.
-/

namespace Foxhttp.Config

open Foxhttp.Library

abbrev LoaderId := Nat

abbrev SubscriberId := Nat

/-- What a call throws. -/
inductive Thrown where
  | type (error : TypeError)
  | foreign (tag : Nat)
deriving DecidableEq, Repr

/-- `YAML::Node`. -/
inductive YamlNode where
  | undefined
  | null
  | scalar (value : Text)
  | sequence (elements : List YamlNode)
  | map (entries : List (YamlNode × YamlNode))

/-- What foreign code does in a call: files and their parsers, registered
loaders, the validator with its error, and the logger. -/
structure Outside where
  contents : Text → Option Text
  parse : Text → Option Json
  loadYaml : Text → Option YamlNode
  load : LoaderId → Text → Except Thrown (Option Json)
  validate : Json → Except Thrown (Bool × Text)
  log : Text → Except Thrown Unit

/-! ## Loaders -/

/-- `load_json_static`. -/
def loadJsonStatic (outside : Outside) (path : Text) : Option Json :=
  match outside.contents path with
  | some text => outside.parse text
  | none => none

/-- `as<std::string>` on a key. -/
def YamlNode.key : YamlNode → Option Text
  | .scalar value => some value
  | .null => some "null".toList
  | _ => none

mutual

/-- `yaml_to_json`, or nothing when a key is not a scalar and the conversion throws. -/
def yamlToJson : YamlNode → Option Json
  | .null => some .null
  | .scalar value => some (.string value)
  | .sequence elements => (yamlElements elements).map .array
  | .map entries => (yamlEntries [] entries).map .object
  | .undefined => some .null

/-- The loop over a sequence. -/
def yamlElements : List YamlNode → Option (List Json)
  | [] => some []
  | element :: rest =>
      match yamlToJson element with
      | some json => (yamlElements rest).map (json :: ·)
      | none => none

/-- The loop over a map. -/
def yamlEntries (members : List (Text × Json)) :
    List (YamlNode × YamlNode) → Option (List (Text × Json))
  | [] => some members
  | entry :: rest =>
      match yamlEntry entry with
      | some (key, value) => yamlEntries (Json.setMember key value members) rest
      | none => none

/-- An entry of a map. -/
def yamlEntry : YamlNode × YamlNode → Option (Text × Json)
  | (first, second) =>
      match first.key, yamlToJson second with
      | some key, some value => some (key, value)
      | _, _ => none

end

/-- `load_yaml_static`. -/
def loadYamlStatic (outside : Outside) (path : Text) : Option Json :=
  match outside.loadYaml path with
  | some node => yamlToJson node
  | none => none

/-- `std::filesystem::path::extension`. -/
def extension (path : Text) : Text :=
  let name := path.reverse.takeWhile (· ≠ '/')
  let suffix := name.takeWhile (· ≠ '.')
  if name = ['.', '.'] ∨ name.length ≤ suffix.length + 1 then []
  else '.' :: suffix.reverse

/-- `default_document_`. Its braces close `"parsers"` only after `"core"`, so
the pair of `"parsers"` has a third element and the document is an array. -/
def defaultDocument (cores : Nat) : Json :=
  let number (value : Int) : Json := .number (.integer value)
  let string (value : String) : Json := .string value.toList
  .array [.array [string "parsers",
    Json.ofMembers [
      ("json", Json.ofMembers [
        ("maxBodySize", number (10 * 1024 * 1024)), ("maxDepth", number 100),
        ("strict", .boolean true), ("allowComments", .boolean false),
        ("allowTrailingCommas", .boolean false), ("allowDuplicateKeys", .boolean true),
        ("validateSchema", .boolean false), ("charset", string "UTF-8")]),
      ("multipart", Json.ofMembers [
        ("maxFieldSize", number (10 * 1024 * 1024)), ("maxFileSize", number (100 * 1024 * 1024)),
        ("maxTotalSize", number (500 * 1024 * 1024)), ("memoryThreshold", number (1024 * 1024)),
        ("tempDirectory", string "/tmp"), ("autoCleanup", .boolean true),
        ("strict", .boolean true), ("allowEmptyFields", .boolean false)]),
      ("form", Json.ofMembers [
        ("maxFieldSize", number (1024 * 1024)), ("maxTotalSize", number (10 * 1024 * 1024)),
        ("maxFields", number 1000), ("strict", .boolean true), ("allowEmptyValues", .boolean true),
        ("supportArrays", .boolean true), ("charset", string "UTF-8")]),
      ("plain", Json.ofMembers [
        ("maxBodySize", number (10 * 1024 * 1024)), ("normalizeLineEndings", .boolean true),
        ("trimWhitespace", .boolean false), ("validateEncoding", .boolean true),
        ("charset", string "UTF-8"), ("allowedContentTypes", .array []),
        ("strict", .boolean false)])],
    .array [string "core",
      Json.ofMembers [
        ("StrandPool", Json.ofMembers [
          ("initialSize", number (toInt cores)), ("minSize", number 1), ("maxSize", number 64),
          ("healthCheckIntervalMs", number 5000), ("metricsIntervalMs", number 10000),
          ("autoScaling", .boolean true), ("loadThreshold", .number (.float 0x3FE999999999999A)),
          ("idleThreshold", .number (.float 0x3FC999999999999A))]),
        ("TimerManager", Json.ofMembers [
          ("bucketCount", number 16), ("cleanupIntervalMs", number 60000),
          ("statisticsIntervalMs", number 30000), ("enableStatistics", .boolean true),
          ("enableCleanup", .boolean true)])]]]]

/-! ## The manager -/

/-- `ConfigSnapshot`. -/
structure ConfigSnapshot where
  version : Nat
  json : JsonConfig
  multipart : MultipartConfig
  form : FormConfig
  plain : PlainTextConfig
  strandPool : StrandPoolConfig
  timerMgr : TimerManagerConfig

/-- `ConfigManager`, as it is constructed. The version counter is the static one
of `rebuild_snapshot_unlocked`. -/
structure ConfigManager where
  configPath : Text := []
  document : Json := .null
  lastGoodDocument : Json := .null
  loaders : Text → Option LoaderId := fun _ => none
  snapshot : Option ConfigSnapshot := none
  subscribers : List (Text × List SubscriberId) := []
  hasLogger : Bool := false
  hasValidator : Bool := false
  versionCounter : Nat := 0

/-- A call of a subscriber. -/
structure Delivery where
  path : Text
  subscriber : SubscriberId
  newValue : Json
  oldValue : Json

/-- How `load_file` ends: what it returns or throws, the manager it leaves and
the calls of subscribers it makes. -/
structure Loaded where
  outcome : Except Thrown Bool
  manager : ConfigManager
  delivered : List Delivery := []

namespace ConfigManager

/-- `register_loader`. An empty function is no loader. -/
def registerLoader (manager : ConfigManager) (extension : Text) (loader : Option LoaderId) :
    ConfigManager :=
  { manager with
    loaders := fun other => if other = extension then loader else manager.loaders other }

/-- `subscribe`. -/
def subscribe (manager : ConfigManager) (path : Text) (subscriber : SubscriberId) :
    ConfigManager :=
  let rec insert : List (Text × List SubscriberId) → List (Text × List SubscriberId)
    | [] => [(path, [subscriber])]
    | (other, callbacks) :: rest =>
        if path = other then (other, callbacks ++ [subscriber]) :: rest
        else if Json.keyBefore path other then (path, [subscriber]) :: (other, callbacks) :: rest
        else (other, callbacks) :: insert rest
  { manager with subscribers := insert manager.subscribers }

/-- The loader which `load_file` picks for an extension. -/
def loaderFor (manager : ConfigManager) (outside : Outside) (ext : Text) :
    Option (Text → Except Thrown (Option Json)) :=
  match manager.loaders ext with
  | some loader => some (outside.load loader)
  | none =>
      if ext = ".json".toList then some fun path => .ok (loadJsonStatic outside path)
      else if ext = ".yml".toList ∨ ext = ".yaml".toList then
        some fun path => .ok (loadYamlStatic outside path)
      else none

/-- The validation hook of `load_file`, with its message to the logger. -/
def validated (manager : ConfigManager) (outside : Outside) (merged : Json) :
    Except Thrown Bool :=
  if manager.hasValidator then do
    let (valid, error) ← outside.validate merged
    if valid then return true
    if manager.hasLogger then outside.log ("config validation failed: ".toList ++ error)
    return false
  else return true

/-- The sections of a snapshot, in the order of `rebuild_snapshot_unlocked`. -/
def readSnapshot (cores version : Nat) (document : Json) : Except TypeError ConfigSnapshot := do
  let json ← jsonFromDoc document
  let multipart ← multipartFromDoc document
  let form ← formFromDoc document
  let plain ← plainFromDoc document
  let strandPool ← strandPoolFromDoc cores document
  let timerMgr ← timerFromDoc document
  return { version, json, multipart, form, plain, strandPool, timerMgr }

/-- `rebuild_snapshot_unlocked`. -/
def rebuildSnapshot (cores : Nat) (manager : ConfigManager) :
    Except TypeError Unit × ConfigManager :=
  let version := (manager.versionCounter + 1) % UInt64.size
  match readSnapshot cores version manager.document with
  | .ok snapshot =>
      (.ok (), { manager with versionCounter := version, snapshot := some snapshot })
  | .error error => (.error error, { manager with versionCounter := version })

/-- `notify_subscribers_unlocked`. What a subscriber throws is swallowed. -/
def notifySubscribers (manager : ConfigManager) (newDoc oldDoc : Json) : List Delivery :=
  manager.subscribers.flatMap fun (path, callbacks) =>
    let oldValue := Json.jsonPointerAt oldDoc path
    let newValue := Json.jsonPointerAt newDoc path
    if Json.same oldValue newValue then []
    else callbacks.map fun subscriber => { path, subscriber, newValue, oldValue }

/-- `load_file`. -/
def loadFile (cores : Nat) (outside : Outside) (manager : ConfigManager) (path : Text) : Loaded :=
  match manager.loaderFor outside (extension path) with
  | none => { outcome := .ok false, manager }
  | some loader =>
      match loader path with
      | .error thrown => { outcome := .error thrown, manager }
      | .ok none => { outcome := .ok false, manager }
      | .ok (some doc) =>
          let merged := Json.deepMerge (defaultDocument cores) doc
          match manager.validated outside merged with
          | .error thrown => { outcome := .error thrown, manager }
          | .ok false => { outcome := .ok false, manager }
          | .ok true =>
              -- The document is in place before the first section is read.
              let swapped := { manager with document := merged, lastGoodDocument := merged }
              match swapped.rebuildSnapshot cores with
              | (.error error, after) => { outcome := .error (.type error), manager := after }
              | (.ok (), after) =>
                  { outcome := .ok true, manager := after,
                    delivered := after.notifySubscribers after.document manager.document }

/-- `initialize` with a path, less the watcher it starts. -/
def initializeWith (cores : Nat) (outside : Outside) (manager : ConfigManager) (path : Text) :
    Loaded :=
  loadFile cores outside { manager with configPath := path } path

/-- `reload`. -/
def reload (cores : Nat) (outside : Outside) (manager : ConfigManager) : Loaded :=
  if manager.configPath = [] then { outcome := .ok false, manager }
  else loadFile cores outside manager manager.configPath

end ConfigManager

end Foxhttp.Config
