import Foxhttp.Config.FormatSections

/-!
# Loading one configuration from either format

The loads of the JSON file and of the YAML file of a tree agree when each
section which a getter reads can be read from both documents or from neither,
and so can all six of a snapshot, and the schema is a tree of strings.
-/

namespace Foxhttp.Config

open Foxhttp.Library

/-! ## Comparing two loads -/

/-- The same value from both, or an exception from both. -/
def SameResult {Error Value : Type} (first second : Except Error Value) : Prop :=
  first.toOption = second.toOption

namespace ConfigManager

/-- `get_json_config`. -/
def getJsonConfig (manager : ConfigManager) : Except TypeError JsonConfig :=
  jsonFromDoc manager.document

/-- `get_multipart_config`. -/
def getMultipartConfig (manager : ConfigManager) : Except TypeError MultipartConfig :=
  multipartFromDoc manager.document

/-- `get_form_config`. -/
def getFormConfig (manager : ConfigManager) : Except TypeError FormConfig :=
  formFromDoc manager.document

/-- `get_plain_text_config`. -/
def getPlainTextConfig (manager : ConfigManager) : Except TypeError PlainTextConfig :=
  plainFromDoc manager.document

/-- `get_snapshot`. -/
def getSnapshot (manager : ConfigManager) : Option ConfigSnapshot :=
  manager.snapshot

end ConfigManager

/-- Two loads with the same outcome, after which the getters give the same. -/
structure SameLoad (first second : Loaded) : Prop where
  outcome : SameResult first.outcome second.outcome
  json : SameResult first.manager.getJsonConfig second.manager.getJsonConfig
  multipart : SameResult first.manager.getMultipartConfig second.manager.getMultipartConfig
  form : SameResult first.manager.getFormConfig second.manager.getFormConfig
  plain : SameResult first.manager.getPlainTextConfig second.manager.getPlainTextConfig
  snapshot : first.manager.getSnapshot = second.manager.getSnapshot

/-- A tree in a JSON file and in a YAML file, which the built-in loaders load
and both parsers read correctly. A validator does not tell the two apart. -/
structure TwoFiles (outside : Outside) (manager : ConfigManager) (tree : ConfigTree)
    (jsonPath yamlPath : Text) : Prop where
  distinct : tree.Distinct
  isJson : extension jsonPath = ".json".toList
  isYaml : extension yamlPath = ".yml".toList ∨ extension yamlPath = ".yaml".toList
  builtInJson : manager.loaders (extension jsonPath) = none
  builtInYaml : manager.loaders (extension yamlPath) = none
  parsesJson : ∃ text, outside.contents jsonPath = some text ∧
    outside.parse text = some tree.toJson
  parsesYaml : outside.loadYaml yamlPath = some tree.toYaml
  validates : manager.validated outside tree.toJson = manager.validated outside tree.toText

/-- The sections of a snapshot. -/
def Section.all : List Section :=
  [json, multipart, form, plain, strandPool, timerManager]

/-- Each section with a getter can be read from both documents of a tree or from
neither, so can all sections together, and the schema which is read is a tree of
strings. -/
structure ConfigTree.Alike (tree : ConfigTree) : Prop where
  sections : ∀ part ∈ [Section.json, .multipart, .form, .plain],
    part.Meets Kind.typed tree ↔ part.Meets Kind.textual tree
  all : (∀ part ∈ Section.all, part.Meets Kind.typed tree) ↔
    ∀ part ∈ Section.all, part.Meets Kind.textual tree
  schema : Section.json.Meets Kind.typed tree → tree.TextSchema

/-! ## Results -/

theorem sameResult_iff {T : Type} {first second : Except TypeError T} :
    SameResult first second ↔ (Reads first ↔ Reads second) ∧
      (Reads first → Reads second → first = second) := by
  cases first <;> cases second <;> simp [SameResult, Except.toOption]

namespace ConfigTree

variable {tree : ConfigTree} (distinct : tree.Distinct)

include distinct

/-- A reader of a section gives the same from both documents when both or
neither can be read, and what is read is the same. -/
theorem sameResult_section (part : Section) {Config : Type}
    {reader : Json → Except TypeError Config}
    (reads : ∀ document, Reads (reader document) ↔ part.Readable document) :
    SameResult (reader tree.toJson) (reader tree.toText) ↔
      (part.Meets Kind.typed tree ↔ part.Meets Kind.textual tree) ∧
        (part.Meets Kind.typed tree → part.Meets Kind.textual tree →
          reader tree.toJson = reader tree.toText) := by
  rw [sameResult_iff, reads, reads, readable_toJson_iff distinct, readable_toText_iff distinct]

theorem sameResult_of_agree (part : Section) {Config : Type}
    {reader : Json → Except TypeError Config}
    (reads : ∀ document, Reads (reader document) ↔ part.Readable document)
    (agree : part.Meets Kind.typed tree → part.Meets Kind.textual tree →
      reader tree.toJson = reader tree.toText) :
    SameResult (reader tree.toJson) (reader tree.toText) ↔
      (part.Meets Kind.typed tree ↔ part.Meets Kind.textual tree) := by
  rw [sameResult_section distinct part reads]
  exact and_iff_left agree

theorem sameResult_json :
    SameResult (jsonFromDoc tree.toJson) (jsonFromDoc tree.toText) ↔
      (Section.json.Meets Kind.typed tree ↔ Section.json.Meets Kind.textual tree) ∧
        (Section.json.Meets Kind.typed tree → tree.TextSchema) := by
  rw [sameResult_section distinct .json reads_jsonFromDoc]
  refine and_congr_right fun both => forall_congr' fun typed => ?_
  rw [json_agree_iff distinct typed (both.mp typed), forall_prop_of_true (both.mp typed)]

theorem wellTyped_toJson_iff :
    WellTyped tree.toJson ↔ ∀ part ∈ Section.all, part.Meets Kind.typed tree :=
  forall₂_congr fun part _ => readable_toJson_iff distinct part

theorem wellTyped_toText_iff :
    WellTyped tree.toText ↔ ∀ part ∈ Section.all, part.Meets Kind.textual tree :=
  forall₂_congr fun part _ => readable_toText_iff distinct part

/-- A tree all of whose sections can be read from both documents has one snapshot. -/
theorem readSnapshot_agree (cores version : Nat)
    (typed : ∀ part ∈ Section.all, part.Meets Kind.typed tree)
    (textual : ∀ part ∈ Section.all, part.Meets Kind.textual tree) (text : tree.TextSchema) :
    ConfigManager.readSnapshot cores version tree.toJson =
      ConfigManager.readSnapshot cores version tree.toText := by
  have meets (part : Section) (isPart : part ∈ Section.all) :=
    And.intro (typed part isPart) (textual part isPart)
  simp only [Section.all, List.forall_mem_cons] at meets
  obtain ⟨json, multipart, form, plain, strandPool, timer, -⟩ := meets
  rw [ConfigManager.readSnapshot, (json_agree_iff distinct json.1 json.2).mpr text,
    multipart_agree distinct multipart.1 multipart.2, form_agree distinct form.1 form.2,
    plain_agree distinct plain.1 plain.2, strandPool_agree distinct cores strandPool.1 strandPool.2,
    timer_agree distinct timer.1 timer.2]
  rfl

end ConfigTree

/-! ## The two loads -/

namespace ConfigManager

variable {cores : Nat} {outside : Outside} {manager : ConfigManager} {path : Text}

/-- A document which does not pass the validator leaves everything as it was. -/
theorem loadFile_of_refused {loader : Text → Except Thrown (Option Json)} {document : Json}
    (isLoader : manager.loaderFor outside (extension path) = some loader)
    (loads : loader path = .ok (some document))
    (refused : manager.validated outside document ≠ .ok true) :
    manager.loadFile cores outside path =
      { outcome := manager.validated outside document, manager } := by
  rw [loadFile, isLoader]
  simp only [loads, deepMerge_default]
  cases valid : manager.validated outside document with
  | error thrown => rfl
  | ok passes =>
      cases passes with
      | false => rfl
      | true => exact absurd valid refused

end ConfigManager

namespace TwoFiles

variable {outside : Outside} {manager : ConfigManager} {tree : ConfigTree}
  {jsonPath yamlPath : Text} (files : TwoFiles outside manager tree jsonPath yamlPath)

include files

/-- The loader of the JSON file gives the typed document. -/
theorem jsonLoader : ∃ loader, manager.loaderFor outside (extension jsonPath) = some loader ∧
    loader jsonPath = .ok (some tree.toJson) := by
  obtain ⟨text, contents, parses⟩ := files.parsesJson
  refine ⟨fun path => .ok (loadJsonStatic outside path), ?_, ?_⟩
  · rw [ConfigManager.loaderFor, files.builtInJson]
    exact if_pos files.isJson
  · simp only [loadJsonStatic, contents, parses]

/-- The loader of the YAML file gives the document of texts. -/
theorem yamlLoader : ∃ loader, manager.loaderFor outside (extension yamlPath) = some loader ∧
    loader yamlPath = .ok (some tree.toText) := by
  refine ⟨fun path => .ok (loadYamlStatic outside path), ?_, ?_⟩
  · have notJson : extension yamlPath ≠ ".json".toList := by
      rcases files.isYaml with yml | yaml
      · rw [yml]
        decide
      · rw [yaml]
        decide
    rw [ConfigManager.loaderFor, files.builtInYaml]
    exact (if_neg notJson).trans (if_pos files.isYaml)
  · simp only [loadYamlStatic, files.parsesYaml, ConfigTree.yamlToJson_toYaml]

end TwoFiles

/-! ## Both documents in place -/

section Installed

variable {cores version : Nat} {before : ConfigManager} {tree : ConfigTree}
  {first second : Loaded} (distinct : tree.Distinct)
  (fromJson : ConfigManager.Installs cores version before tree.toJson first)
  (fromYaml : ConfigManager.Installs cores version before tree.toText second)

include distinct fromJson fromYaml

/-- The getters agree on both documents. -/
theorem sameGetters_iff :
    (SameResult first.manager.getJsonConfig second.manager.getJsonConfig ∧
      SameResult first.manager.getMultipartConfig second.manager.getMultipartConfig ∧
      SameResult first.manager.getFormConfig second.manager.getFormConfig ∧
      SameResult first.manager.getPlainTextConfig second.manager.getPlainTextConfig) ↔
    (∀ part ∈ [Section.json, .multipart, .form, .plain],
      part.Meets Kind.typed tree ↔ part.Meets Kind.textual tree) ∧
      (Section.json.Meets Kind.typed tree → tree.TextSchema) := by
  simp only [ConfigManager.getJsonConfig, ConfigManager.getMultipartConfig,
    ConfigManager.getFormConfig, ConfigManager.getPlainTextConfig, fromJson.document,
    fromYaml.document, ConfigTree.sameResult_json distinct,
    ConfigTree.sameResult_of_agree distinct .multipart reads_multipartFromDoc
      (ConfigTree.multipart_agree distinct),
    ConfigTree.sameResult_of_agree distinct .form reads_formFromDoc
      (ConfigTree.form_agree distinct),
    ConfigTree.sameResult_of_agree distinct .plain reads_plainFromDoc
      (ConfigTree.plain_agree distinct), List.forall_mem_cons]
  constructor
  · rintro ⟨⟨json, text⟩, multipart, form, plain⟩
    exact ⟨⟨json, multipart, form, plain, by simp⟩, text⟩
  · rintro ⟨⟨json, multipart, form, plain, -⟩, text⟩
    exact ⟨⟨json, text⟩, multipart, form, plain⟩

/-- The outcomes agree when both documents can be read whole or neither can. -/
theorem sameOutcome_iff :
    SameResult first.outcome second.outcome ↔
      ((∀ part ∈ Section.all, part.Meets Kind.typed tree) ↔
        ∀ part ∈ Section.all, part.Meets Kind.textual tree) := by
  rw [← ConfigTree.wellTyped_toJson_iff distinct, ← ConfigTree.wellTyped_toText_iff distinct,
    ← reads_snapshot cores version, ← reads_snapshot cores version, reads_iff_isSome,
    reads_iff_isSome, SameResult, fromJson.outcome, fromYaml.outcome]
  cases (ConfigManager.readSnapshot cores version tree.toJson).toOption <;>
    cases (ConfigManager.readSnapshot cores version tree.toText).toOption <;> simp

/-- The snapshots agree on a tree which reads alike. -/
theorem sameSnapshot_of_alike (alike : tree.Alike) :
    first.manager.getSnapshot = second.manager.getSnapshot := by
  rw [ConfigManager.getSnapshot, ConfigManager.getSnapshot, fromJson.snapshot, fromYaml.snapshot]
  by_cases all : ∀ part ∈ Section.all, part.Meets Kind.typed tree
  · have text := alike.schema (all .json (by simp [Section.all]))
    rw [ConfigTree.readSnapshot_agree distinct cores version all (alike.all.mp all) text]
  · have notTyped := mt (ConfigTree.wellTyped_toJson_iff distinct).mp all
    have notTextual := mt (ConfigTree.wellTyped_toText_iff distinct).mp (mt alike.all.mpr all)
    rw [← reads_snapshot cores version, reads_iff_isSome, Option.not_isSome_iff_eq_none]
      at notTyped notTextual
    rw [notTyped, notTextual]

theorem sameLoad_of_installs : SameLoad first second ↔ tree.Alike := by
  have getters := sameGetters_iff distinct fromJson fromYaml
  have outcomes := sameOutcome_iff distinct fromJson fromYaml
  constructor
  · intro same
    obtain ⟨sections, schema⟩ :=
      getters.mp ⟨same.json, same.multipart, same.form, same.plain⟩
    exact { sections, all := outcomes.mp same.outcome, schema }
  · intro alike
    obtain ⟨json, multipart, form, plain⟩ := getters.mpr ⟨alike.sections, alike.schema⟩
    exact { outcome := outcomes.mpr alike.all, json, multipart, form, plain,
            snapshot := sameSnapshot_of_alike distinct fromJson fromYaml alike }

end Installed

/-- The two loads agree exactly when the validator refuses, or the sections of
the tree read alike in both formats. -/
theorem sameLoad_iff (cores : Nat) {outside : Outside} {manager : ConfigManager}
    {tree : ConfigTree} {jsonPath yamlPath : Text}
    (files : TwoFiles outside manager tree jsonPath yamlPath) :
    SameLoad (manager.loadFile cores outside jsonPath)
        (manager.loadFile cores outside yamlPath) ↔
      (manager.validated outside tree.toJson = .ok true → tree.Alike) := by
  obtain ⟨loadJson, isJson, loadsJson⟩ := files.jsonLoader
  obtain ⟨loadYaml, isYaml, loadsYaml⟩ := files.yamlLoader
  by_cases passes : manager.validated outside tree.toJson = .ok true
  · have passesText := files.validates ▸ passes
    have proposesJson : manager.Proposes cores outside jsonPath tree.toJson :=
      ⟨loadJson, tree.toJson, isJson, loadsJson, (deepMerge_default cores _).symm, passes⟩
    have proposesText : manager.Proposes cores outside yamlPath tree.toText :=
      ⟨loadYaml, tree.toText, isYaml, loadsYaml, (deepMerge_default cores _).symm, passesText⟩
    rw [forall_prop_of_true passes]
    exact sameLoad_of_installs files.distinct (ConfigManager.loadFile_installs proposesJson)
      (ConfigManager.loadFile_installs proposesText)
  · refine iff_of_true ?_ fun passed => absurd passed passes
    rw [ConfigManager.loadFile_of_refused isJson loadsJson passes,
      ConfigManager.loadFile_of_refused isYaml loadsYaml (files.validates ▸ passes),
      files.validates]
    exact { outcome := rfl, json := rfl, multipart := rfl, form := rfl, plain := rfl,
            snapshot := rfl }

/-- A configuration with one entry in the json section. -/
def ConfigTree.jsonEntry (key : String) (value : Scalar) : ConfigTree :=
  .mapping [("parsers".toList, .mapping [
    ("json".toList, .mapping [(key.toList, .scalar value)])]), ("core".toList, .mapping [])]

/-- The two files of a tree. -/
def ConfigTree.outside (tree : ConfigTree) : Outside where
  contents _ := some []
  parse _ := some tree.toJson
  loadYaml _ := some tree.toYaml
  load _ _ := .ok none
  validate _ := .ok (true, [])
  log _ := .ok ()

theorem ConfigTree.distinct_jsonEntry (key : String) (value : Scalar) :
    (jsonEntry key value).Distinct := by
  have inSection : ConfigTree.Distinct (.mapping [(key.toList, .scalar value)]) :=
    .mapping (by simp) (by simp [Distinct.scalar])
  have group : ConfigTree.Distinct (.mapping [("json".toList,
      .mapping [(key.toList, .scalar value)])]) := .mapping (by simp) (by simpa using inSection)
  refine .mapping (by simp) ?_
  simpa using ⟨group, .mapping (by simp) (by simp)⟩

theorem ConfigTree.twoFiles (tree : ConfigTree) (distinct : tree.Distinct) :
    TwoFiles tree.outside {} tree "server.json".toList "server.yaml".toList where
  distinct := distinct
  isJson := rfl
  isYaml := .inr rfl
  builtInJson := rfl
  builtInYaml := rfl
  parsesJson := ⟨[], rfl, rfl⟩
  parsesYaml := rfl
  validates := rfl

/-- A section which is not there can be read. -/
theorem Section.meets_of_absent {fits : Kind → ConfigTree → Bool} {part : Section}
    {groups parts : List (Text × ConfigTree)}
    (isGroup : groups.lookup part.group.toList = some (.mapping parts))
    (absent : parts.lookup part.name.toList = none) : part.Meets fits (.mapping groups) := by
  refine ⟨groups, parts, rfl, isGroup, fun members isPart => ?_⟩
  rw [absent] at isPart
  cases isPart

theorem forall_absent {T : Type} {looked : Option T} {P : T → Prop} (absent : looked = none) :
    ∀ found, looked = some found → P found := by
  intro found isFound
  rw [absent] at isFound
  cases isFound

/-- Both formats of a tree with one text can be read. -/
theorem ConfigTree.meets_charset {fits : Kind → ConfigTree → Bool} {value : Scalar}
    (fitsValue : fits .string (.scalar value) = true) :
    ∀ part ∈ Section.all, part.Meets fits (jsonEntry "charset" value) := by
  simp only [Section.all, List.forall_mem_cons]
  refine ⟨⟨_, _, rfl, rfl, ?_⟩, Section.meets_of_absent rfl rfl, Section.meets_of_absent rfl rfl,
    Section.meets_of_absent rfl rfl, Section.meets_of_absent rfl rfl,
    Section.meets_of_absent rfl rfl, by simp⟩
  rintro members isPart
  cases isPart
  simp only [Section.json, List.forall_mem_cons]
  refine ⟨forall_absent rfl, forall_absent rfl, forall_absent rfl, forall_absent rfl,
    forall_absent rfl, forall_absent rfl, forall_absent rfl, ?_, by simp⟩
  rintro member found
  cases found
  exact fitsValue

/-- A charset is loaded from both files. -/
theorem charset_sameLoad :
    let tree := ConfigTree.jsonEntry "charset" (.string "latin1".toList)
    SameLoad (({} : ConfigManager).loadFile 4 tree.outside "server.json".toList)
      (({} : ConfigManager).loadFile 4 tree.outside "server.yaml".toList) := by
  intro tree
  refine (sameLoad_iff 4 (tree.twoFiles (ConfigTree.distinct_jsonEntry _ _))).mpr fun _ => ?_
  have typed := @ConfigTree.meets_charset Kind.typed (.string "latin1".toList) rfl
  have textual := @ConfigTree.meets_charset Kind.textual (.string "latin1".toList) rfl
  refine { sections := fun part isPart => ?_, all := iff_of_true typed textual, schema := ?_ }
  · have inAll : part ∈ Section.all :=
      List.mem_append_left [Section.strandPool, Section.timerManager] isPart
    exact iff_of_true (typed part inAll) (textual part inAll)
  · rintro - groups parts members entries isTree isGroup isPart isSchema
    have isJson : ConfigTree.mapping _ = .mapping groups := isTree
    cases isJson
    cases isGroup
    cases isPart
    cases isSchema

/-- A greatest depth is loaded from the JSON file, and the load of the YAML file
throws. -/
theorem depth_not_sameLoad :
    ¬ ∀ (cores : Nat) (outside : Outside) (manager : ConfigManager) (tree : ConfigTree)
      (jsonPath yamlPath : Text), TwoFiles outside manager tree jsonPath yamlPath →
      SameLoad (manager.loadFile cores outside jsonPath)
        (manager.loadFile cores outside yamlPath) := by
  intro loadAlike
  let tree := ConfigTree.jsonEntry "maxDepth" (.integer 5)
  have outcome := (loadAlike 4 tree.outside {} tree _ _
    (tree.twoFiles (ConfigTree.distinct_jsonEntry _ _))).outcome
  have loads : (({} : ConfigManager).loadFile 4 tree.outside "server.json".toList).outcome =
      .ok true := rfl
  have throws : (({} : ConfigManager).loadFile 4 tree.outside
      "server.yaml".toList).outcome.toOption = none := rfl
  rw [SameResult, loads, throws] at outcome
  cases outcome

end Foxhttp.Config
