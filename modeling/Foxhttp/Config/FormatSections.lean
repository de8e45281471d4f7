import Foxhttp.Config.Formats

/-!
# Reading the sections of a tree from either format

A section can be read from the JSON document of a tree when every key has a
value of its type. From the YAML document it can be read when no key with a
number or a boolean is there, since every scalar is a text. Where it can be read
from both, both give the same configuration, less the schema of the json
section.
-/

namespace Foxhttp.Config

open Foxhttp.Library

/-! ## What the readers take of a tree -/

namespace ConfigTree

/-- Whether the tree is a scalar. -/
def isScalar : ConfigTree → Bool
  | .scalar _ => true
  | _ => false

/-- Whether the tree is a string. -/
def isText : ConfigTree → Bool
  | .scalar (.string _) => true
  | _ => false

end ConfigTree

/-- What is converted to a kind when it comes from JSON. -/
def Kind.typed : Kind → ConfigTree → Bool
  | .size, .scalar (.integer _) | .size, .scalar (.decimal _ _) => true
  | .double, .scalar (.integer _) | .double, .scalar (.decimal _ _) => true
  | .int, .scalar (.integer _) | .int, .scalar (.decimal _ _) => true
  | .int, .scalar (.boolean _) | .bool, .scalar (.boolean _) => true
  | .string, tree => tree.isText
  | .strings, .sequence elements => elements.all ConfigTree.isText
  | _, _ => false

/-- What is converted to a kind when it comes from YAML. -/
def Kind.textual : Kind → ConfigTree → Bool
  | .string, tree => tree.isScalar
  | .strings, .sequence elements => elements.all ConfigTree.isScalar
  | _, _ => false

/-- The tree has the group of a section, and every key of the section fits when
the section is a mapping. -/
def Section.Meets (fits : Kind → ConfigTree → Bool) (part : Section) (tree : ConfigTree) : Prop :=
  ∃ groups parts, tree = .mapping groups ∧
    groups.lookup part.group.toList = some (.mapping parts) ∧
    ∀ members, parts.lookup part.name.toList = some (.mapping members) →
      ∀ key ∈ part.keys, ∀ member, members.lookup key.1.toList = some member →
        fits key.2 member = true

namespace ConfigTree

theorem accepts_scalar_toJson (kind : Kind) (value : Scalar) :
    kind.accepts value.toJson = kind.typed (.scalar value) := by
  cases value with
  | integer value =>
      rw [Scalar.toJson]
      split
      · cases kind <;> rfl
      · split <;> cases kind <;> rfl
  | string value => cases kind <;> rfl
  | boolean value => cases kind <;> rfl
  | decimal literal bits => cases kind <;> rfl

theorem isString_toJson (tree : ConfigTree) : tree.toJson.isString = tree.isText := by
  cases tree with
  | scalar value => exact accepts_scalar_toJson .string value
  | sequence elements => rfl
  | mapping entries => rfl

theorem isString_toText (tree : ConfigTree) : tree.toText.isString = tree.isScalar := by
  cases tree <;> rfl

theorem accepts_toJson (kind : Kind) (tree : ConfigTree) :
    kind.accepts tree.toJson = kind.typed tree := by
  cases tree with
  | scalar value => exact accepts_scalar_toJson kind value
  | sequence elements =>
      cases kind with
      | strings =>
          rw [toJson, render, renderElements_eq, Kind.accepts, List.all_map, Kind.typed]
          exact congrArg elements.all (funext isString_toJson)
      | _ => rfl
  | mapping entries => cases kind <;> rfl

theorem accepts_toText (kind : Kind) (tree : ConfigTree) :
    kind.accepts tree.toText = kind.textual tree := by
  cases tree with
  | scalar value => cases kind <;> rfl
  | sequence elements =>
      cases kind with
      | strings =>
          rw [toText, render, renderElements_eq, Kind.accepts, List.all_map, Kind.textual]
          exact congrArg elements.all (funext isString_toText)
      | _ => rfl
  | mapping entries => cases kind <;> rfl

theorem toJson_eq_toText_of_isText {tree : ConfigTree} (text : tree.isText = true) :
    tree.toJson = tree.toText := by
  cases tree with
  | scalar value =>
      cases value with
      | string value => rfl
      | _ => cases text
  | _ => cases text

/-- What both readers take is the same in both documents. -/
theorem toJson_eq_toText_of_both {kind : Kind} {tree : ConfigTree}
    (typed : kind.typed tree = true) (textual : kind.textual tree = true) :
    tree.toJson = tree.toText := by
  cases kind with
  | string => exact toJson_eq_toText_of_isText typed
  | strings =>
      cases tree with
      | sequence elements =>
          rw [Kind.typed, List.all_eq_true] at typed
          rw [toJson, toText, render, render, renderElements_eq, renderElements_eq]
          exact congrArg Library.Json.Value.array (List.map_congr_left fun element member =>
            toJson_eq_toText_of_isText (typed element member))
      | _ => cases typed
  | _ => cases textual

/-! ## Sections of a tree -/

theorem Distinct.keys {entries : List (Text × ConfigTree)}
    (distinct : (ConfigTree.mapping entries).Distinct) : (entries.map Prod.fst).Nodup := by
  cases distinct with
  | mapping keys each => exact keys

theorem Distinct.value {entries : List (Text × ConfigTree)}
    (distinct : (ConfigTree.mapping entries).Distinct) {key : Text} {value : ConfigTree}
    (found : entries.lookup key = some value) : value.Distinct := by
  cases distinct with
  | mapping keys each => exact each _ (mem_of_lookup found)

variable {leaf : Scalar → Json}

/-- An object in a document is a mapping in the tree. -/
theorem lookup_render_object (plain : ∀ value object, leaf value ≠ .object object)
    {entries : List (Text × ConfigTree)} (keys : (entries.map Prod.fst).Nodup) (key : Text)
    (members : List (Text × Json)) :
    (renderEntries leaf [] entries).lookup key = some (.object members) ↔
      ∃ inner, entries.lookup key = some (.mapping inner) ∧
        members = renderEntries leaf [] inner := by
  rw [lookup_render keys, Option.map_eq_some_iff]
  constructor
  · rintro ⟨value, found, rendered⟩
    obtain ⟨inner, rfl, same⟩ := (render_eq_object plain).mp rendered
    exact ⟨inner, found, same⟩
  · rintro ⟨inner, found, rfl⟩
    exact ⟨.mapping inner, found, rfl⟩

/-- A section of a document can be read when it meets what the readers take. -/
theorem readable_render_iff (plain : ∀ value object, leaf value ≠ .object object)
    {fits : Kind → ConfigTree → Bool}
    (accepts : ∀ kind tree, kind.accepts (render leaf tree) = fits kind tree)
    {tree : ConfigTree} (distinct : tree.Distinct) (part : Section) :
    part.Readable (render leaf tree) ↔ part.Meets fits tree := by
  constructor
  · rintro ⟨_, _, isDocument, inDocument, readable⟩
    obtain ⟨groups, rfl, rfl⟩ := (render_eq_object plain).mp isDocument
    obtain ⟨parts, isGroup, rfl⟩ := (lookup_render_object plain distinct.keys _ _).mp inDocument
    have partsDistinct := distinct.value isGroup
    refine ⟨groups, parts, rfl, isGroup, fun members isPart key isKey member found => ?_⟩
    have isSection := (lookup_render_object plain partsDistinct.keys _ _).mpr ⟨members, isPart, rfl⟩
    rw [← accepts]
    refine readable _ isSection key isKey _ ?_
    rw [lookup_render (partsDistinct.value isPart).keys, found, Option.map_some]
  · rintro ⟨groups, parts, rfl, isGroup, meets⟩
    have partsDistinct := distinct.value isGroup
    refine ⟨_, _, rfl, (lookup_render_object plain distinct.keys _ _).mpr ⟨parts, isGroup, rfl⟩,
      fun _ isSection key isKey _ rendered => ?_⟩
    obtain ⟨members, isPart, rfl⟩ :=
      (lookup_render_object plain partsDistinct.keys _ _).mp isSection
    rw [lookup_render (partsDistinct.value isPart).keys, Option.map_eq_some_iff] at rendered
    obtain ⟨value, found, rfl⟩ := rendered
    rw [accepts]
    exact meets members isPart key isKey value found

theorem readable_toJson_iff {tree : ConfigTree} (distinct : tree.Distinct) (part : Section) :
    part.Readable tree.toJson ↔ part.Meets Kind.typed tree :=
  readable_render_iff toJson_plain accepts_toJson distinct part

theorem readable_toText_iff {tree : ConfigTree} (distinct : tree.Distinct) (part : Section) :
    part.Readable tree.toText ↔ part.Meets Kind.textual tree :=
  readable_render_iff toText_plain accepts_toText distinct part

/-! ## What the readers make of a section -/

theorem value_getJson {key : String} {default found : Json} {members : List (Text × Json)}
    (isFound : members.lookup key.toList = some found) :
    Json.value Json.getJson key default (.object members) = .ok found := by
  rw [Json.value, isFound]
  rfl

theorem value_absent {key : String} {default : Json} {members : List (Text × Json)}
    (absent : members.lookup key.toList = none) :
    Json.value Json.getJson key default (.object members) = .ok default := by
  rw [Json.value, absent]

section Reading

variable {Config : Type} (part : Section) (default : Config)
  (read : Json → Except TypeError Config) {groups parts : List (Text × ConfigTree)}
  (distinct : (mapping groups).Distinct)
  (isGroup : groups.lookup part.group.toList = some (.mapping parts))

include distinct isGroup

/-- The frame of the readers, past the group. -/
theorem readSection_render :
    readSection part.group part.name default read (render leaf (.mapping groups)) = (do
      let json ← Json.value Json.getJson part.name .null (render leaf (.mapping parts))
      if json.isObject then read json else return default) := by
  have inGroup : (renderEntries leaf [] groups).lookup part.group.toList =
      some (render leaf (.mapping parts)) := by
    rw [lookup_render distinct.keys, isGroup, Option.map_some]
  rw [readSection, render, value_getJson inGroup]
  rfl

/-- A section which is a mapping is read. -/
theorem readSection_mapping {members : List (Text × ConfigTree)}
    (isPart : parts.lookup part.name.toList = some (.mapping members)) :
    readSection part.group part.name default read (render leaf (.mapping groups)) =
      read (.object (renderEntries leaf [] members)) := by
  have inPart : (renderEntries leaf [] parts).lookup part.name.toList =
      some (render leaf (.mapping members)) := by
    rw [lookup_render (distinct.value isGroup).keys, isPart, Option.map_some]
  rw [readSection_render part default read distinct isGroup, render, value_getJson inPart]
  rfl

/-- Any other section gives the defaults. -/
theorem readSection_default (plain : ∀ value object, leaf value ≠ .object object)
    (noPart : ∀ members, parts.lookup part.name.toList ≠ some (.mapping members)) :
    readSection part.group part.name default read (render leaf (.mapping groups)) =
      .ok default := by
  have inPart := @lookup_render leaf _ (distinct.value isGroup).keys part.name.toList
  rw [readSection_render part default read distinct isGroup, render]
  cases found : parts.lookup part.name.toList with
  | none =>
      rw [found] at inPart
      rw [value_absent inPart]
      rfl
  | some tree =>
      rw [found] at inPart
      rw [value_getJson inPart]
      cases rendered : render leaf tree with
      | object members =>
          obtain ⟨inner, rfl, -⟩ := (render_eq_object plain).mp rendered
          exact absurd found (noPart inner)
      | _ => rfl

end Reading

/-! ## Sections which both formats can be read from -/

/-- Each key of a section has the same member in both objects, or none. -/
def SameAt (part : Section) (members others : List (Text × Json)) : Prop :=
  ∀ key ∈ part.keys, members.lookup key.1.toList = others.lookup key.1.toList

section Both

variable {Config : Type} (part : Section) {default : Config}
  {read : Json → Except TypeError Config} {tree : ConfigTree} (distinct : tree.Distinct)
  (typed : part.Meets Kind.typed tree)

include distinct typed

/-- The readings agree when they agree on the mapping of the section. -/
theorem readSection_congr
    (same : ∀ groups parts members, tree = .mapping groups →
      groups.lookup part.group.toList = some (.mapping parts) →
      parts.lookup part.name.toList = some (.mapping members) →
      read (.object (renderEntries Scalar.toJson [] members)) =
        read (.object (renderEntries Scalar.toText [] members))) :
    readSection part.group part.name default read tree.toJson =
      readSection part.group part.name default read tree.toText := by
  obtain ⟨groups, parts, rfl, isGroup, -⟩ := typed
  by_cases isPart : ∃ members, parts.lookup part.name.toList = some (.mapping members)
  · obtain ⟨members, isPart⟩ := isPart
    rw [toJson, toText, readSection_mapping part default read distinct isGroup isPart,
      readSection_mapping part default read distinct isGroup isPart]
    exact same groups parts members rfl isGroup isPart
  · have noPart := not_exists.mp isPart
    rw [toJson, toText, readSection_default part default read distinct isGroup toJson_plain noPart,
      readSection_default part default read distinct isGroup toText_plain noPart]

variable (textual : part.Meets Kind.textual tree)

include textual

/-- A member which both readers take is the same in both documents. -/
theorem sameAt_of_meets {groups parts members : List (Text × ConfigTree)}
    (isTree : tree = .mapping groups)
    (isGroup : groups.lookup part.group.toList = some (.mapping parts))
    (isPart : parts.lookup part.name.toList = some (.mapping members)) :
    SameAt part (renderEntries Scalar.toJson [] members)
      (renderEntries Scalar.toText [] members) := by
  subst isTree
  obtain ⟨_, _, isTyped, inTyped, fitsTyped⟩ := typed
  cases isTyped
  cases isGroup.symm.trans inTyped
  obtain ⟨_, _, isTextual, inTextual, fitsTextual⟩ := textual
  cases isTextual
  cases isGroup.symm.trans inTextual
  have keys := ((distinct.value isGroup).value isPart).keys
  intro key isKey
  rw [lookup_render keys, lookup_render keys]
  cases found : members.lookup key.1.toList with
  | none => rfl
  | some member =>
      exact congrArg some (toJson_eq_toText_of_both
        (fitsTyped members isPart key isKey member found)
        (fitsTextual members isPart key isKey member found))

/-- A reader which looks at the keys of its section alone reads the same. -/
theorem readSection_agree
    (same : ∀ members others, SameAt part members others →
      read (.object members) = read (.object others)) :
    readSection part.group part.name default read tree.toJson =
      readSection part.group part.name default read tree.toText :=
  readSection_congr part distinct typed fun _ _ _ isTree isGroup isPart =>
    same _ _ (sameAt_of_meets part distinct typed textual isTree isGroup isPart)

end Both

variable {tree : ConfigTree} (distinct : tree.Distinct)

include distinct

theorem multipart_agree (typed : Section.multipart.Meets Kind.typed tree)
    (textual : Section.multipart.Meets Kind.textual tree) :
    multipartFromDoc tree.toJson = multipartFromDoc tree.toText := by
  refine readSection_agree .multipart distinct typed textual fun members others same => ?_
  simp only [SameAt, Section.multipart, List.forall_mem_cons] at same
  simp only [Json.value, Json.contained, Json.find, same]

theorem form_agree (typed : Section.form.Meets Kind.typed tree)
    (textual : Section.form.Meets Kind.textual tree) :
    formFromDoc tree.toJson = formFromDoc tree.toText := by
  refine readSection_agree .form distinct typed textual fun members others same => ?_
  simp only [SameAt, Section.form, List.forall_mem_cons] at same
  simp only [Json.value, same]

theorem plain_agree (typed : Section.plain.Meets Kind.typed tree)
    (textual : Section.plain.Meets Kind.textual tree) :
    plainFromDoc tree.toJson = plainFromDoc tree.toText := by
  refine readSection_agree .plain distinct typed textual fun members others same => ?_
  simp only [SameAt, Section.plain, List.forall_mem_cons] at same
  simp only [Json.value, Json.contained, Json.find, same]

theorem strandPool_agree (cores : Nat) (typed : Section.strandPool.Meets Kind.typed tree)
    (textual : Section.strandPool.Meets Kind.textual tree) :
    strandPoolFromDoc cores tree.toJson = strandPoolFromDoc cores tree.toText := by
  refine readSection_agree .strandPool distinct typed textual fun members others same => ?_
  simp only [SameAt, Section.strandPool, List.forall_mem_cons] at same
  simp only [Json.value, same]

theorem timer_agree (typed : Section.timerManager.Meets Kind.typed tree)
    (textual : Section.timerManager.Meets Kind.textual tree) :
    timerFromDoc tree.toJson = timerFromDoc tree.toText := by
  refine readSection_agree .timerManager distinct typed textual fun members others same => ?_
  simp only [SameAt, Section.timerManager, List.forall_mem_cons] at same
  simp only [Json.value, same]

omit distinct

/-- What the reader of the json section takes as its schema. -/
def schemaOf (members : List (Text × Json)) : Json :=
  match members.lookup "schema".toList with
  | some schema => if schema.isObject then schema else .null
  | none => .null

/-- The schema of the json section, when it is a mapping, has no scalar but
strings. -/
def TextSchema (tree : ConfigTree) : Prop :=
  ∀ groups parts members entries, tree = .mapping groups →
    groups.lookup "parsers".toList = some (.mapping parts) →
    parts.lookup "json".toList = some (.mapping members) →
    members.lookup "schema".toList = some (.mapping entries) →
    (ConfigTree.mapping entries).StringsOnly

theorem schemaOf_mapping {members entries : List (Text × ConfigTree)}
    (keys : (members.map Prod.fst).Nodup)
    (isSchema : members.lookup "schema".toList = some (.mapping entries)) :
    schemaOf (renderEntries leaf [] members) = render leaf (.mapping entries) := by
  rw [schemaOf, lookup_render keys, isSchema]
  rfl

theorem schemaOf_default (plain : ∀ value object, leaf value ≠ .object object)
    {members : List (Text × ConfigTree)} (keys : (members.map Prod.fst).Nodup)
    (noSchema : ∀ entries, members.lookup "schema".toList ≠ some (.mapping entries)) :
    schemaOf (renderEntries leaf [] members) = .null := by
  rw [schemaOf, lookup_render keys]
  cases found : members.lookup "schema".toList with
  | none => rfl
  | some tree =>
      rw [Option.map_some]
      cases rendered : render leaf tree with
      | object schema =>
          obtain ⟨entries, rfl, -⟩ := (render_eq_object plain).mp rendered
          exact absurd found (noSchema entries)
      | _ => rfl

section JsonSection

variable (distinct : tree.Distinct) (typed : Section.json.Meets Kind.typed tree)
  (textual : Section.json.Meets Kind.textual tree)

include distinct

/-- The schema which is read. -/
theorem schema_of_jsonFromDoc {groups parts members : List (Text × ConfigTree)}
    (isTree : tree = .mapping groups)
    (isGroup : groups.lookup Section.json.group.toList = some (.mapping parts))
    (isPart : parts.lookup Section.json.name.toList = some (.mapping members))
    {config : JsonConfig} (isRead : jsonFromDoc (render leaf tree) = .ok config) :
    config.schema = schemaOf (renderEntries leaf [] members) := by
  subst isTree
  rw [jsonFromDoc] at isRead
  have found := (readSection_mapping .json _ _ distinct isGroup isPart).symm.trans isRead
  simp only [bind_eq_ok] at found
  obtain ⟨_, _, _, _, _, _, _, _, _, _, _, _, _, _, _, _, same⟩ := found
  cases same
  rfl

include typed textual

/-- The json section is read the same exactly when its schema is a tree of
strings. -/
theorem json_agree_iff :
    jsonFromDoc tree.toJson = jsonFromDoc tree.toText ↔ TextSchema tree := by
  constructor
  · intro same groups parts members entries isTree isGroup isPart isSchema
    obtain ⟨config, isRead⟩ :=
      (reads_jsonFromDoc _).mpr ((readable_toJson_iff distinct .json).mpr typed)
    have membersDistinct := ((isTree ▸ distinct).value isGroup).value isPart
    have fromJson := schema_of_jsonFromDoc distinct isTree isGroup isPart isRead
    have fromText := schema_of_jsonFromDoc distinct isTree isGroup isPart (same ▸ isRead)
    rw [schemaOf_mapping membersDistinct.keys isSchema] at fromJson fromText
    exact (toJson_eq_toText_iff (membersDistinct.value isSchema)).mp
      (fromJson.symm.trans fromText)
  · intro textSchema
    refine readSection_congr .json distinct typed
      fun groups parts members isTree isGroup isPart => ?_
    have same := sameAt_of_meets .json distinct typed textual isTree isGroup isPart
    have membersDistinct := ((isTree ▸ distinct).value isGroup).value isPart
    have sameSchema : schemaOf (renderEntries Scalar.toJson [] members) =
        schemaOf (renderEntries Scalar.toText [] members) := by
      by_cases isSchema : ∃ entries, members.lookup "schema".toList = some (.mapping entries)
      · obtain ⟨entries, isSchema⟩ := isSchema
        rw [schemaOf_mapping membersDistinct.keys isSchema,
          schemaOf_mapping membersDistinct.keys isSchema]
        exact (toJson_eq_toText_iff (membersDistinct.value isSchema)).mpr
          (textSchema groups parts members entries isTree isGroup isPart isSchema)
      · have noSchema := not_exists.mp isSchema
        rw [schemaOf_default toJson_plain membersDistinct.keys noSchema,
          schemaOf_default toText_plain membersDistinct.keys noSchema]
    simp only [SameAt, Section.json, List.forall_mem_cons] at same
    simp only [Json.value, same]
    refine bind_congr fun maxSize => bind_congr fun maxDepth => bind_congr fun strictMode =>
      bind_congr fun allowComments => bind_congr fun allowTrailingCommas =>
      bind_congr fun allowDuplicateKeys => bind_congr fun validateSchema =>
      bind_congr fun charset => ?_
    let config (schema : Json) : JsonConfig :=
      { maxSize, maxDepth, strictMode, allowComments, allowTrailingCommas, allowDuplicateKeys,
        validateSchema, schema, charset }
    exact congrArg (Except.ok ∘ config) sameSchema

end JsonSection

end ConfigTree

end Foxhttp.Config
