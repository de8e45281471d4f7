import Foxhttp.Config.Loading
import Foxhttp.Library.Entries

/-!
# One configuration in two formats

A configuration tree can be written in JSON and in YAML. `yaml_to_json` makes a
string of every scalar, so the two files give documents which differ wherever
the tree has a number or a boolean, and the typed readers tell them apart.
-/

namespace Foxhttp.Config

open Foxhttp.Library

/-! ## Trees -/

/-- The scalars of a configuration tree. A decimal has its literal and the
double it reads as. -/
inductive Scalar where
  | string (value : Text)
  | boolean (value : Bool)
  | integer (value : Int)
  | decimal (literal : Text) (bits : UInt64)

/-- A configuration, apart from how it is written. -/
inductive ConfigTree where
  | scalar (value : Scalar)
  | sequence (elements : List ConfigTree)
  | mapping (entries : List (Text × ConfigTree))

namespace Scalar

/-- What the JSON parser makes of a scalar: an integer which fits neither
integer type becomes a double. -/
def toJson : Scalar → Json
  | string value => .string value
  | boolean value => .boolean value
  | integer value =>
      if 0 ≤ value ∧ value < UInt64.size then .number (.unsigned value.toNat)
      else if Int64.minValue.toInt ≤ value ∧ value < 0 then .number (.integer value)
      else .number (.float (Float.ofInt value).toBits)
  | decimal _ bits => .number (.float bits)

/-- The text of a scalar in YAML. -/
def text : Scalar → Text
  | string value => value
  | boolean value => if value then "true".toList else "false".toList
  | integer value => (toString value).toList
  | decimal literal _ => literal

/-- What `yaml_to_json` makes of a scalar. -/
def toText (scalar : Scalar) : Json :=
  .string scalar.text

end Scalar

namespace ConfigTree

mutual

/-- The document of a tree, with a document for every scalar. -/
def render (leaf : Scalar → Json) : ConfigTree → Json
  | .scalar value => leaf value
  | .sequence elements => .array (renderElements leaf elements)
  | .mapping entries => .object (renderEntries leaf [] entries)

/-- The documents of the elements of a sequence. -/
def renderElements (leaf : Scalar → Json) : List ConfigTree → List Json
  | [] => []
  | element :: rest => render leaf element :: renderElements leaf rest

/-- The members of a mapping, in addition to those before. -/
def renderEntries (leaf : Scalar → Json) (members : List (Text × Json)) :
    List (Text × ConfigTree) → List (Text × Json)
  | [] => members
  | entry :: rest =>
      renderEntries leaf (Json.setMember entry.1 (renderEntry leaf entry) members) rest

/-- The document of the value of an entry. -/
def renderEntry (leaf : Scalar → Json) : Text × ConfigTree → Json
  | (_, value) => render leaf value

end

/-- What `nlohmann::json::parse` makes of the JSON text of a tree. -/
def toJson : ConfigTree → Json :=
  render Scalar.toJson

/-- What `yaml_to_json` makes of the YAML nodes of a tree. -/
def toText : ConfigTree → Json :=
  render Scalar.toText

mutual

/-- The nodes of the YAML text of a tree. -/
def toYaml : ConfigTree → YamlNode
  | .scalar value => .scalar value.text
  | .sequence elements => .sequence (yamlOfElements elements)
  | .mapping entries => .map (yamlOfEntries entries)

/-- The nodes of the elements of a sequence. -/
def yamlOfElements : List ConfigTree → List YamlNode
  | [] => []
  | element :: rest => toYaml element :: yamlOfElements rest

/-- The nodes of the entries of a mapping. -/
def yamlOfEntries : List (Text × ConfigTree) → List (YamlNode × YamlNode)
  | [] => []
  | entry :: rest => yamlOfEntry entry :: yamlOfEntries rest

/-- The nodes of an entry. -/
def yamlOfEntry : Text × ConfigTree → YamlNode × YamlNode
  | (key, value) => (.scalar key, toYaml value)

end

/-- No mapping of the tree has a key twice. -/
inductive Distinct : ConfigTree → Prop where
  | scalar (value : Scalar) : Distinct (.scalar value)
  | sequence {elements} (each : ∀ element ∈ elements, Distinct element) :
      Distinct (.sequence elements)
  | mapping {entries} (keys : (entries.map Prod.fst).Nodup)
      (each : ∀ entry ∈ entries, Distinct entry.2) : Distinct (.mapping entries)

/-- Every scalar of the tree is a string. -/
inductive StringsOnly : ConfigTree → Prop where
  | string (value : Text) : StringsOnly (.scalar (.string value))
  | sequence {elements} (each : ∀ element ∈ elements, StringsOnly element) :
      StringsOnly (.sequence elements)
  | mapping {entries} (each : ∀ entry ∈ entries, StringsOnly entry.2) :
      StringsOnly (.mapping entries)

mutual

/-- The YAML nodes of a tree convert to its document of texts. -/
theorem yamlToJson_toYaml : ∀ tree, yamlToJson (toYaml tree) = some (toText tree)
  | .scalar value => rfl
  | .sequence elements => by
      rw [toYaml, yamlToJson, yamlElements_toYaml elements]
      rfl
  | .mapping entries => by
      rw [toYaml, yamlToJson, yamlEntries_toYaml entries []]
      rfl

theorem yamlElements_toYaml : ∀ elements,
    yamlElements (yamlOfElements elements) = some (renderElements Scalar.toText elements)
  | [] => rfl
  | element :: rest => by
      rw [yamlOfElements, yamlElements, yamlToJson_toYaml element]
      simp only [yamlElements_toYaml rest]
      rfl

theorem yamlEntries_toYaml : ∀ entries members,
    yamlEntries members (yamlOfEntries entries) =
      some (renderEntries Scalar.toText members entries)
  | [], members => rfl
  | entry :: rest, members => by
      rw [yamlOfEntries, yamlEntries, yamlEntry_toYaml entry]
      exact yamlEntries_toYaml rest _

theorem yamlEntry_toYaml : ∀ entry : Text × ConfigTree,
    yamlEntry (yamlOfEntry entry) = some (entry.1, renderEntry Scalar.toText entry)
  | (key, value) => by
      rw [yamlOfEntry, yamlEntry, yamlToJson_toYaml value]
      rfl

end

/-! ## Members of a document -/

theorem lookup_setMember (key other : Text) (value : Json) (members : List (Text × Json)) :
    (Json.setMember key value members).lookup other =
      if other = key then some value else members.lookup other := by
  induction members with
  | nil =>
      rw [Json.setMember]
      split
      · rename_i isKey
        rw [isKey, List.lookup_cons_self]
      · rename_i different
        rw [lookup_cons_of_ne different]
  | cons member members inductionHypothesis =>
      obtain ⟨held, old⟩ := member
      by_cases isKey : other = key
      · subst isKey
        rw [if_pos rfl, Json.setMember]
        split
        · rw [List.lookup_cons_self]
        · rename_i notHeld
          split
          · rw [List.lookup_cons_self]
          · rw [lookup_cons_of_ne notHeld, inductionHypothesis, if_pos rfl]
      · rw [if_neg isKey, Json.setMember]
        split
        · rename_i isHeld
          rw [lookup_cons_of_ne isKey, ← isHeld, lookup_cons_of_ne isKey]
        · split
          · rw [lookup_cons_of_ne isKey]
          · rw [List.lookup_cons, List.lookup_cons, inductionHypothesis, if_neg isKey]

variable {leaf : Scalar → Json}

theorem renderElements_eq (elements : List ConfigTree) :
    renderElements leaf elements = elements.map (render leaf) := by
  induction elements with
  | nil => rfl
  | cons element rest inductionHypothesis =>
      rw [renderElements, inductionHypothesis, List.map_cons]

/-- The members of a mapping are found under its keys. -/
theorem lookup_renderEntries {entries : List (Text × ConfigTree)}
    (keys : (entries.map Prod.fst).Nodup) (members : List (Text × Json)) (key : Text) :
    (renderEntries leaf members entries).lookup key =
      ((entries.lookup key).map (render leaf)).or (members.lookup key) := by
  induction entries generalizing members with
  | nil => rfl
  | cons entry rest inductionHypothesis =>
      obtain ⟨held, value⟩ := entry
      obtain ⟨fresh, later⟩ := List.nodup_cons.mp keys
      rw [renderEntries, inductionHypothesis later, lookup_setMember]
      by_cases isHeld : key = held
      · subst isHeld
        have absent : rest.lookup key = none := by
          rw [List.lookup_eq_none_iff]
          rintro ⟨other, tree⟩ member
          rw [bne_iff_ne]
          rintro rfl
          exact fresh (List.mem_map.mpr ⟨_, member, rfl⟩)
        rw [absent, if_pos rfl, List.lookup_cons_self]
        rfl
      · rw [if_neg isHeld, lookup_cons_of_ne isHeld]

/-- The member of an object under a key, of the value in the tree. -/
theorem lookup_render {entries : List (Text × ConfigTree)}
    (keys : (entries.map Prod.fst).Nodup) (key : Text) :
    (renderEntries leaf [] entries).lookup key = (entries.lookup key).map (render leaf) := by
  rw [lookup_renderEntries keys, List.lookup_nil, Option.or_none]

/-- Only a mapping is rendered as an object, when no scalar is. -/
theorem render_eq_object {tree : ConfigTree} {members : List (Text × Json)}
    (plain : ∀ value object, leaf value ≠ .object object) :
    render leaf tree = .object members ↔
      ∃ entries, tree = .mapping entries ∧ members = renderEntries leaf [] entries := by
  constructor
  · intro rendered
    cases tree with
    | scalar value => exact absurd rendered (plain value members)
    | sequence elements => cases rendered
    | mapping entries =>
        cases rendered
        exact ⟨entries, rfl, rfl⟩
  · rintro ⟨entries, rfl, rfl⟩
    rfl

theorem toJson_plain (value : Scalar) (object : List (Text × Json)) :
    value.toJson ≠ .object object := by
  cases value with
  | integer value =>
      rw [Scalar.toJson]
      split
      · nofun
      · split <;> nofun
  | string value => nofun
  | boolean value => nofun
  | decimal literal bits => nofun

theorem toText_plain (value : Scalar) (object : List (Text × Json)) :
    value.toText ≠ .object object :=
  nofun

/-! ## Trees which both formats agree on -/

theorem renderEntry_eq (entry : Text × ConfigTree) :
    renderEntry leaf entry = render leaf entry.2 := by
  cases entry
  rfl

theorem renderEntries_congr {first second : Scalar → Json} {entries : List (Text × ConfigTree)}
    (same : ∀ entry ∈ entries, render first entry.2 = render second entry.2)
    (members : List (Text × Json)) :
    renderEntries first members entries = renderEntries second members entries := by
  induction entries generalizing members with
  | nil => rfl
  | cons entry rest inductionHypothesis =>
      obtain ⟨here, later⟩ := List.forall_mem_cons.mp same
      rw [renderEntries, renderEntries, inductionHypothesis later, renderEntry_eq, renderEntry_eq,
        here]

/-- Both formats give one document exactly for the trees of strings. -/
theorem toJson_eq_toText_iff {tree : ConfigTree} (distinct : tree.Distinct) :
    tree.toJson = tree.toText ↔ tree.StringsOnly := by
  induction distinct with
  | scalar value =>
      constructor
      · intro same
        cases value with
        | string value => exact .string value
        | boolean value => cases same
        | decimal literal bits => cases same
        | integer value =>
            simp only [toJson, toText, render, Scalar.toJson, Scalar.toText] at same
            split at same
            · cases same
            · split at same <;> cases same
      · rintro ⟨value⟩
        rfl
  | @sequence elements each inductionHypothesis =>
      rw [toJson, toText, render, render, renderElements_eq, renderElements_eq,
        Library.Json.Value.array.injEq, List.map_inj_left]
      constructor
      · intro same
        exact .sequence fun element member => (inductionHypothesis element member).mp
          (same element member)
      · rintro (_ | strings | _) element member
        exact (inductionHypothesis element member).mpr (strings element member)
  | @mapping entries keys each inductionHypothesis =>
      constructor
      · intro same
        refine .mapping fun entry member => (inductionHypothesis entry member).mp ?_
        have members : renderEntries Scalar.toJson [] entries =
            renderEntries Scalar.toText [] entries := Library.Json.Value.object.inj same
        have found := congrArg (List.lookup entry.1) members
        rw [lookup_render keys, lookup_render keys, lookup_of_mem keys member] at found
        exact Option.some.inj found
      · rintro (_ | _ | strings)
        refine congrArg Library.Json.Value.object (renderEntries_congr (fun entry member => ?_) [])
        exact (inductionHypothesis entry member).mpr (strings entry member)

end ConfigTree

end Foxhttp.Config
