import Foxhttp.Config.Formats
import Mathlib.Data.Char
import Mathlib.Data.List.Lex

/-!
# Merging documents

`deep_merge` lays a source over a destination: what is not an object is replaced
whole, and objects are merged member by member. An object is a `std::map`, so
what it holds is known by what is found under each key.
-/

namespace Foxhttp.Config

open Foxhttp.Library

namespace Json

/-! ## Objects in the order of their keys -/

/-- Every object within a value has its members in the order of their keys. -/
inductive Ordered : Json → Prop where
  | null : Ordered .null
  | boolean (value : Bool) : Ordered (.boolean value)
  | number (value : Number) : Ordered (.number value)
  | string (value : Text) : Ordered (.string value)
  | array {elements : List Json} (each : ∀ element ∈ elements, Ordered element) :
      Ordered (.array elements)
  | object {members : List (Text × Json)} (keys : KeysIncrease members)
      (each : ∀ member ∈ members, Ordered member.2) : Ordered (.object members)

/-- The order of the keys is the one of lists of characters. -/
theorem keyBefore_iff (first second : Text) : keyBefore first second = true ↔ first < second := by
  induction first generalizing second with
  | nil => cases second <;> simp [keyBefore]
  | cons c first inductionHypothesis =>
      cases second with
      | nil => simp [keyBefore]
      | cons d second =>
          rw [keyBefore, List.cons_lt_cons_iff]
          split
          · rename_i same
            simp [same, inductionHypothesis]
          · rename_i different
            have isBefore : c.toNat < d.toNat ↔ c < d := Iff.rfl
            simp [different, isBefore]

theorem not_keyBefore_of_ne {key other : Text} (different : key ≠ other)
    (notBefore : ¬ keyBefore key other = true) : other < key := by
  rw [keyBefore_iff] at notBefore
  exact lt_of_le_of_ne (not_lt.mp notBefore) different.symm

theorem mem_setMember {key : Text} {value : Json} {members : List (Text × Json)}
    {member : Text × Json} (isMember : member ∈ setMember key value members) :
    member = (key, value) ∨ member ∈ members := by
  induction members with
  | nil => exact .inl (List.mem_singleton.mp isMember)
  | cons held rest inductionHypothesis =>
      rw [setMember] at isMember
      split at isMember
      · rcases List.mem_cons.mp isMember with isNew | isRest
        · exact .inl isNew
        · exact .inr (List.mem_cons_of_mem _ isRest)
      · split at isMember
        · exact List.mem_cons.mp isMember
        · rcases List.mem_cons.mp isMember with isHeld | isLater
          · exact .inr (isHeld ▸ List.mem_cons_self)
          · exact (inductionHypothesis isLater).imp id (List.mem_cons_of_mem _)

theorem keysIncrease_setMember (key : Text) (value : Json) {members : List (Text × Json)}
    (increase : KeysIncrease members) : KeysIncrease (setMember key value members) := by
  induction members with
  | nil => exact List.pairwise_singleton _ _
  | cons held rest inductionHypothesis =>
      obtain ⟨first, later⟩ := List.pairwise_cons.mp increase
      rw [setMember]
      split
      · rename_i same
        rw [same]
        exact List.pairwise_cons.mpr ⟨first, later⟩
      · rename_i different
        split
        · rename_i before
          rw [keyBefore_iff] at before
          refine List.pairwise_cons.mpr ⟨fun member isMember => ?_, increase⟩
          rcases List.mem_cons.mp isMember with rfl | isLater
          · exact before
          · exact before.trans (first member isLater)
        · rename_i notBefore
          refine List.pairwise_cons.mpr ⟨fun member isMember => ?_, inductionHypothesis later⟩
          rcases mem_setMember isMember with rfl | isLater
          · exact not_keyBefore_of_ne different notBefore
          · exact first member isLater

theorem ordered_setMember {key : Text} {value : Json} {members : List (Text × Json)}
    (valueOrdered : Ordered value) (ordered : Ordered (.object members)) :
    Ordered (.object (setMember key value members)) := by
  cases ordered with
  | object keys each =>
      refine .object (keysIncrease_setMember key value keys) fun member isMember => ?_
      rcases mem_setMember isMember with rfl | isOld
      · exact valueOrdered
      · exact each member isOld

/-- What an initializer list builds is ordered. -/
theorem ordered_ofMembers {members : List (String × Json)}
    (each : ∀ member ∈ members, Ordered member.2) : (ofMembers members).Ordered := by
  rw [ofMembers]
  have empty : Ordered (.object []) := .object List.Pairwise.nil (List.forall_mem_nil _)
  generalize ([] : List (Text × Json)) = built at empty
  induction members generalizing built with
  | nil => exact empty
  | cons member rest inductionHypothesis =>
      exact inductionHypothesis (fun other isLater => each other (List.mem_cons_of_mem _ isLater))
        _ (ordered_setMember (each member List.mem_cons_self) empty)

theorem Ordered.found {members : List (Text × Json)} (ordered : Ordered (.object members))
    {key : Text} {value : Json} (found : members.lookup key = some value) : Ordered value := by
  cases ordered with
  | object keys each => exact each _ (mem_of_lookup found)

/-! ## The merge under a key -/

/-- What an overlay of one value by another holds under a key. -/
def laidOver : Option Json → Option Json → Option Json
  | some old, some new =>
      some (if old.isObject && new.isObject then deepMerge old new else new)
  | some old, none => some old
  | none, new => new

theorem laidOver_none (old : Option Json) : laidOver old none = old := by
  cases old <;> rfl

/-- What is not an object is replaced whole. -/
theorem deepMerge_of_not_object {dst src : Json}
    (whole : dst.isObject = false ∨ src.isObject = false) : deepMerge dst src = src := by
  cases src with
  | object members =>
      rcases whole with notObject | notObject
      · cases dst with
        | object _ => cases notObject
        | _ => rfl
      · cases notObject
  | _ => rfl

theorem laidOver_some (old new : Json) :
    laidOver (some old) (some new) = some (deepMerge old new) := by
  rw [laidOver]
  split
  · rfl
  · rename_i notBoth
    rw [Bool.and_eq_true, not_and_or, Bool.not_eq_true, Bool.not_eq_true] at notBoth
    rw [deepMerge_of_not_object notBoth]

/-- A turn of the loop lays the value over what is found under its key. -/
theorem mergeMember_eq (dst : List (Text × Json)) (key : Text) (value : Json) :
    mergeMember dst (key, value) =
      setMember key ((dst.lookup key).elim value fun old => deepMerge old value) dst := by
  -- The match is on what is found: it is brought out of the recursion to be split.
  delta mergeMember mergeMember._f Json.Value.brecOn_3
  dsimp only [Json.Value.brecOn_3.go]
  generalize dst.lookup key = held
  cases held with
  | none => rfl
  | some old =>
      rw [Option.elim_some]
      cases old with
      | object members =>
          cases value with
          | object src =>
              delta deepMerge mergeMember._f Json.Value.brecOn
              rfl
          | _ => rfl
      | _ => cases value <;> rfl

theorem lookup_mergeMember (dst : List (Text × Json)) (key other : Text) (value : Json) :
    (mergeMember dst (key, value)).lookup other =
      if other = key then laidOver (dst.lookup key) (some value) else dst.lookup other := by
  rw [mergeMember_eq, ConfigTree.lookup_setMember]
  split
  · cases dst.lookup key with
    | none => rfl
    | some old => rw [laidOver_some, Option.elim_some]
  · rfl

/-- The loop lays the value of every key over what is found under it. -/
theorem lookup_mergeMembers {src : List (Text × Json)} (keys : (src.map Prod.fst).Nodup)
    (dst : List (Text × Json)) (key : Text) :
    (mergeMembers dst src).lookup key = laidOver (dst.lookup key) (src.lookup key) := by
  induction src generalizing dst with
  | nil => rw [mergeMembers, List.lookup_nil, laidOver_none]
  | cons member rest inductionHypothesis =>
      obtain ⟨held, value⟩ := member
      obtain ⟨fresh, later⟩ := List.nodup_cons.mp keys
      rw [mergeMembers, inductionHypothesis later, lookup_mergeMember]
      by_cases isHeld : key = held
      · subst isHeld
        have absent : rest.lookup key = none := by
          rw [List.lookup_eq_none_iff]
          rintro ⟨other, json⟩ isLater
          rw [bne_iff_ne]
          rintro rfl
          exact fresh (List.mem_map.mpr ⟨_, isLater, rfl⟩)
        rw [absent, laidOver_none, if_pos rfl, List.lookup_cons_self]
      · rw [if_neg isHeld, lookup_cons_of_ne isHeld]

/-! ## The merge of ordered values -/

theorem ordered_mergeMembers {dst src : List (Text × Json)}
    (each : ∀ member ∈ src, Ordered member.2)
    (merges : ∀ member ∈ src, ∀ {old : Json}, old.Ordered → (deepMerge old member.2).Ordered)
    (ordered : Ordered (.object dst)) : Ordered (.object (mergeMembers dst src)) := by
  induction src generalizing dst with
  | nil => exact ordered
  | cons member rest inductionHypothesis =>
      obtain ⟨key, value⟩ := member
      rw [mergeMembers]
      refine inductionHypothesis (fun other isLater => each other (List.mem_cons_of_mem _ isLater))
        (fun other isLater => merges other (List.mem_cons_of_mem _ isLater)) ?_
      rw [mergeMember_eq]
      refine ordered_setMember ?_ ordered
      cases found : dst.lookup key with
      | none => exact each _ List.mem_cons_self
      | some old => exact merges _ List.mem_cons_self (ordered.found found)

/-- A merge of ordered values is ordered. -/
theorem ordered_deepMerge {dst src : Json} (dstOrdered : dst.Ordered) (srcOrdered : src.Ordered) :
    (deepMerge dst src).Ordered := by
  induction srcOrdered generalizing dst with
  | @object members keys each inductionHypothesis =>
      cases dstOrdered with
      | object dstKeys dstEach =>
          exact ordered_mergeMembers each
            (fun member isMember _ oldOrdered => inductionHypothesis member isMember oldOrdered)
            (.object dstKeys dstEach)
      | _ => exact .object keys each
  | array each => exact .array each
  | _ => constructor

/-- Ordered objects are equal when they hold the same under every key. -/
theorem object_eq_of_lookup {first second : List (Text × Json)}
    (firstOrdered : Ordered (.object first)) (secondOrdered : Ordered (.object second))
    (same : ∀ key, first.lookup key = second.lookup key) :
    (.object first : Json) = .object second := by
  cases firstOrdered with
  | object firstKeys _ =>
      cases secondOrdered with
      | object secondKeys _ => rw [firstKeys.eq_of_lookup secondKeys same]

/-- A value merged into itself is as it was. -/
theorem deepMerge_self {json : Json} (ordered : json.Ordered) : deepMerge json json = json := by
  induction ordered with
  | @object members keys each inductionHypothesis =>
      have ordered : Ordered (.object members) := .object keys each
      refine object_eq_of_lookup (ordered_deepMerge ordered ordered) ordered fun key => ?_
      rw [lookup_mergeMembers keys.nodup]
      cases found : members.lookup key with
      | none => rfl
      | some value => rw [laidOver_some, inductionHypothesis _ (mem_of_lookup found)]
  | _ => rfl

/-- A source merged a second time changes nothing. -/
theorem deepMerge_again {dst src : Json} (dstOrdered : dst.Ordered) (srcOrdered : src.Ordered) :
    deepMerge (deepMerge dst src) src = deepMerge dst src := by
  induction srcOrdered generalizing dst with
  | @object members keys each inductionHypothesis =>
      have ordered : Ordered (.object members) := .object keys each
      cases dstOrdered with
      | @object old dstKeys dstEach =>
          have dstOrdered : Ordered (.object old) := .object dstKeys dstEach
          have merged := ordered_deepMerge dstOrdered ordered
          refine object_eq_of_lookup (ordered_deepMerge merged ordered) merged fun key => ?_
          rw [lookup_mergeMembers keys.nodup, lookup_mergeMembers keys.nodup]
          cases found : members.lookup key with
          | none => rw [laidOver_none]
          | some value =>
              have isMember := mem_of_lookup found
              cases held : old.lookup key with
              | none =>
                  have same := deepMerge_self (each _ isMember)
                  rw [laidOver, laidOver_some, same]
              | some old =>
                  rw [laidOver_some, laidOver_some,
                    inductionHypothesis _ isMember (dstOrdered.found held)]
      | _ => exact deepMerge_self ordered
  | _ => rfl

/-! ## The calls -/

/-- The calls of `deep_merge` which a call makes: where the turns before have
left an object under the key of an object. -/
inductive Calls : Json × Json → Json × Json → Prop where
  | turn {dst earlier later : List (Text × Json)} {key : Text} {old value : Json}
      (found : (mergeMembers dst earlier).lookup key = some old)
      (oldObject : old.isObject = true) (valueObject : value.isObject = true) :
      Calls (old, value) (.object dst, .object (earlier ++ (key, value) :: later))

/-- A call is made on a smaller source. -/
theorem Calls.smaller {inner outer : Json × Json} (calls : Calls inner outer) :
    sizeOf inner.2 < sizeOf outer.2 := by
  cases calls with
  | @turn dst earlier later key old value found oldObject valueObject =>
      have isMember : (key, value) ∈ earlier ++ (key, value) :: later := by simp
      have inList := List.sizeOf_lt_of_mem isMember
      rw [Prod.mk.sizeOf_spec] at inList
      rw [Json.Value.object.sizeOf_spec]
      dsimp only
      omega

theorem wellFounded_calls : WellFounded Calls :=
  Subrelation.wf Calls.smaller (measure fun call : Json × Json => sizeOf call.2).wf

/-! ## The overlay -/

/-- A right-biased overlay of a destination by a source. -/
structure Overlays (dst src merged : Json) : Prop where
  whole : dst.isObject = false ∨ src.isObject = false → merged = src
  isObject : dst.isObject = true → src.isObject = true → merged.isObject = true
  keys : dst.isObject = true → src.isObject = true → ∀ key,
    (merged.find key).isSome = ((dst.find key).isSome || (src.find key).isSome)
  onlyDst : src.isObject = true → ∀ key old, dst.find key = some old → src.find key = none →
    merged.find key = some old
  onlySrc : dst.isObject = true → ∀ key new, dst.find key = none → src.find key = some new →
    merged.find key = some new
  both : ∀ key old new, dst.find key = some old → src.find key = some new →
    merged.find key =
      some (if old.isObject && new.isObject then deepMerge old new else new)

theorem isObject_of_find {json member : Json} {key : Text} (found : json.find key = some member) :
    json.isObject = true := by
  cases json with
  | object _ => rfl
  | _ => cases found

/-- A value of `nlohmann::json`. -/
abbrev OrderedJson := {json : Json // json.Ordered}

theorem overlays_deepMerge (dst src : OrderedJson) :
    Overlays dst.1 src.1 (deepMerge dst.1 src.1) := by
  obtain ⟨dst, dstOrdered⟩ := dst
  obtain ⟨src, srcOrdered⟩ := src
  have under (isDst : dst.isObject = true) (isSrc : src.isObject = true) (key : Text) :
      (deepMerge dst src).find key = laidOver (dst.find key) (src.find key) := by
    cases srcOrdered with
    | object keys _ =>
        cases dstOrdered with
        | object _ _ => exact lookup_mergeMembers keys.nodup _ key
        | _ => cases isDst
    | _ => cases isSrc
  refine {
    whole := deepMerge_of_not_object
    isObject := fun isDst isSrc => ?_
    keys := fun isDst isSrc key => ?_
    onlyDst := fun isSrc key old found absent => ?_
    onlySrc := fun isDst key new absent found => ?_
    both := fun key old new foundOld foundNew => ?_ }
  · cases src with
    | object _ => cases dst with
      | object _ => rfl
      | _ => cases isDst
    | _ => cases isSrc
  · rw [under isDst isSrc]
    cases dst.find key <;> cases src.find key <;> rfl
  · rw [under (isObject_of_find found) isSrc, found, absent, laidOver]
  · rw [under isDst (isObject_of_find found), absent, found, laidOver]
  · rw [under (isObject_of_find foundOld) (isObject_of_find foundNew), foundOld, foundNew,
      laidOver]

/-- **`deep_merge` is a right-biased overlay** of ordered values, which a second
merge of the source does not change, and its calls end. -/
theorem deepMerge_isOverlay (dst src : OrderedJson) :
    Overlays dst.1 src.1 (deepMerge dst.1 src.1) ∧ (deepMerge dst.1 src.1).Ordered ∧
      deepMerge (deepMerge dst.1 src.1) src.1 = deepMerge dst.1 src.1 ∧
      Acc Calls (dst.1, src.1) :=
  ⟨overlays_deepMerge dst src, ordered_deepMerge dst.2 src.2, deepMerge_again dst.2 src.2,
    wellFounded_calls.apply _⟩

example :
    deepMerge
      (ofMembers [("core", .null), ("parsers", ofMembers [("form", .boolean true),
        ("json", .null)])])
      (ofMembers [("parsers", ofMembers [("json", .boolean true)]), ("server", .null)]) =
    ofMembers [("core", .null), ("parsers", ofMembers [("form", .boolean true),
      ("json", .boolean true)]), ("server", .null)] := rfl

end Json

end Foxhttp.Config
