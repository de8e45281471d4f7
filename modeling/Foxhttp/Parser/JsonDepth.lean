import Mathlib.Order.MinMax
import Foxhttp.Parser.JsonPreserved

/-!
# What the depth limit limits

The accumulator of `calculate_depth` grows by one for every child, so it counts
the arrays and objects around a child and not the innermost one. An array or
object without a member adds nothing: as many as the limit may hold one more.
-/

namespace Foxhttp.Parser

open Foxhttp.Library Foxhttp.Library.Json

section Depth

variable {ν : Type}

/-- So many arrays and objects are nested in one another, each with an element or
a member which the next one is, and the innermost has one too. -/
inductive Filled : Value ν → Nat → Prop
  | zero (value : Value ν) : Filled value 0
  | array {elements item depth} (member : item ∈ elements) (inner : Filled item depth) :
      Filled (.array elements) (depth + 1)
  | object {members name value depth} (member : (name, value) ∈ members)
      (inner : Filled value depth) : Filled (.object members) (depth + 1)

/-- The loop over an array reaches a bound where it starts, or in an element. -/
theorem le_depthOfElements_iff {elements : List (Value ν)} {currentDepth maxDepth bound : Nat} :
    bound ≤ depthOfElements elements currentDepth maxDepth ↔
      bound ≤ maxDepth ∨ ∃ item ∈ elements, bound ≤ calculateDepth item (currentDepth + 1) := by
  induction elements generalizing maxDepth with
  | nil => simp [depthOfElements]
  | cons item rest inductionHypothesis =>
      rw [depthOfElements, inductionHypothesis, le_max_iff, or_assoc]
      simp

theorem le_depthOfMembers_iff {members : List (Text × Value ν)}
    {currentDepth maxDepth bound : Nat} :
    bound ≤ depthOfMembers members currentDepth maxDepth ↔
      bound ≤ maxDepth ∨
        ∃ member ∈ members, bound ≤ calculateDepth member.2 (currentDepth + 1) := by
  induction members generalizing maxDepth with
  | nil => simp [depthOfMembers]
  | cons member rest inductionHypothesis =>
      rw [depthOfMembers, inductionHypothesis, le_max_iff, or_assoc]
      simp

theorem le_calculateDepth (value : Value ν) (currentDepth : Nat) :
    currentDepth ≤ calculateDepth value currentDepth := by
  cases value with
  | object members => exact le_depthOfMembers_iff.mpr (.inl (Nat.le_refl _))
  | array elements => exact le_depthOfElements_iff.mpr (.inl (Nat.le_refl _))
  | _ => exact Nat.le_refl _

/-- The depth of a value is how many arrays and objects with a member are nested. -/
theorem le_calculateDepth_iff (value : Value ν) (currentDepth depth : Nat) :
    currentDepth + depth ≤ calculateDepth value currentDepth ↔ Filled value depth := by
  induction depth generalizing value currentDepth with
  | zero => exact ⟨fun _ => .zero value, fun _ => le_calculateDepth value currentDepth⟩
  | succ depth inductionHypothesis =>
      have deeper : ¬ currentDepth + (depth + 1) ≤ currentDepth := by omega
      have next : currentDepth + (depth + 1) = currentDepth + 1 + depth := by omega
      cases value with
      | array elements =>
          rw [calculateDepth, le_depthOfElements_iff, or_iff_right deeper, next]
          constructor
          · rintro ⟨item, member, inner⟩
            exact .array member ((inductionHypothesis item _).mp inner)
          · rintro (_ | ⟨member, inner⟩)
            exact ⟨_, member, (inductionHypothesis _ _).mpr inner⟩
      | object members =>
          rw [calculateDepth, le_depthOfMembers_iff, or_iff_right deeper, next]
          constructor
          · rintro ⟨⟨name, value⟩, member, inner⟩
            exact .object member ((inductionHypothesis value _).mp inner)
          · rintro (_ | _ | ⟨member, inner⟩)
            exact ⟨_, member, (inductionHypothesis _ _).mpr inner⟩
      | _ => exact ⟨fun reached => absurd reached deeper, nofun⟩

end Depth

section Parsing

variable {ν : Type} {reading : Reading ν} {nlohmann : Text → Except Text (Value ν)}
  {config : JsonConfig} {text : Document}

variable (nlohmann config text) in
/-- The document is accepted exactly when no more arrays and objects are nested in
it than the limit says. -/
def LimitsNesting : Prop :=
  (∃ json, parseWithValidation nlohmann config text.render = .ok json) ↔
    text.doc.nesting ≤ config.maxDepth

/-- A document which preprocessing leaves as it is is refused for its depth only. -/
theorem accepted_iff (conforms : Conforms reading nlohmann)
    (unchanged : preprocessJson config text.render = text.render) :
    (∃ json, parseWithValidation nlohmann config text.render = .ok json) ↔
      ¬ Filled (text.doc.value reading) (config.maxDepth + 1) := by
  have accepted : nlohmann (preprocessJson config text.render) = .ok (text.doc.value reading) := by
    rw [unchanged, conforms.accepts]
  rw [← le_calculateDepth_iff _ 0, Nat.zero_add, Nat.not_le, Nat.lt_succ_iff]
  simp only [parseWithValidation, accepted, validateDepth]
  by_cases deep : config.maxDepth < calculateDepth (text.doc.value reading) 0
  · simp [deep, JsonValidationResult.addError]
  · simp [deep, Nat.not_lt.mp deep]

/-- What is filled that deep is nested that deep. -/
theorem Filled.le_nesting {doc : Doc} {depth : Nat} (filled : Filled (doc.value reading) depth) :
    depth ≤ doc.nesting := by
  have reached := (le_calculateDepth_iff _ 0 depth).mpr filled
  have bound : calculateDepth (doc.value reading) 0 ≤ 0 + doc.nesting := calculateDepth_doc doc 0
  omega

/-- **The depth limit is the nesting limit** for a document **exactly when** it is
nested within the limit, or more arrays and objects than the limit are nested in
what it stands for and all of them have a member. -/
theorem limitsNesting_iff (conforms : Conforms reading nlohmann)
    (unchanged : preprocessJson config text.render = text.render) :
    LimitsNesting nlohmann config text ↔
      text.doc.nesting ≤ config.maxDepth ∨
        Filled (text.doc.value reading) (config.maxDepth + 1) := by
  rw [LimitsNesting, accepted_iff conforms unchanged]
  constructor
  · intro limits
    by_cases within : text.doc.nesting ≤ config.maxDepth
    · exact .inl within
    · exact .inr (not_not.mp fun shallow => within (limits.mp shallow))
  · rintro (within | filled)
    · refine ⟨fun _ => within, fun _ filled => ?_⟩
      exact absurd filled.le_nesting (by omega)
    · refine ⟨fun shallow => absurd filled shallow, fun within => ?_⟩
      exact absurd filled.le_nesting (by omega)

end Parsing

/-- No blank. -/
def noBlank : Blank :=
  ⟨[], List.forall_mem_nil _⟩

/-- An empty array in an array. -/
def nestedArrays : Document where
  before := noBlank
  doc := .array (.last noBlank (.emptyArray noBlank) noBlank)
  after := noBlank

theorem nestedArrays_unchanged (config : JsonConfig) :
    preprocessJson config nestedArrays.render = nestedArrays.render := by
  rw [preprocessJson_eq]
  cases config.allowComments <;> cases config.allowTrailingCommas <;> decide

/-- Two arrays, and none of them is more than the limit. -/
theorem limitsNesting_two :
    LimitsNesting (referenceParse lastWins) { maxDepth := 2 } nestedArrays :=
  (limitsNesting_iff (referenceParse_conforms lastWins) (nestedArrays_unchanged _)).mpr
    (.inl (by decide))

/-- With a limit of one, two arrays are accepted when the inner one is empty. -/
theorem empty_array_not_counted :
    ¬ ∀ (config : JsonConfig) (text : Document),
      preprocessJson config text.render = text.render →
        LimitsNesting (referenceParse lastWins) config text := by
  intro limitsNesting
  have conforms := referenceParse_conforms lastWins
  have shallow : ¬ Filled (nestedArrays.doc.value lastWins) 2 := fun filled =>
    absurd ((le_calculateDepth_iff _ 0 2).mpr filled) (by decide)
  have unchanged := nestedArrays_unchanged { maxDepth := 1 }
  have accepted := (accepted_iff conforms unchanged).mpr shallow
  exact absurd ((limitsNesting _ _ unchanged).mp accepted) (by decide)

end Foxhttp.Parser
