import Foxhttp.Library.Json.Closings
import Foxhttp.Parser.JsonDepth
import Foxhttp.Parser.JsonStrictness

/-!
# Trailing commas

The loop for closing brackets starts where the loop for closing braces ended,
behind the end of the text, and drops nothing. So without the setting a comma
behind the last member of an object is dropped, and one behind the last element
of an array is refused; with it both are refused.
-/

namespace Foxhttp.Parser

open Foxhttp.Library Foxhttp.Library.Json

/-! ## A comma among those which are dropped -/

/-- Texts are preprocessed apart unless a comma and a closing brace meet. -/
theorem uncomma_append {front : Text} {c : Char} (rest : Text)
    (apart : front.getLast? ≠ some ',' ∨ c ≠ '}') :
    uncomma (front ++ c :: rest) = uncomma front ++ uncomma (c :: rest) := by
  induction front with
  | nil => rfl
  | cons d front inductionHypothesis =>
      cases front with
      | nil =>
          have kept : ¬ [',', '}'] <+: d :: c :: rest := by
            intro isPrefix
            obtain ⟨rfl, isBrace⟩ := List.cons_prefix_cons.mp isPrefix
            obtain ⟨rfl, -⟩ := List.cons_prefix_cons.mp isBrace
            simp at apart
          rw [List.singleton_append, uncomma_skip d _ kept, uncomma_skip d [] (by simp)]
          rfl
      | cons e front =>
          have later := inductionHypothesis (by simpa using apart)
          have same : [',', '}'] <+: d :: (e :: front ++ c :: rest) ↔
              [',', '}'] <+: d :: e :: front := by
            simp [List.cons_prefix_cons]
          rw [List.cons_append, uncomma, uncomma]
          split
          · rename_i isComma
            rw [if_pos (same.mp isComma), later]
          · rename_i notComma
            rw [if_neg (notComma ∘ same.mpr), later, List.cons_append]

section Places

variable {place : Place} {text : Document}

/-- The last member of an object does not end in a comma. -/
theorem getLast?_before (isPlace : place ∈ text.closings) :
    place.before.getLast? ≠ some ',' := by
  have closes := text.closes isPlace
  intro isComma
  obtain ⟨front, isFront⟩ := List.getLast?_eq_some_iff.mp isComma
  have isText : text.render = front ++ ',' :: place.bracket :: place.after := by
    rw [← closes.whole, Place.render, isFront, List.append_assoc]
    rfl
  have inside := LodgedBefore.document closes.isClosing text front place.after isText
  have outside := closes.outside
  rw [isFront, Mode.scan_append_of_eq inside] at outside
  cases outside

/-- A comma in front of a closing brace is dropped with the others. -/
theorem uncomma_comma_brace (isPlace : place ∈ text.closings) (isBrace : place.bracket = '}') :
    uncomma place.comma = uncomma text.render := by
  have dropped : uncomma (',' :: '}' :: place.after) = '}' :: uncomma place.after :=
    uncomma_comma ⟨place.after, rfl⟩
  rw [← (text.closes isPlace).whole, Place.comma, Place.render, isBrace,
    uncomma_append _ (.inr (by decide)), uncomma_append _ (.inl (getLast?_before isPlace)),
    dropped, uncomma_cons (by decide)]

/-- A comma in front of a closing bracket stays. -/
theorem uncomma_comma_bracket (isBracket : place.bracket = ']') :
    uncomma place.comma = uncomma place.before ++ ',' :: ']' :: uncomma place.after := by
  rw [Place.comma, isBracket, uncomma_append _ (.inr (by decide)), uncomma_keep (by simp),
    uncomma_cons (by decide)]

end Places

/-! ## Depth -/

section Depth

variable {ν : Type}

theorem merge_ne_nil (reading : Reading ν) {members : List (Text × Value ν)}
    (filled : members ≠ []) : reading.merge members ≠ [] := by
  obtain ⟨first, rest, rfl⟩ := List.exists_cons_of_ne_nil filled
  intro nothing
  have named := reading.merge_names (first :: rest) first.1 List.mem_cons_self
  rw [nothing] at named
  cases named

/-- A value with a closing bracket behind a member is nested. -/
theorem calculateDepth_pos (reading : Reading ν) {doc : Doc} {place : Place}
    (isPlace : place ∈ doc.closings) : 0 < calculateDepth (doc.value reading) 0 := by
  refine (le_calculateDepth_iff _ 0 1).mpr ?_
  cases doc with
  | array elements =>
      have filled : elements.values reading ≠ [] := by
        cases elements <;> exact List.cons_ne_nil _ _
      obtain ⟨item, member⟩ := List.exists_mem_of_ne_nil _ filled
      exact .array member (.zero item)
  | object members =>
      have filled : reading.merge (members.entries reading) ≠ [] := by
        refine merge_ne_nil reading ?_
        cases members <;> exact List.cons_ne_nil _ _
      obtain ⟨⟨name, value⟩, member⟩ := List.exists_mem_of_ne_nil _ filled
      exact .object member (.zero value)
  | _ => cases isPlace

end Depth

/-! ## Parsing -/

section Parsing

variable {ν : Type} {reading : Reading ν} {nlohmann : Text → Except Text (Value ν)}
  {config : JsonConfig} {text : Document} {place : Place}

/-- A trailing comma which is not dropped is refused. -/
theorem parse_kept_comma (conforms : Conforms reading nlohmann) (isPlace : place ∈ text.closings)
    (kept : config.allowTrailingCommas = true ∨ place.bracket = ']') :
    ∃ message, parseWithValidation nlohmann config place.comma = .error message := by
  have closes := text.closes isPlace
  have notJson : ∀ document : Document,
      document.render ≠ preprocessJson config place.comma := by
    intro document isDocument
    by_cases comments : config.allowComments = true ∨ ¬ "//".toList <:+: place.comma
    · -- the comma in front of the bracket is still there, outside of a literal
      have lodged := LodgedBefore.document closes.isClosing document
      rw [isDocument, preprocessJson_of_comments comments] at lodged
      have outside := closes.outside
      cases strict : config.allowTrailingCommas with
      | true =>
          rw [strict] at lodged
          have inside := lodged place.before place.after rfl
          rw [outside] at inside
          cases inside
      | false =>
          have isBracket := kept.resolve_left (by simp [strict])
          rw [strict, isBracket] at lodged
          have inside := lodged _ _ (uncomma_comma_bracket isBracket)
          rw [scan_uncomma, outside] at inside
          cases inside
    · simp only [not_or, Bool.not_eq_true, not_not] at comments
      have scanned := closes.scan_comma.trans text.scan_render
      refine scan_preprocessJson_comment comments.1 scanned comments.2 ?_
      rw [← isDocument, document.scan_render]
  obtain ⟨message, refused⟩ := conforms.refuses _ notJson
  exact ⟨_, by rw [parseWithValidation, refused]⟩

/-- A trailing comma of an object which is not allowed is dropped. -/
theorem parse_dropped_comma (conforms : Conforms reading nlohmann)
    (isPlace : place ∈ text.closings) (isBrace : place.bracket = '}')
    (strict : config.allowTrailingCommas = false)
    (comments : config.allowComments = true ∨ ¬ "//".toList <:+: place.comma)
    (depth : text.doc.nesting ≤ config.maxDepth) :
    parseWithValidation nlohmann config place.comma =
      .ok ((text.mapStrings dropCommas).doc.value reading) := by
  refine parseWithValidation_of_preprocess conforms ?_ ?_
  · exact Nat.le_trans (Nat.le_of_eq (nesting_mapStrings_doc dropCommas text.doc)) depth
  · rw [preprocessJson_of_comments comments, strict, ← uncomma_document]
    exact uncomma_comma_brace isPlace isBrace

variable (reading nlohmann config) in
/-- Either every trailing comma is dropped, or every one is refused, behind any
member of an array or an object of any text in the limit of depth whose only
string literals are names. -/
def TreatedAlike : Prop :=
  (∀ (text : Document) (place : Place), text.doc.namesOnly = true →
    calculateDepth (text.doc.value reading) 0 ≤ config.maxDepth → place ∈ text.closings →
      parseWithValidation nlohmann config place.comma = .ok (text.doc.value reading)) ∨
  ∀ (text : Document) (place : Place), text.doc.namesOnly = true →
    calculateDepth (text.doc.value reading) 0 ≤ config.maxDepth → place ∈ text.closings →
      ∃ message, parseWithValidation nlohmann config place.comma = .error message

/-! ## Both kinds of bracket -/

/-- The text of zero. -/
def zeroDoc : Doc :=
  .number ⟨['0'], rfl⟩

/-- An array of one element. -/
def arrayText : Document where
  before := noBlank
  doc := .array (.last noBlank zeroDoc noBlank)
  after := noBlank

/-- An object of one member, with an empty name. -/
def objectText : Document where
  before := noBlank
  doc := .object (.last noBlank [] noBlank noBlank zeroDoc noBlank)
  after := noBlank

/-- The bracket of the array. -/
def arrayEnd : Place :=
  ⟨"[0".toList, ']', []⟩

/-- The brace of the object. -/
def objectEnd : Place :=
  ⟨"\x7b\"\":0".toList, '}', []⟩

theorem arrayEnd_mem : arrayEnd ∈ arrayText.closings :=
  List.mem_singleton_self arrayEnd

theorem objectEnd_mem : objectEnd ∈ objectText.closings :=
  List.mem_singleton_self objectEnd

/-- With commas dropped, the array is refused and the object is parsed. -/
theorem not_treatedAlike (conforms : Conforms reading nlohmann)
    (strict : config.allowTrailingCommas = false) (deep : 0 < config.maxDepth) :
    ¬ TreatedAlike reading nlohmann config := by
  have arrayDepth : calculateDepth (arrayText.doc.value reading) 0 ≤ config.maxDepth :=
    Nat.le_trans (calculateDepth_doc arrayText.doc 0) deep
  have objectDepth : calculateDepth (objectText.doc.value reading) 0 ≤ config.maxDepth :=
    Nat.le_trans (calculateDepth_doc objectText.doc 0) deep
  have refused : ∃ message, parseWithValidation nlohmann config arrayEnd.comma = .error message :=
    parse_kept_comma conforms arrayEnd_mem (.inr rfl)
  have parsed := parse_dropped_comma conforms objectEnd_mem rfl strict (.inr (by decide)) deep
  rintro (allParsed | allRefused)
  · obtain ⟨message, isRefused⟩ := refused
    have isParsed := allParsed arrayText arrayEnd rfl arrayDepth arrayEnd_mem
    rw [isRefused] at isParsed
    cases isParsed
  · obtain ⟨message, isRefused⟩ := allRefused objectText objectEnd rfl objectDepth objectEnd_mem
    rw [parsed] at isRefused
    cases isRefused

/-- **Trailing commas are treated alike** in arrays and objects **exactly when**
they are allowed, and all refused, or no array or object with a member is in the
limit of depth. -/
theorem treatedAlike_iff (conforms : Conforms reading nlohmann) (config : JsonConfig) :
    TreatedAlike reading nlohmann config ↔
      config.allowTrailingCommas = true ∨ config.maxDepth = 0 := by
  constructor
  · intro alike
    cases strict : config.allowTrailingCommas with
    | true => exact .inl rfl
    | false =>
        refine .inr (Nat.eq_zero_of_not_pos fun deep => ?_)
        exact not_treatedAlike conforms strict deep alike
  · rintro (allowed | flat)
    · exact .inr fun text place _ _ isPlace => parse_kept_comma conforms isPlace (.inl allowed)
    · refine .inr fun text place _ depth isPlace => absurd depth ?_
      obtain ⟨inner, isInner, -⟩ := List.mem_map.mp isPlace
      rw [flat, Nat.not_le]
      exact calculateDepth_pos reading isInner

end Parsing

/-- A setting which allows them, with the reference parser. -/
theorem treatedAlike_iff_allowed :
    TreatedAlike lastWins (referenceParse lastWins) { allowTrailingCommas := true } :=
  (treatedAlike_iff (referenceParse_conforms lastWins) { allowTrailingCommas := true }).mpr
    (.inl rfl)

/-- Under the default settings a comma behind the element of an array is refused,
and one behind the member of an object is dropped. -/
theorem brackets_differ :
    ¬ ∀ config : JsonConfig, TreatedAlike lastWins (referenceParse lastWins) config := by
  intro alwaysAlike
  exact not_treatedAlike (referenceParse_conforms lastWins) rfl (by decide) (alwaysAlike {})

end Foxhttp.Parser
