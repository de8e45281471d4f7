import Foxhttp.Library.Json.Syntax

/-!
# The JSON body parser

`JsonParser::parse` checks the size of the body, edits its text, hands the
result to a JSON library and checks the depth of the value. The library is a
parameter: it returns a value or throws a parse error with a message.
-/

namespace Foxhttp.Parser

open Foxhttp.Library Foxhttp.Library.Json

variable {ν : Type}

/-- The settings of `JsonConfig` which parsing reads. -/
structure JsonConfig where
  maxSize : Nat := 10 * 1024 * 1024
  maxDepth : Nat := 100
  allowComments : Bool := false
  allowTrailingCommas : Bool := false

/-- `JsonValidationResult`. -/
structure JsonValidationResult where
  isValid : Bool := true
  errors : List Text := []

/-- `JsonValidationResult::add_error`. -/
def JsonValidationResult.addError (result : JsonValidationResult) (error : Text) :
    JsonValidationResult :=
  ⟨false, result.errors ++ [error]⟩

/-- The comment loop of `preprocess_json`, from `pos` on. -/
def removeComments (result : Text) (pos : Nat) : Text :=
  match _found : Text.findText result "//".toList pos with
  | some pos =>
      match _ended : Text.find result '\n' pos with
      | some stop => removeComments (Text.erase result pos (stop - pos)) pos
      | none => result.take pos
  | none => result
termination_by result.length
decreasing_by
  obtain ⟨-, isComment, -⟩ := Text.prefix_of_findText _found
  obtain ⟨later, bound, -, -⟩ := Text.split_of_find _ended
  have different : pos ≠ stop := by
    rintro rfl
    rw [Text.drop_of_find _ended] at isComment
    exact absurd (List.cons_prefix_cons.mp isComment).1 (by decide)
  simp only [Text.erase, List.length_append, List.length_take, List.length_drop]
  omega

/-- A trailing comma loop of `preprocess_json`, from `pos` on, with the position
it leaves: nothing stands for `npos`. -/
def removeTrailingCommas (bracket : Char) (result : Text) (pos : Option Nat) :
    Text × Option Nat :=
  match _found : pos.bind fun pos => Text.findText result [',', bracket] pos with
  | some pos =>
      removeTrailingCommas bracket (Text.replace result pos 2 [bracket]) (some pos)
  | none => (result, none)
termination_by result.length
decreasing_by
  obtain ⟨start, rfl, isFound⟩ := Option.bind_eq_some_iff.mp _found
  obtain ⟨-, isComma, -⟩ := Text.prefix_of_findText isFound
  have bound := isComma.length_le
  simp only [List.length_cons, List.length_nil, List.length_drop] at bound
  simp only [Text.replace, List.length_append, List.length_take, List.length_drop,
    List.length_cons, List.length_nil]
  omega

/-- `JsonParserImpl::preprocess_json`. -/
def preprocessJson (config : JsonConfig) (jsonString : Text) : Text :=
  let result := jsonString
  let result := if config.allowComments then result else removeComments result 0
  if config.allowTrailingCommas then result
  else
    let (result, pos) := removeTrailingCommas '}' result (some 0)
    (removeTrailingCommas ']' result pos).1

mutual

/-- `JsonParserImpl::calculate_depth`. -/
def calculateDepth : Value ν → Nat → Nat
  | .object members, currentDepth => depthOfMembers members currentDepth currentDepth
  | .array elements, currentDepth => depthOfElements elements currentDepth currentDepth
  | .null, currentDepth
  | .boolean _, currentDepth
  | .number _, currentDepth
  | .string _, currentDepth => currentDepth

/-- The loop of `calculate_depth` over an array. -/
def depthOfElements : List (Value ν) → Nat → Nat → Nat
  | [], _, maxDepth => maxDepth
  | item :: rest, currentDepth, maxDepth =>
      depthOfElements rest currentDepth (max maxDepth (calculateDepth item (currentDepth + 1)))

/-- The loop of `calculate_depth` over an object. -/
def depthOfMembers : List (Text × Value ν) → Nat → Nat → Nat
  | [], _, maxDepth => maxDepth
  | (_, value) :: rest, currentDepth, maxDepth =>
      depthOfMembers rest currentDepth (max maxDepth (calculateDepth value (currentDepth + 1)))

end

/-- `std::to_string`. -/
def toText (number : Nat) : Text :=
  Nat.toDigits 10 number

/-- `JsonParserImpl::validate_depth`. -/
def validateDepth (config : JsonConfig) (json : Value ν) : JsonValidationResult :=
  let result : JsonValidationResult := {}
  let depth := calculateDepth json 0
  if config.maxDepth < depth then
    result.addError ("JSON depth (".toList ++ toText depth ++
      ") exceeds maximum allowed depth (".toList ++ toText config.maxDepth ++ ")".toList)
  else result

/-- `JsonParserImpl::parse_with_validation`. -/
def parseWithValidation (nlohmann : Text → Except Text (Value ν)) (config : JsonConfig)
    (jsonString : Text) : Except Text (Value ν) :=
  let processedJson := preprocessJson config jsonString
  match nlohmann processedJson with
  | .ok json =>
      let depthResult := validateDepth config json
      if depthResult.isValid then .ok json
      else .error ("JSON depth validation failed: ".toList ++ depthResult.errors.headD [])
  | .error what => .error ("JSON parse error: ".toList ++ what)

/-- `JsonParser::parse`, of the body. -/
def parse (nlohmann : Text → Except Text (Value ν)) (config : JsonConfig) (body : Text) :
    Except Text (Value ν) :=
  if config.maxSize < body.length then
    .error "JSON size exceeds maximum allowed size".toList
  else parseWithValidation nlohmann config body

end Foxhttp.Parser
