import Foxhttp.Library.Json.Syntax

/-!
# Configuration documents

A document is a `nlohmann::json` value. `value` throws on a receiver which is
not an object and on a member of the wrong type; a member which is absent
gives the default. `deep_merge` lays one document over another.
-/

namespace Foxhttp.Config

open Foxhttp.Library

/-- The numbers of `nlohmann::json`: `int64_t`, `uint64_t` and the bits of a
`double`. -/
inductive Number where
  | integer (value : Int)
  | unsigned (value : Nat)
  | float (bits : UInt64)
deriving DecidableEq, Repr

/-- `nlohmann::json`. An object is a `std::map`: its members are in the order of
their keys. -/
abbrev Json := Library.Json.Value Number

/-- `nlohmann::json::type_error`. -/
structure TypeError where
  id : Nat
  what : String
deriving DecidableEq, Repr

/-! ## Conversions -/

/-- The conversion of an integer to `size_t`. -/
def toSize (value : Int) : Nat :=
  (value % UInt64.size).toNat

/-- The conversion of an integer to `int`. -/
def toInt (value : Int) : Int :=
  value.bmod UInt32.size

namespace Json

/-- `type_name`. -/
def typeName : Json → String
  | .null => "null"
  | .boolean _ => "boolean"
  | .number _ => "number"
  | .string _ => "string"
  | .array _ => "array"
  | .object _ => "object"

/-- The error of a conversion from a value of the wrong type. -/
def mustBe (type : String) (json : Json) : TypeError :=
  { id := 302, what := "type must be " ++ type ++ ", but is " ++ json.typeName }

/-- `get<std::size_t>`. -/
def getSize : Json → Except TypeError Nat
  | .number (.unsigned value) => .ok value
  | .number (.integer value) => .ok (toSize value)
  | .number (.float bits) => .ok (Float.ofBits bits).toUInt64.toNat
  | json => .error (mustBe "number" json)

/-- `get<int>`. -/
def getInt : Json → Except TypeError Int
  | .number (.unsigned value) => .ok (toInt value)
  | .number (.integer value) => .ok (toInt value)
  | .number (.float bits) => .ok (Float.ofBits bits).toInt32.toInt
  | .boolean value => .ok (if value then 1 else 0)
  | json => .error (mustBe "number" json)

/-- `get<double>`, as the bits. -/
def getDouble : Json → Except TypeError UInt64
  | .number (.unsigned value) => .ok (Float.ofNat value).toBits
  | .number (.integer value) => .ok (Float.ofInt value).toBits
  | .number (.float bits) => .ok bits
  | json => .error (mustBe "number" json)

/-- `get<bool>`. -/
def getBool : Json → Except TypeError Bool
  | .boolean value => .ok value
  | json => .error (mustBe "boolean" json)

/-- `get<std::string>`. -/
def getString : Json → Except TypeError Text
  | .string value => .ok value
  | json => .error (mustBe "string" json)

/-- `get<std::vector<std::string>>`. -/
def getStrings : Json → Except TypeError (List Text)
  | .array elements => elements.mapM getString
  | json => .error (mustBe "array" json)

/-- `get<nlohmann::json>`. -/
def getJson (json : Json) : Except TypeError Json :=
  .ok json

/-! ## Members -/

/-- `find`, or nothing for `end()`. -/
def find (key : Text) : Json → Option Json
  | .object members => members.lookup key
  | _ => none

/-- `is_object`. -/
def isObject : Json → Bool
  | .object _ => true
  | _ => false

/-- `value(key, default)`. -/
def value {T : Type} (get : Json → Except TypeError T) (key : String) (default : T) :
    Json → Except TypeError T
  | .object members =>
      match members.lookup key.toList with
      | some member => get member
      | none => .ok default
  | json => .error { id := 306, what := "cannot use value() with " ++ json.typeName }

/-- A member which is read where it is contained. -/
def contained {T : Type} (get : Json → Except TypeError T) (key : String) (default : T)
    (json : Json) : Except TypeError T :=
  match json.find key.toList with
  | some member => get member
  | none => .ok default

/-- The order of the keys of a `std::map`. -/
def keyBefore : Text → Text → Bool
  | [], [] => false
  | [], _ :: _ => true
  | _ :: _, [] => false
  | c :: first, d :: second =>
      if c = d then keyBefore first second else decide (c.toNat < d.toNat)

/-- `json[key] = value`. -/
def setMember (key : Text) (value : Json) : List (Text × Json) → List (Text × Json)
  | [] => [(key, value)]
  | (other, old) :: rest =>
      if key = other then (key, value) :: rest
      else if keyBefore key other then (key, value) :: (other, old) :: rest
      else (other, old) :: setMember key value rest

/-- An object from an initializer list. -/
def ofMembers (members : List (String × Json)) : Json :=
  .object (members.foldl (fun object member => setMember member.1.toList member.2 object) [])

mutual

/-- `deep_merge`. -/
def deepMerge (dst : Json) : Json → Json
  | .object src =>
      match dst with
      | .object members => .object (mergeMembers members src)
      | _ => .object src
  | src => src

/-- The loop of `deep_merge`. -/
def mergeMembers (dst : List (Text × Json)) : List (Text × Json) → List (Text × Json)
  | [] => dst
  | member :: rest => mergeMembers (mergeMember dst member) rest

/-- One turn of the loop of `deep_merge`. -/
def mergeMember (dst : List (Text × Json)) : Text × Json → List (Text × Json)
  | (key, value) =>
      match dst.lookup key, value with
      | some (.object old), .object src =>
          setMember key (deepMerge (.object old) (.object src)) dst
      | _, _ => setMember key value dst

end

/-! ## Equality -/

/-- `operator==` on numbers. -/
def sameNumber : Number → Number → Bool
  | .integer first, .integer second => first == second
  | .unsigned first, .unsigned second => first == second
  | .float first, .float second => Float.ofBits first == Float.ofBits second
  | .integer first, .float second => Float.ofInt first == Float.ofBits second
  | .float first, .integer second => Float.ofBits first == Float.ofInt second
  | .unsigned first, .float second => Float.ofNat first == Float.ofBits second
  | .float first, .unsigned second => Float.ofBits first == Float.ofNat second
  | .unsigned first, .integer second => Int.bmod first UInt64.size == second
  | .integer first, .unsigned second => first == Int.bmod second UInt64.size

mutual

/-- `operator==`. -/
def same : Json → Json → Bool
  | .null, .null => true
  | .boolean first, .boolean second => first == second
  | .number first, .number second => sameNumber first second
  | .string first, .string second => first == second
  | .array first, .array second => sameElements first second
  | .object first, .object second => sameMembers first second
  | _, _ => false

/-- `operator==` on arrays. -/
def sameElements : List Json → List Json → Bool
  | [], [] => true
  | first :: firsts, second :: seconds => same first second && sameElements firsts seconds
  | _, _ => false

/-- `operator==` on the maps of objects. -/
def sameMembers : List (Text × Json) → List (Text × Json) → Bool
  | [], [] => true
  | first :: firsts, second :: seconds => sameMember first second && sameMembers firsts seconds
  | _, _ => false

/-- `operator==` on the pairs of a map. -/
def sameMember : Text × Json → Text × Json → Bool
  | (key, first), (other, second) => key == other && same first second

end

/-- The loop of `walk_dot_path`, on the keys between the dots. -/
def walk : Json → List Text → Option Json
  | current, [] => some current
  | current, key :: rest => (current.find key).bind fun next => walk next rest

/-- `walk_dot_path`. -/
def walkDotPath (node : Json) (path : Text) : Option Json :=
  if path = [] then some node else walk node (path.splitOn '.')

/-- `json_pointer_at`. -/
def jsonPointerAt (doc : Json) (path : Text) : Json :=
  (walkDotPath doc path).getD .null

end Json

end Foxhttp.Config
