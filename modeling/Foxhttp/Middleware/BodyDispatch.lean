import Foxhttp.Config.Sections
import Foxhttp.Middleware.BuiltIn

/-!
# Do the dispatch and the parsers read one header?

`handle_body` cuts the content type at the semicolon, trims it and writes it in
lower case before it chooses the type of body. The parsers test the front of the
header as it came. So a header may choose a type for which no parser is found,
and the request is answered 400 whatever its body.
-/

namespace Foxhttp.Parser

open Foxhttp.Library
open Foxhttp.Config (PlainTextConfig)

/-- `JsonParser::supports`. -/
def JsonParser.supports (contentType : Text) : Bool :=
  contentType == "application/json".toList || "application/json;".toList.isPrefixOf contentType

/-- `FormParser::supports`. -/
def FormParser.supports (contentType : Text) : Bool :=
  "application/x-www-form-urlencoded".toList.isPrefixOf contentType

/-- `MultipartParser::supports`. -/
def MultipartParser.supports (contentType : Text) : Bool :=
  "multipart/form-data".toList.isPrefixOf contentType

namespace PlainTextParser

/-- The configuration which the constructor of `PlainTextParser` keeps. -/
def configOf (config : PlainTextConfig) : PlainTextConfig :=
  if config.allowedContentTypes.isEmpty then
    { config with
      allowedContentTypes :=
        ["text/plain".toList, "text/html".toList, "text/css".toList, "text/javascript".toList,
          "text/xml".toList, "text/csv".toList, "text/markdown".toList] }
  else config

/-- `PlainTextParserImpl::is_allowed_content_type`. -/
def isAllowedContentType (config : PlainTextConfig) (contentType : Text) : Bool :=
  config.allowedContentTypes.isEmpty || config.allowedContentTypes.any fun allowed =>
    contentType == allowed || (allowed ++ [';']).isPrefixOf contentType

/-- `PlainTextParser::supports`. -/
def supports (config : PlainTextConfig) (contentType : Text) : Bool :=
  if config.strictMode then isAllowedContentType config contentType
  else "text/".toList.isPrefixOf contentType

end PlainTextParser

end Foxhttp.Parser

namespace Foxhttp.Middleware

open Foxhttp.Library
open Foxhttp.Parser

variable {α : Type}

/-- The registry of `ParserFactory`, by result types. -/
abbrev ParserRegistry (α : Type) := BodyType → Option (List (BodyParser α))

/-- `ParserFactory::get_best`. -/
def ParserRegistry.getBest (registry : ParserRegistry α) : ParserFactory α := fun type request =>
  match registry type with
  | none => .error "No parser registered for this type".toList
  | some parsers =>
      match parsers.find? fun parser => parser.supports request with
      | some parser => .ok parser
      | none => .error "No suitable parser supports this request".toList

/-- `supports` of the parser which `REGISTER_PARSER` registers for a type. -/
def defaultSupports (type : BodyType) (contentType : Text) : Bool :=
  match type with
  | .json => JsonParser.supports contentType
  | .form => FormParser.supports contentType
  | .multipart => MultipartParser.supports contentType
  | .text => PlainTextParser.supports (PlainTextParser.configOf {}) contentType

/-- The registered parser of a type, with its `parse`. -/
def defaultParser (parse : BodyType → HttpRequest → Except Text α) (type : BodyType) :
    BodyParser α where
  supports request := defaultSupports type (request.header "Content-Type".toList)
  parse := parse type

/-- What `REGISTER_PARSER` registers. -/
def defaultRegistry (parse : BodyType → HttpRequest → Except Text α) : ParserRegistry α :=
  fun type => some [defaultParser parse type]

/-- A parser is found for the type, and a request is answered only where `parse`
fails. -/
def DispatchAgrees (mw : BodyParserMiddleware) (parse : BodyType → HttpRequest → Except Text α)
    (request : HttpRequest) (type : BodyType) : Prop :=
  (∃ parser, (defaultRegistry parse).getBest type request = .ok parser) ∧
    ∀ unchunked state res,
      (mw.handleBody unchunked (defaultRegistry parse).getBest request state res).1 = true →
        ∃ what, parse type request = .error what

/-- A content type is spelled as the parser of its type reads it. -/
def Spelled : BodyType → Text → Prop
  | .json, raw => raw.takeWhile (· != ';') = "application/json".toList
  | .form, raw => "application/x-www-form-urlencoded".toList <+: raw
  | .multipart, raw => "multipart/form-data".toList <+: raw
  | .text, raw => "text/".toList <+: raw

/-- The JSON parser reads the text in front of the first semicolon. -/
theorem jsonSupports_iff (raw : Text) :
    JsonParser.supports raw = true ↔ raw.takeWhile (· != ';') = "application/json".toList := by
  have unbroken : ∀ c ∈ "application/json".toList, (c != ';') = true :=
    List.all_eq_true.mp rfl
  have marked : "application/json;".toList = "application/json".toList ++ [';'] := by decide
  rw [JsonParser.supports, Bool.or_eq_true, beq_iff_eq, List.isPrefixOf_iff_prefix, marked]
  constructor
  · rintro (rfl | ⟨rest, rfl⟩)
    · decide
    · rw [List.append_assoc, List.takeWhile_append_of_pos unbroken]
      simp
  · intro isFront
    have split := List.takeWhile_append_dropWhile (p := (· != ';')) (l := raw)
    rw [isFront] at split
    cases behind : raw.dropWhile (· != ';') with
    | nil =>
        rw [behind, List.append_nil] at split
        exact .inl split.symm
    | cons c rest =>
        have stops := List.head?_dropWhile_not (· != ';') raw
        rw [behind] at stops
        obtain rfl : c = ';' := by simpa using stops
        exact .inr ⟨rest, by rw [List.append_assoc, ← split, behind]; rfl⟩

theorem defaultSupports_iff (type : BodyType) (raw : Text) :
    defaultSupports type raw = true ↔ Spelled type raw := by
  cases type with
  | json => exact jsonSupports_iff raw
  | form => exact List.isPrefixOf_iff_prefix
  | multipart => exact List.isPrefixOf_iff_prefix
  | text => exact List.isPrefixOf_iff_prefix

theorem getBest_default (parse : BodyType → HttpRequest → Except Text α) (type : BodyType)
    (request : HttpRequest) :
    (defaultRegistry parse).getBest type request =
      if defaultSupports type (request.header "Content-Type".toList) then
        .ok (defaultParser parse type)
      else .error "No suitable parser supports this request".toList := by
  rw [ParserRegistry.getBest, defaultRegistry]
  have reads : (defaultParser parse type).supports request =
      defaultSupports type (request.header "Content-Type".toList) := rfl
  dsimp only
  rw [List.find?_singleton, reads]
  cases defaultSupports type (request.header "Content-Type".toList) with
  | false => rfl
  | true => rfl

/-- **Dispatch and parsers agree** on a request exactly when its content type is
spelled as the parser of its type reads it. -/
theorem dispatch_agrees_iff (mw : BodyParserMiddleware)
    (parse : BodyType → HttpRequest → Except Text α) {request : HttpRequest} {type : BodyType}
    (filled : request.body ≠ [])
    (isType : bodyType? (contentTypeBase (request.header "Content-Type".toList)) = some type) :
    DispatchAgrees mw parse request type ↔
      Spelled type (request.header "Content-Type".toList) := by
  rw [← defaultSupports_iff]
  constructor
  · rintro ⟨⟨parser, found⟩, -⟩
    rw [getBest_default] at found
    split at found
    · assumption
    · cases found
  · intro supports
    have found := (getBest_default parse type request).trans (if_pos supports)
    refine ⟨⟨_, found⟩, fun unchunked state res stops => ?_⟩
    cases outcome : parse type request with
    | error what => exact ⟨what, rfl⟩
    | ok data =>
        have parsed : BodyParserMiddleware.parseBody (defaultRegistry parse).getBest request state
            type = .ok (state.store type data) := by
          rw [BodyParserMiddleware.parseBody, found]
          simp only [bind, Except.bind, defaultParser, supports, if_true, outcome]
        rw [BodyParserMiddleware.handleBody, if_neg filled] at stops
        simp only [isType, parsed] at stops
        split at stops <;> cases stops

/-- A request of a content type. -/
def requestOfType (contentType body : Text) : HttpRequest :=
  ⟨.post, [("Content-Type".toList, contentType)], body⟩

/-- A form whose content type has a blank and a parameter behind it. -/
theorem dispatch_agrees_form :
    DispatchAgrees ⟨[], true⟩ (fun _ request => .ok request.body)
        (requestOfType "application/x-www-form-urlencoded ;charset=utf-8".toList "a=1".toList)
        .form ↔
      Spelled .form ((requestOfType "application/x-www-form-urlencoded ;charset=utf-8".toList
        "a=1".toList).header "Content-Type".toList) :=
  dispatch_agrees_iff ⟨[], true⟩ (fun _ request => .ok request.body) (by decide) (by decide)

/-- JSON in capital letters has no parser. -/
theorem capital_json_unsupported :
    ¬ ∀ (mw : BodyParserMiddleware) (parse : BodyType → HttpRequest → Except Text Text)
      (request : HttpRequest) (type : BodyType), request.body ≠ [] →
        bodyType? (contentTypeBase (request.header "Content-Type".toList)) = some type →
          DispatchAgrees mw parse request type := by
  intro dispatchAgrees
  obtain ⟨⟨parser, found⟩, -⟩ := dispatchAgrees ⟨[], true⟩ (fun _ request => .ok request.body)
    (requestOfType "Application/JSON".toList "1".toList) .json (by decide) (by decide)
  rw [getBest_default, if_neg (by decide)] at found
  cases found

end Foxhttp.Middleware
