import Foxhttp.Library.Base64
import Foxhttp.Middleware.Program
import Foxhttp.Server.RequestContext

/-!
# Authentication, scheme by scheme

`AuthMiddleware` takes the credentials of a scheme from a request and hands them
to the validator which was set for it. Each scheme calls its validator once or
not at all. Basic credentials are decoded by a table and split at the first
colon, so a user name without a colon and any password arrive as they were sent.
-/

namespace Foxhttp.Middleware

open Foxhttp.Library Foxhttp.Library.Base64
open Foxhttp.Server (RequestContext)

structure AuthUser where
  id : Text
  roles : List Text
  deriving DecidableEq, Repr

inductive AuthScheme where
  | bearerJwt | basic | digest | apiKey | oauth2 | sessionCookie
  deriving DecidableEq, Repr

/-- The type of the parameters of a digest. -/
abbrev DigestParams := AList fun _ : Text => Text

/-- A call of a validator, with its arguments. -/
inductive ValidatorCall where
  | jwt (token : Text)
  | basic (username password : Text)
  | digest (params : DigestParams) (method : Text)
  | apiKey (key : Text)
  | oauth2 (accessToken : Text)
  | session (sessionId : Text)

/-- How the validators behave, which may depend on the calls made so far: a call
gives a user, no user, or an exception. -/
abbrev Validators := List ValidatorCall → ValidatorCall → Except Exn (Option AuthUser)

/-- `AuthMiddleware`, with the schemes whose validator is set. -/
structure AuthMiddleware where
  schemes : List AuthScheme
  apiKeyHeader : Text := "X-API-Key".toList
  apiKeyQueryParam : Text := "api_key".toList
  sessionCookieName : Text := "SESSIONID".toList
  realm : Text := "foxhttp".toList
  installed : AuthScheme → Bool := fun _ => false

/-- A call of the middleware: the context, the response, the calls of validators,
the contexts in which `next()` was called, and the statuses with which the
middleware itself answered. -/
structure AuthTurn (α : Type) where
  ctx : RequestContext α
  res : HttpResponse
  calls : List ValidatorCall := []
  nexts : List (RequestContext α) := []
  answers : List Nat := []

namespace AuthMiddleware

/-! ## Reading credentials -/

/-- The table `T`. -/
def table : List Int :=
  [-1, -1, -1, -1, -1, -1, -1, -1, -1, -1, -1, -1, -1, -1, -1, -1,
    -1, -1, -1, -1, -1, -1, -1, -1, -1, -1, -1, -1, -1, -1, -1, -1,
    -1, -1, -1, -1, -1, -1, -1, -1, -1, -1, -1, 62, -1, -1, -1, 63,
    52, 53, 54, 55, 56, 57, 58, 59, 60, 61, -1, -1, -1, -1, -1, -1,
    -1, 0, 1, 2, 3, 4, 5, 6, 7, 8, 9, 10, 11, 12, 13, 14,
    15, 16, 17, 18, 19, 20, 21, 22, 23, 24, 25, -1, -1, -1, -1, -1,
    -1, 26, 27, 28, 29, 30, 31, 32, 33, 34, 35, 36, 37, 38, 39, 40,
    41, 42, 43, 44, 45, 46, 47, 48, 49, 50, 51, -1, -1, -1, -1, -1,
    -1, -1, -1, -1, -1, -1, -1, -1, -1, -1, -1, -1, -1, -1, -1, -1,
    -1, -1, -1, -1, -1, -1, -1, -1, -1, -1, -1, -1, -1, -1, -1, -1,
    -1, -1, -1, -1, -1, -1, -1, -1, -1, -1, -1, -1, -1, -1, -1, -1,
    -1, -1, -1, -1, -1, -1, -1, -1, -1, -1, -1, -1, -1, -1, -1, -1,
    -1, -1, -1, -1, -1, -1, -1, -1, -1, -1, -1, -1, -1, -1, -1, -1,
    -1, -1, -1, -1, -1, -1, -1, -1, -1, -1, -1, -1, -1, -1, -1, -1,
    -1, -1, -1, -1, -1, -1, -1, -1, -1, -1, -1, -1, -1, -1, -1, -1,
    -1, -1, -1, -1, -1, -1, -1, -1, -1, -1, -1, -1, -1, -1, -1, -1]

/-- What a character is to `base64_decode`. -/
def reading (c : Char) : Reading :=
  if c = '=' then .stop
  else
    let t := table.getD c.toNat (-1)
    if t = -1 then .skip else .bits t.toNat

/-- `base64_decode`. -/
def base64Decode (encoded : Text) : Text :=
  decodeLoop reading 0 (-8) encoded

/-- `split_first`. -/
def splitFirst (s : Text) (delim : Char) : Text × Text :=
  match Text.find s delim 0 with
  | none => (s, [])
  | some p => (Text.substr s 0 p, s.drop (p + 1))

/-- `query_param`. -/
def queryParam {α : Type} (ctx : RequestContext α) (key : Text) : Option Text :=
  (ctx.queryParams.lookup key).bind List.head?

/-! ## The parameters of a digest -/

/-- The states of `parse_kv`. -/
inductive KvState where
  | K | V | Q
  deriving DecidableEq

/-- The variables of `parse_kv`. -/
structure KvParse where
  out : DigestParams := ∅
  key : Text := []
  val : Text := []
  state : KvState := .K

/-- `std::iscntrl` in the C locale. -/
def isControl (c : Char) : Bool :=
  c.toNat < 32 || c.toNat == 127

/-- A turn of the loop of `parse_kv`. -/
def kvTurn (parse : KvParse) (c : Char) : KvParse :=
  match parse.state with
  | .K =>
      if c = '=' then { parse with state := .V }
      else if c.isAlphanum || c == '-' || c == '_' then { parse with key := parse.key ++ [c] }
      else parse
  | .V =>
      if c = '"' then { parse with state := .Q }
      else if c = ',' then
        { out := parse.out.insert parse.key parse.val, key := [], val := [], state := .K }
      else if isControl c then parse
      else { parse with val := parse.val ++ [c] }
  | .Q =>
      if c = '"' then { parse with state := .V }
      else if c = '\r' ∨ c = '\n' then parse
      else { parse with val := parse.val ++ [c] }

/-- `parse_kv`. -/
def parseKv (s : Text) : DigestParams :=
  let parse := s.foldl kvTurn {}
  if parse.key = [] then parse.out else parse.out.insert parse.key parse.val

/-! ## The schemes -/

section Schemes

variable {α : Type} (mw : AuthMiddleware)

/-- The call with which a branch of `authenticate` ends, if it does not return
`std::nullopt` in front of it. -/
def credentials (ctx : RequestContext α) : AuthScheme → Option ValidatorCall
  | .bearerJwt =>
      let h := ctx.header "Authorization".toList
      if h.length < 8 ∨ ¬ "Bearer ".toList <+: h then none
      else
        let token := h.drop 7
        if 8192 < token.length then none
        else if mw.installed .bearerJwt then some (.jwt token)
        else none
  | .basic =>
      if !mw.installed .basic then none
      else
        let h := ctx.header "Authorization".toList
        if "Basic ".toList <+: h then
          let decoded := base64Decode (h.drop 6)
          let pair := splitFirst decoded ':'
          some (.basic pair.1 pair.2)
        else none
  | .digest =>
      if !mw.installed .digest then none
      else
        let h := ctx.header "Authorization".toList
        if "Digest ".toList <+: h then some (.digest (parseKv (h.drop 7)) ctx.req.methodString)
        else none
  | .apiKey =>
      if !mw.installed .apiKey then none
      else
        let key := ctx.header mw.apiKeyHeader
        let key := if key = [] then (queryParam ctx mw.apiKeyQueryParam).getD key else key
        if key ≠ [] then
          if 256 < key.length then none else some (.apiKey key)
        else none
  | .oauth2 =>
      if !mw.installed .oauth2 then none
      else
        let h := ctx.header "Authorization".toList
        if "Bearer ".toList <+: h then some (.oauth2 (h.drop 7)) else none
  | .sessionCookie =>
      if !mw.installed .sessionCookie then none
      else
        let sid := ctx.cookie mw.sessionCookieName
        if sid ≠ [] then some (.session sid) else none

/-- `authenticate`. -/
def authenticate (validators : Validators) (turn : AuthTurn α) (scheme : AuthScheme) :
    AuthTurn α × Except Exn (Option AuthUser) :=
  match mw.credentials turn.ctx scheme with
  | none => (turn, .ok none)
  | some call => ({ turn with calls := turn.calls ++ [call] }, validators turn.calls call)

end Schemes

/-! ## Basic credentials -/

theorem reads_reading : Reads reading where
  digits := by decide +kernel
  padding := rfl

theorem base64Decode_encode {text : Text} (bytes : ∀ c ∈ text, c.toNat < 256) :
    base64Decode (encode text) = text :=
  decodeLoop_encode reads_reading bytes 0

/-- A text is split at the first of the delimiters. -/
theorem splitFirst_append {front : Text} {delim : Char} (absent : delim ∉ front) (rest : Text) :
    splitFirst (front ++ delim :: rest) delim = (front, rest) := by
  rw [splitFirst, Text.find_self absent]
  refine Prod.ext List.take_left ?_
  show (front ++ delim :: rest).drop (front.length + 1) = rest
  rw [List.drop_append, List.drop_of_length_le (Nat.le_succ _), Nat.add_sub_cancel_left]
  rfl

/-- With Basic credentials in the header, the validator is called once, with the
user name and the password. -/
theorem authenticate_basic {α : Type} (mw : AuthMiddleware) (validators : Validators)
    (turn : AuthTurn α) {username password : Text} (installed : mw.installed .basic = true)
    (bytes : ∀ c ∈ username ++ password, c.toNat < 256) (noColon : ':' ∉ username)
    (header : turn.ctx.header "Authorization".toList =
      "Basic ".toList ++ encode (username ++ ':' :: password)) :
    mw.authenticate validators turn .basic =
      ({ turn with calls := turn.calls ++ [.basic username password] },
        validators turn.calls (.basic username password)) := by
  have decoded : base64Decode (encode (username ++ ':' :: password)) =
      username ++ ':' :: password := by
    refine base64Decode_encode fun c member => ?_
    rw [List.mem_append, List.mem_cons] at member
    rcases member with inName | rfl | inPassword
    · exact bytes c (List.mem_append_left _ inName)
    · decide
    · exact bytes c (List.mem_append_right _ inPassword)
  have taken : mw.credentials turn.ctx .basic = some (.basic username password) := by
    have behind : (turn.ctx.header "Authorization".toList).drop 6 =
        encode (username ++ ':' :: password) := by
      rw [header]
      exact List.drop_left' rfl
    rw [credentials, installed]
    simp only [Bool.not_true, Bool.false_eq_true, if_false, behind, decoded,
      splitFirst_append noColon]
    rw [if_pos (header ▸ List.prefix_append _ _)]
  rw [authenticate, taken]

/-- The user name and the password of a header as a client writes it. -/
theorem authenticate_basic_aladdin :
    let turn : AuthTurn AuthUser :=
      { ctx := .new ⟨"GET".toList, "/".toList,
          [("Authorization".toList, "Basic QWxhZGRpbjpvcGVuIHNlc2FtZQ==".toList)]⟩
        res := ⟨200, [], []⟩ }
    let mw : AuthMiddleware := { schemes := [.basic], installed := fun _ => true }
    mw.authenticate (fun _ _ => .ok none) turn .basic =
      ({ turn with calls := [.basic "Aladdin".toList "open sesame".toList] }, .ok none) :=
  authenticate_basic _ _ _ rfl (by simp) (by decide) (by decide)

end AuthMiddleware

end Foxhttp.Middleware
