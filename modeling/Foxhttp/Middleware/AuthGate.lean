import Foxhttp.Middleware.Authentication

/-!
# The gate of the authentication

`AuthMiddleware` tries its schemes in order. The first user opens the gate, and
without one the request is answered with 401. The `try` block around the schemes
has the call of `next()` in it too, so an exception from behind the gate is taken
for a failure of the authentication, and answers 401 to a request which passed.
-/

namespace Foxhttp.Middleware.AuthMiddleware

open Foxhttp.Library
open Foxhttp.Server (RequestContext)

variable {α : Type}

/-! ## The middleware -/

/-- What is advertised for a scheme. -/
def challenge (mw : AuthMiddleware) : AuthScheme → Option Text
  | .bearerJwt | .oauth2 => some ("Bearer realm=\"".toList ++ mw.realm ++ "\"".toList)
  | .basic => some ("Basic realm=\"".toList ++ mw.realm ++ "\"".toList)
  | .digest => some ("Digest realm=\"".toList ++ mw.realm ++ "\"".toList)
  | .apiKey => some "ApiKey".toList
  | .sessionCookie => none

/-- `set_www_authenticate_header`. -/
def setWwwAuthenticateHeader (mw : AuthMiddleware) (res : HttpResponse) : HttpResponse :=
  let parts := mw.schemes.filterMap mw.challenge
  if parts = [] then res
  else res.set "WWW-Authenticate".toList ((", ".toList).intercalate parts)

/-- The statements of both answers. -/
def unauthorized (mw : AuthMiddleware) (unchunked : Text → Text) (body : Text)
    (turn : AuthTurn α) : AuthTurn α :=
  let res := ({ turn.res with status := 401 } : HttpResponse).set "Content-Type".toList
    "application/json".toList
  let res := mw.setWwwAuthenticateHeader res
  { turn with
    res := ({ res with body := body } : HttpResponse).preparePayload unchunked
    answers := turn.answers ++ [401] }

/-- `next()`: what it leaves of the context and the response, and what it throws. -/
abbrev Downstream (α : Type) :=
  RequestContext α → HttpResponse → (RequestContext α × HttpResponse) × Option Exn

/-- A call of `next()`. -/
def callNext (next : Downstream α) (turn : AuthTurn α) : AuthTurn α × Option Exn :=
  let left := next turn.ctx turn.res
  ({ turn with ctx := left.1.1, res := left.1.2, nexts := turn.nexts ++ [turn.ctx] }, left.2)

section Call

variable (mw : AuthMiddleware) (validators : Validators) (unchunked : Text → Text)
  (box : AuthUser → α) (next : Downstream α)

/-- The `try` block of `operator()`, from a scheme on. -/
def tryBlock : List AuthScheme → AuthTurn α → AuthTurn α × Option Exn
  | [], turn => (mw.unauthorized unchunked "\x7b\"error\":\"unauthorized\"\x7d".toList turn, none)
  | scheme :: rest, turn =>
      match mw.authenticate validators turn scheme with
      | (turn, .error e) => (turn, some e)
      | (turn, .ok none) => tryBlock rest turn
      | (turn, .ok (some user)) =>
          callNext next { turn with ctx := turn.ctx.set "auth.user".toList (box user) }

/-- `operator()`, with `catch (const std::exception &e)`. -/
def call (turn : AuthTurn α) : AuthTurn α × Option Exn :=
  match tryBlock mw validators unchunked box next mw.schemes turn with
  | (turn, none) => (turn, none)
  | (turn, some e) =>
      match e.what? with
      | some what =>
          (mw.unauthorized unchunked
            ("\x7b\"error\":\"auth_error\",\"message\":\"".toList ++ what.toList ++
              "\"\x7d".toList) turn,
            none)
      | none => (turn, some e)

end Call

/-- Either answer has the status 401 and counts as an answer of the middleware. -/
theorem unauthorized_status (mw : AuthMiddleware) (unchunked : Text → Text) (body : Text)
    (turn : AuthTurn α) : (mw.unauthorized unchunked body turn).res.status = 401 := by
  rw [unauthorized, HttpResponse.preparePayload_status]
  simp only [setWwwAuthenticateHeader]
  split <;> rfl

/-! ## Trying the schemes -/

/-- From a scheme on, one yields a user before a validator throws. -/
inductive Authenticates (mw : AuthMiddleware) (validators : Validators) :
    AuthTurn α → List AuthScheme → AuthUser → Prop where
  | here {turn scheme rest user}
      (yields : (mw.authenticate validators turn scheme).2 = .ok (some user)) :
      Authenticates mw validators turn (scheme :: rest) user
  | later {turn scheme rest user}
      (passes : (mw.authenticate validators turn scheme).2 = .ok none)
      (behind : Authenticates mw validators (mw.authenticate validators turn scheme).1 rest user) :
      Authenticates mw validators turn (scheme :: rest) user

section Gate

variable {mw : AuthMiddleware} {validators : Validators} {unchunked : Text → Text}
  {box : AuthUser → α} {next : Downstream α}

/-- A scheme calls a validator and nothing else. -/
theorem authenticate_frame (turn : AuthTurn α) (scheme : AuthScheme) :
    ∃ calls, (mw.authenticate validators turn scheme).1 = { turn with calls } := by
  rw [authenticate]
  split
  · exact ⟨turn.calls, rfl⟩
  · exact ⟨_, rfl⟩

/-- An exception of a scheme is one of its validator. -/
theorem error_of_authenticate {turn : AuthTurn α} {scheme : AuthScheme} {e : Exn}
    (throws : (mw.authenticate validators turn scheme).2 = .error e) :
    ∃ calls call, validators calls call = .error e := by
  rw [authenticate] at throws
  split at throws
  · cases throws
  · exact ⟨_, _, throws⟩

/-- When a scheme yields a user, the block calls `next()` with the user stored. -/
theorem tryBlock_of_authenticates {turn : AuthTurn α} {schemes : List AuthScheme}
    {user : AuthUser} (authenticates : Authenticates mw validators turn schemes user) :
    ∃ calls, tryBlock mw validators unchunked box next schemes turn =
      callNext next
        { turn with ctx := turn.ctx.set "auth.user".toList (box user), calls := calls } := by
  induction authenticates with
  | @here turn scheme rest user yields =>
      obtain ⟨calls, frame⟩ := @authenticate_frame α mw validators turn scheme
      refine ⟨calls, ?_⟩
      have attempt : mw.authenticate validators turn scheme =
          ({ turn with calls }, .ok (some user)) := Prod.ext frame yields
      rw [tryBlock, attempt]
  | @later turn scheme rest user passes behind inductionHypothesis =>
      obtain ⟨calls, frame⟩ := @authenticate_frame α mw validators turn scheme
      obtain ⟨finalCalls, ended⟩ := inductionHypothesis
      refine ⟨finalCalls, ?_⟩
      have attempt : mw.authenticate validators turn scheme = ({ turn with calls }, .ok none) :=
        Prod.ext frame passes
      rw [attempt] at ended
      rw [tryBlock, attempt]
      exact ended

/-- When no scheme yields a user, the block answers or lets an exception of a
validator out, and does not call `next()`. -/
theorem tryBlock_of_not {turn : AuthTurn α} {schemes : List AuthScheme}
    (nobody : ∀ user, ¬ Authenticates mw validators turn schemes user) :
    ∃ calls, tryBlock mw validators unchunked box next schemes turn =
        (mw.unauthorized unchunked "\x7b\"error\":\"unauthorized\"\x7d".toList
          { turn with calls := calls }, none) ∨
      ∃ e, (∃ earlier call, validators earlier call = .error e) ∧
        tryBlock mw validators unchunked box next schemes turn =
          ({ turn with calls := calls }, some e) := by
  induction schemes generalizing turn with
  | nil => exact ⟨turn.calls, .inl rfl⟩
  | cons scheme rest inductionHypothesis =>
      obtain ⟨calls, frame⟩ := @authenticate_frame α mw validators turn scheme
      cases result : (mw.authenticate validators turn scheme).2 with
      | error e =>
          have attempt : mw.authenticate validators turn scheme = ({ turn with calls }, .error e) :=
            Prod.ext frame result
          exact ⟨calls, .inr ⟨e, error_of_authenticate result, by rw [tryBlock, attempt]⟩⟩
      | ok found =>
          cases found with
          | some user => exact absurd (.here result) (nobody user)
          | none =>
              have attempt : mw.authenticate validators turn scheme =
                  ({ turn with calls }, .ok none) := Prod.ext frame result
              have nobodyBehind :
                  ∀ user, ¬ Authenticates mw validators { turn with calls } rest user :=
                fun user behind => nobody user (.later result (frame ▸ behind))
              rw [tryBlock, attempt]
              exact inductionHypothesis nobodyBehind

/-! ## What the gate lets through -/

/-- The user is stored, `next()` is called, and an exception of a `std` kind which
it throws is answered with 401. -/
theorem call_of_authenticates {turn : AuthTurn α} {user : AuthUser}
    (authenticates : Authenticates mw validators turn mw.schemes user) :
    let entered := turn.ctx.set "auth.user".toList (box user)
    (call mw validators unchunked box next turn).1.nexts = turn.nexts ++ [entered] ∧
      (call mw validators unchunked box next turn).1.answers = turn.answers ++
        if (next entered turn.res).2.any fun e => e.what?.isSome then [401] else [] := by
  obtain ⟨calls, block⟩ := @tryBlock_of_authenticates α mw validators unchunked box next _ _ _
    authenticates
  intro entered
  rw [call, block, callNext]
  cases (next entered turn.res).2 with
  | none => exact ⟨rfl, (List.append_nil _).symm⟩
  | some e =>
      simp only
      cases isStd : e.what? with
      | none => exact ⟨rfl, by simp [isStd]⟩
      | some what => exact ⟨rfl, by simp [isStd, unauthorized]⟩

/-- Without a user `next()` is not called and the response is 401. -/
theorem call_of_not {turn : AuthTurn α}
    (stdOnly : ∀ calls call e, validators calls call = .error e → e.what? ≠ none)
    (nobody : ∀ user, ¬ Authenticates mw validators turn mw.schemes user) :
    (call mw validators unchunked box next turn).1.nexts = turn.nexts ∧
      (call mw validators unchunked box next turn).1.res.status = 401 := by
  obtain ⟨calls, ⟨block⟩ | ⟨e, ⟨earlier, made, threw⟩, block⟩⟩ :=
    @tryBlock_of_not α mw validators unchunked box next _ _ nobody
  · rw [call, block]
    exact ⟨rfl, unauthorized_status _ _ _ _⟩
  · obtain ⟨what, isStd⟩ := Option.ne_none_iff_exists'.mp (stdOnly earlier made e threw)
    rw [call, block]
    simp only [isStd]
    exact ⟨rfl, unauthorized_status _ _ _ _⟩

/-- The gate stands exactly on the authentication of a request: `next()` is called
once, with the first user stored, or not at all with a response of 401; and a
request which authenticated is not answered with 401 by the middleware. -/
structure Gates (mw : AuthMiddleware) (validators : Validators) (unchunked : Text → Text)
    (box : AuthUser → α) (next : Downstream α) (ctx : RequestContext α) (res : HttpResponse) :
    Prop where
  admits : ∀ user, Authenticates mw validators { ctx, res } mw.schemes user →
    ∃ entered, (call mw validators unchunked box next { ctx, res }).1.nexts = [entered] ∧
      entered.items.lookup "auth.user".toList = some (box user)
  refuses : (∀ user, ¬ Authenticates mw validators { ctx, res } mw.schemes user) →
    (call mw validators unchunked box next { ctx, res }).1.nexts = [] ∧
      (call mw validators unchunked box next { ctx, res }).1.res.status = 401
  spares : ∀ user, Authenticates mw validators { ctx, res } mw.schemes user →
    401 ∉ (call mw validators unchunked box next { ctx, res }).1.answers

/-- With validators which throw nothing but `std::exception`s, the gate stands
exactly unless a request authenticates and `next()` throws one. -/
theorem gates_iff {ctx : RequestContext α} {res : HttpResponse}
    (stdOnly : ∀ calls call e, validators calls call = .error e → e.what? ≠ none) :
    Gates mw validators unchunked box next ctx res ↔
      ∀ user, Authenticates mw validators { ctx, res } mw.schemes user →
        ∀ e, (next (ctx.set "auth.user".toList (box user)) res).2 = some e → e.what? = none := by
  constructor
  · intro gates user authenticates e throws
    obtain ⟨-, answered⟩ :=
      @call_of_authenticates α mw validators unchunked box next _ _ authenticates
    have spared := gates.spares user authenticates
    rw [answered, throws, List.nil_append, Option.any_some] at spared
    by_contra isStd
    rw [if_pos (Option.isSome_iff_ne_none.mpr isStd)] at spared
    exact spared (List.mem_singleton_self 401)
  · intro quiet
    refine ⟨fun user authenticates => ?_, call_of_not stdOnly, fun user authenticates => ?_⟩
    · obtain ⟨entered, -⟩ :=
        @call_of_authenticates α mw validators unchunked box next _ _ authenticates
      exact ⟨_, entered, RequestContext.lookup_set _ _ _⟩
    · obtain ⟨-, answered⟩ :=
        @call_of_authenticates α mw validators unchunked box next _ _ authenticates
      have unmarked : ¬ ((next (ctx.set "auth.user".toList (box user)) res).2.any
          fun e => e.what?.isSome) = true := by
        intro marked
        obtain ⟨e, throws, isStd⟩ := (Option.any_eq_true _ _).mp marked
        rw [quiet user authenticates e throws] at isStd
        cases isStd
      rw [answered, if_neg unmarked]
      exact List.not_mem_nil

end Gate

/-- Keys are checked, and Basic credentials have no validator. -/
def keyGate : AuthMiddleware where
  schemes := [.basic, .apiKey]
  installed := fun scheme => scheme == .apiKey

/-- A validator which knows one user. -/
def admitsAnn : Validators :=
  fun _ _ => .ok (some ⟨"ann".toList, []⟩)

/-- A request with a key. -/
def keyed : RequestContext AuthUser :=
  .new ⟨"GET".toList, "/".toList, [("X-API-Key".toList, "k".toList)]⟩

/-- A `next()` which writes 204 and then ends as given. -/
def writes204 (thrown : Option Exn) : Downstream AuthUser :=
  fun ctx res => ((ctx, { res with status := 204 }), thrown)

theorem authenticates_keyed :
    Authenticates keyGate admitsAnn { ctx := keyed, res := ⟨200, [], []⟩ } keyGate.schemes
      ⟨"ann".toList, []⟩ :=
  .later rfl (.here rfl)

/-- A `next()` which returns. -/
theorem gates_iff_keyed :
    Gates keyGate admitsAnn id id (writes204 none) keyed ⟨200, [], []⟩ ↔
      ∀ user, Authenticates keyGate admitsAnn { ctx := keyed, res := ⟨200, [], []⟩ }
          keyGate.schemes user →
        ∀ e, (writes204 none (keyed.set "auth.user".toList user) ⟨200, [], []⟩).2 = some e →
          e.what? = none :=
  gates_iff fun _ _ _ threw => by cases threw

/-- A full disk behind the gate makes the request one which did not authenticate. -/
theorem downstream_answered_401 :
    (call keyGate admitsAnn id id (writes204 (some (.std "disk full")))
        { ctx := keyed, res := ⟨200, [], []⟩ }).1.res.status = 401 ∧
      ¬ Gates keyGate admitsAnn id id (writes204 (some (.std "disk full"))) keyed
        ⟨200, [], []⟩ :=
  ⟨by decide, fun gates => absurd (gates.spares _ authenticates_keyed) (by decide)⟩

end Foxhttp.Middleware.AuthMiddleware
