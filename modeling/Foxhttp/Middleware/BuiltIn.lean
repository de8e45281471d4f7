import Foxhttp.Library.UrlEncoded
import Foxhttp.Middleware.Overloads
import Foxhttp.Middleware.StaticFiles

/-!
# The built-in middlewares, overload by overload

Both overloads of a middleware are written out. Those of the static files, the
body parser and the compression do their work in one function, and agree. The
response time is measured by the synchronous overload alone. The two overloads
of `CorsMiddleware` answer a preflight request by different statements.
-/

namespace Foxhttp.Middleware

open Foxhttp.Library
open Foxhttp.Library.UrlEncoded (isSpace)
open Foxhttp.Router (Verb)

/-- The parts of a request the middlewares read. -/
structure HttpRequest where
  verb : Verb
  fields : Fields
  body : Text

/-- `RequestContext::header`. -/
def HttpRequest.header (request : HttpRequest) (name : Text) : Text :=
  (request.fields.find name).getD []

/-- The result types of the parsers. -/
inductive BodyType where
  | json | form | multipart | text
  deriving DecidableEq, Repr

/-- What a middleware stores in a context. -/
inductive ContextValue (α : Type) where
  | timePoint (ticks : Int)
  | parsed (value : α)

/-- The parts of a context the middlewares write: `set` and `set_parsed_body`. -/
structure ContextState (α : Type) where
  values : List (Text × ContextValue α)
  parsedBody : List (BodyType × α)

namespace ContextState

variable {α : Type}

/-- `RequestContext::set`. -/
def set (state : ContextState α) (key : Text) (value : ContextValue α) : ContextState α :=
  { state with values := state.values.filter (fun entry => entry.1 != key) ++ [(key, value)] }

/-- `RequestContext::set_parsed_body`. -/
def setParsedBody (state : ContextState α) (type : BodyType) (value : α) : ContextState α :=
  { state with parsedBody := state.parsedBody.filter (fun entry => entry.1 != type) ++
      [(type, value)] }

end ContextState

variable {α : Type}

/-! ## CORS -/

/-- `CorsMiddleware`. -/
structure CorsMiddleware where
  origin : Text
  methods : Text
  headers : Text
  allowCredentials : Bool
  maxAge : Int

namespace CorsMiddleware

/-- The statements with which both overloads begin. -/
def setHeaders (cors : CorsMiddleware) (request : HttpRequest) (res : HttpResponse) :
    HttpResponse :=
  let res := res.set "Access-Control-Allow-Origin".toList
    (if cors.origin = "*".toList then request.header "Origin".toList else cors.origin)
  let res := res.set "Access-Control-Allow-Methods".toList cors.methods
  let res := res.set "Access-Control-Allow-Headers".toList cors.headers
  let res := res.set "Access-Control-Max-Age".toList (toString cors.maxAge).toList
  if cors.allowCredentials then res.set "Access-Control-Allow-Credentials".toList "true".toList
  else res

/-- `CorsMiddleware::operator()`. -/
def overloads (unchunked : Text → Text) (cors : CorsMiddleware) :
    Overloads HttpRequest (ContextState α) HttpResponse where
  call next turn :=
    let turn := turn.writeResponse (cors.setHeaders turn.request)
    if turn.request.verb = .options then
      turn.writeResponse fun res =>
        ({ res with status := 200, body := [] } : HttpResponse).preparePayload unchunked
    else next turn
  callAsync next callback turn :=
    let turn := turn.writeResponse (cors.setHeaders turn.request)
    if turn.request.verb = .options then
      callback .Stop [] (turn.writeResponse fun res => { res with status := 200 })
    else callback .Continue [] (next turn)

end CorsMiddleware

/-! ## Response time -/

/-- A measured duration, as `std::to_string(duration.count()) + "ms"` of what two
readings of the clock, in nanoseconds, are apart. -/
def milliseconds (start finish : Int) : Text :=
  (toString ((finish - start).tdiv 1000000)).toList ++ "ms".toList

/-- `ResponseTimeMiddleware::operator()` with these readings of the clock. -/
def responseTime (headerName : Text) (start finish : Int) :
    Overloads HttpRequest (ContextState α) HttpResponse where
  call next turn :=
    (next turn).writeResponse fun res => res.set headerName (milliseconds start finish)
  callAsync next callback turn :=
    let turn := { turn with
      state := turn.state.set "response_time_start".toList (.timePoint start) }
    callback .Continue [] (next turn)

/-! ## Static files -/

/-- `prepare_payload()`. -/
def StaticResponse.preparePayload (res : StaticResponse) : StaticResponse :=
  { res with contentLength := some res.body.length }

/-- `StaticMiddleware::operator()`. -/
def StaticMiddleware.overloads (middleware : StaticMiddleware) (fs : FileSystem) :
    Overloads StaticRequest (ContextState α) StaticResponse where
  call next turn :=
    let (r, res) := middleware.tryServe fs turn.request turn.res
    let turn := { turn with res }
    if r = .notApplicable then next turn
    else turn.writeResponse StaticResponse.preparePayload
  callAsync next callback turn :=
    let (r, res) := middleware.tryServe fs turn.request turn.res
    let turn := { turn with res }
    if r = .notApplicable then callback .Continue [] (next turn)
    else callback .Stop [] (turn.writeResponse StaticResponse.preparePayload)

/-! ## Body parser -/

/-- `Parser<T>`; an exception is its `what()`. -/
structure BodyParser (α : Type) where
  supports : HttpRequest → Bool
  parse : HttpRequest → Except Text α

/-- `ParserFactory::get_best` for the result types, of whatever is registered. -/
abbrev ParserFactory (α : Type) := BodyType → HttpRequest → Except Text (BodyParser α)

/-- `BodyParserMiddleware`. -/
structure BodyParserMiddleware where
  name : Text
  badRequestOnError : Bool

/-- `content_type_base`. -/
def contentTypeBase (raw : Text) : Text :=
  let s := match Text.find raw ';' 0 with
    | some pos => Text.substr raw 0 pos
    | none => raw
  ((s.dropWhile isSpace).rdropWhile isSpace).map Char.toLower

/-- The type of body a content type stands for. -/
def bodyType? (base : Text) : Option BodyType :=
  if base = "application/json".toList then some .json
  else if base = "application/x-www-form-urlencoded".toList then some .form
  else if "multipart/".toList <+: base then some .multipart
  else if "text/".toList <+: base then some .text
  else none

/-- What a branch of `handle_body` does with what was parsed. -/
def ContextState.store (state : ContextState α) (type : BodyType) (value : α) : ContextState α :=
  match type with
  | .json | .text => state.setParsedBody type value
  | .form => state.set "foxhttp.body.form".toList (.parsed value)
  | .multipart => state.set "foxhttp.body.multipart".toList (.parsed value)

namespace BodyParserMiddleware

/-- The branch of `handle_body` for a type of body. -/
def parseBody (factory : ParserFactory α) (request : HttpRequest) (state : ContextState α)
    (type : BodyType) : Except Text (ContextState α) := do
  let p ← factory type request
  if p.supports request then
    let data ← p.parse request
    .ok (state.store type data)
  else .ok state

/-- `BodyParserMiddleware::handle_body`. -/
def handleBody (mw : BodyParserMiddleware) (unchunked : Text → Text) (factory : ParserFactory α)
    (request : HttpRequest) (state : ContextState α) (res : HttpResponse) :
    Bool × ContextState α × HttpResponse :=
  if request.body = [] then (false, state, res)
  else
    let raw := request.header "Content-Type".toList
    if raw = [] then (false, state, res)
    else
      match bodyType? (contentTypeBase raw) with
      | none => (false, state, res)
      | some type =>
          match parseBody factory request state type with
          | .ok parsed => (false, parsed, res)
          | .error what =>
              if mw.badRequestOnError then
                let answer := ({ res with status := 400 } : HttpResponse).set "Content-Type".toList
                  "text/plain; charset=utf-8".toList
                (true, state,
                  ({ answer with body := what } : HttpResponse).preparePayload unchunked)
              else (false, state, res)

/-- `BodyParserMiddleware::operator()`. -/
def overloads (mw : BodyParserMiddleware) (unchunked : Text → Text) (factory : ParserFactory α) :
    Overloads HttpRequest (ContextState α) HttpResponse where
  call next turn :=
    let (stops, state, res) := mw.handleBody unchunked factory turn.request turn.state turn.res
    let turn := { turn with state, res }
    if stops then turn else next turn
  callAsync next callback turn :=
    let (stops, state, res) := mw.handleBody unchunked factory turn.request turn.state turn.res
    let turn := { turn with state, res }
    if stops then callback .Stop [] turn else callback .Continue [] (next turn)

end BodyParserMiddleware

/-! ## Compression -/

/-- `CompressionType`, with nothing for `none`. -/
inductive CompressionType where
  | gzip | deflate | br
  deriving DecidableEq, Repr

/-- `get_encoding_name`. -/
def CompressionType.encodingName : CompressionType → Text
  | .gzip => "gzip".toList
  | .deflate => "deflate".toList
  | .br => "br".toList

/-- The compressors, and `static_cast<int>(std::stof(q_value) * 1000)` where it
does not throw. -/
structure Codecs where
  compress : CompressionType → Text → Text
  quality : Text → Option Int

/-- `CompressionMiddleware`. -/
structure CompressionMiddleware where
  threshold : Nat
  supportedTypes : List CompressionType

namespace CompressionMiddleware

/-- The constructor. -/
def new (threshold : Nat) (enableGzip enableDeflate enableBr : Bool) : CompressionMiddleware where
  threshold
  supportedTypes := (if enableGzip then [.gzip] else []) ++
    (if enableDeflate then [.deflate] else []) ++ if enableBr then [.br] else []

/-- `should_compress`. -/
def shouldCompress (mw : CompressionMiddleware) (request : HttpRequest) (res : HttpResponse) :
    Bool :=
  if (res.fields.find "Content-Encoding".toList).isSome then false
  else if res.body.length < mw.threshold then false
  else
    let acceptEncoding := request.header "Accept-Encoding".toList
    if acceptEncoding = [] then false
    else mw.supportedTypes.any fun type =>
      (Text.findText acceptEncoding type.encodingName 0).isSome

/-- The priority of a coding which occurs at `pos`: that of the first q-value
behind it, up to the next semicolon. -/
def priorityAt (codecs : Codecs) (acceptEncoding : Text) (pos : Nat) : Int :=
  match Text.findText acceptEncoding "q=".toList pos with
  | none => 1
  | some qPos =>
      let qValue := match Text.find acceptEncoding ';' qPos with
        | some stop => Text.substr acceptEncoding (qPos + 2) (stop - qPos - 2)
        | none => acceptEncoding.drop (qPos + 2)
      (codecs.quality qValue).getD 1

/-- The loop of `compress_response` over the supported types. -/
def bestType (codecs : Codecs) (acceptEncoding : Text) :
    List CompressionType → Int → Option CompressionType → Option CompressionType
  | [], _, best => best
  | type :: types, bestPriority, best =>
      match Text.findText acceptEncoding type.encodingName 0 with
      | none => bestType codecs acceptEncoding types bestPriority best
      | some pos =>
          let priority := priorityAt codecs acceptEncoding pos
          if bestPriority < priority then
            bestType codecs acceptEncoding types priority (some type)
          else bestType codecs acceptEncoding types bestPriority best

/-- `compress_response`. -/
def compressResponse (mw : CompressionMiddleware) (codecs : Codecs) (request : HttpRequest)
    (res : HttpResponse) : HttpResponse :=
  match bestType codecs (request.header "Accept-Encoding".toList) mw.supportedTypes (-1) none with
  | none => res
  | some type =>
      let compressed := codecs.compress type res.body
      let encoded := res.set "Content-Encoding".toList type.encodingName
      ({ encoded with body := compressed } : HttpResponse).set "Content-Length".toList
        (Nat.toDigits 10 compressed.length)

/-- What both overloads do after `next()`. -/
def finish (mw : CompressionMiddleware) (codecs : Codecs) (request : HttpRequest)
    (res : HttpResponse) : HttpResponse :=
  if mw.shouldCompress request res then mw.compressResponse codecs request res else res

/-- `CompressionMiddleware::operator()`. -/
def overloads (mw : CompressionMiddleware) (codecs : Codecs) :
    Overloads HttpRequest (ContextState α) HttpResponse where
  call next turn :=
    let turn := next turn
    turn.writeResponse (mw.finish codecs turn.request)
  callAsync next callback turn :=
    let turn := next turn
    callback .Continue [] (turn.writeResponse (mw.finish codecs turn.request))

end CompressionMiddleware

/-! ## Where the overloads agree -/

/-- Equal responses. -/
def SameResponse {Q R : Type} (_ : Q) (atSignal returned : R) : Prop :=
  atSignal = returned

/-- Equal responses but to a preflight request, and to that one equal statuses
and equal fields but for the framing. -/
def SamePreflight (request : HttpRequest) (atSignal returned : HttpResponse) : Prop :=
  (request.verb ≠ .options → atSignal = returned) ∧ atSignal.status = returned.status ∧
    atSignal.unframed = returned.unframed

/-- Equal responses up to the values of a field. -/
def SameUpToField (name : Text) (_ : HttpRequest) (atSignal returned : HttpResponse) : Prop :=
  atSignal.status = returned.status ∧ atSignal.body = returned.body ∧
    atSignal.fields.without name = returned.fields.without name ∧
    (atSignal.fields.find name).isSome = (returned.fields.find name).isSome

/-- A middleware agrees, alone and wrapped by a condition. -/
def AgreesWrapped {Q S R : Type} (similar : Q → R → R → Prop) (mw : Overloads Q S R) : Prop :=
  Agrees similar mw ∧ ∀ condition, Agrees similar (conditional condition mw)

theorem Agrees.wrapped {Q S R : Type} {similar : Q → R → R → Prop} {mw : Overloads Q S R}
    (agrees : Agrees similar mw) (reflexive : ∀ request res, similar request res res) :
    AgreesWrapped similar mw :=
  ⟨agrees, agrees_conditional reflexive agrees⟩

/-- With the context as it is when the clock is read first, the asynchronous
overload reports `Continue` with the response which `next()` left, and the
synchronous one leaves the measured duration as well. -/
def MeasuresAt (headerName : Text) (start finish : Int)
    (mw : Overloads HttpRequest (ContextState α) HttpResponse) (request : HttpRequest)
    (state entered : ContextState α) (res : HttpResponse) : Prop :=
  ∀ effect : ContextState α → HttpResponse → ContextState α × HttpResponse,
    (mw.callAsync (Turn.next effect) Turn.signal { request, state, res }).signals =
      [(.Continue, [],
        (effect (entered.set "response_time_start".toList (.timePoint start)) res).2)] ∧
    (mw.call (Turn.next effect) { request, state, res }).nextCalls = 1 ∧
    (mw.call (Turn.next effect) { request, state, res }).res =
      (effect entered res).2.set headerName (milliseconds start finish)

@[simp] theorem CorsMiddleware.setHeaders_body (cors : CorsMiddleware) (request : HttpRequest)
    (res : HttpResponse) : (cors.setHeaders request res).body = res.body := by
  simp only [setHeaders]
  split <;> rfl

theorem CorsMiddleware.agrees (unchunked : Text → Text) (cors : CorsMiddleware) :
    Agrees SamePreflight (cors.overloads unchunked : Overloads _ (ContextState α) _) := by
  intro request state res effect
  by_cases preflight : request.verb = .options
  · refine ⟨{ cors.setHeaders request res with status := 200 }, ?_, ?_, ?_, ?_⟩
    · simp [overloads, Turn.writeResponse, Turn.signal, preflight]
    · exact fun other => absurd preflight other
    · simp [overloads, Turn.writeResponse, preflight, HttpResponse.preparePayload_status]
    · simp only [overloads, Turn.writeResponse, preflight, if_true,
        HttpResponse.unframed_preparePayload]
      rfl
  · refine ⟨(effect state (cors.setHeaders request res)).2, ?_, fun _ => ?_, ?_, ?_⟩ <;>
      simp [overloads, Turn.writeResponse, Turn.signal, Turn.next, preflight]

theorem StaticMiddleware.agrees (middleware : StaticMiddleware) (fs : FileSystem) :
    Agrees SameResponse (middleware.overloads fs : Overloads _ (ContextState α) _) := by
  intro request state res effect
  refine ⟨_, ?_, rfl⟩
  simp only [overloads]
  split
  · rfl
  · rfl

theorem BodyParserMiddleware.agrees (mw : BodyParserMiddleware) (unchunked : Text → Text)
    (factory : ParserFactory α) : Agrees SameResponse (mw.overloads unchunked factory) := by
  intro request state res effect
  refine ⟨_, ?_, rfl⟩
  simp only [overloads]
  split
  · rfl
  · rfl

theorem CompressionMiddleware.agrees (mw : CompressionMiddleware) (codecs : Codecs) :
    Agrees SameResponse (mw.overloads codecs : Overloads _ (ContextState α) _) :=
  fun _ _ _ _ => ⟨_, rfl, rfl⟩

theorem responseTime_measures (headerName : Text) (start finish : Int) (request : HttpRequest)
    (state : ContextState α) (res : HttpResponse) :
    MeasuresAt headerName start finish (responseTime headerName start finish) request state state
      res :=
  fun _ => ⟨rfl, rfl, rfl⟩

theorem conditional_responseTime (condition : HttpRequest → ContextState α → Bool × ContextState α)
    (headerName : Text) (start finish : Int) (request : HttpRequest) (state : ContextState α)
    (res : HttpResponse) :
    if (condition request state).1 then
      MeasuresAt headerName start finish
        (conditional condition (responseTime headerName start finish)) request state
        (condition request state).2 res
    else
      AgreesAt (SameResponse request) (conditional condition (responseTime headerName start finish))
        request state res := by
  split
  · rename_i holds
    intro effect
    simp only [conditional, holds, if_true]
    exact ⟨rfl, rfl, rfl⟩
  · rename_i fails
    intro effect
    simp only [conditional, fails]
    exact ⟨_, rfl, rfl⟩

/-- **Every built-in middleware reports what it does**, alone or wrapped by a
condition: the asynchronous overload reports `Continue` where the synchronous
one calls `next()`, and `Stop` where not. Their responses are equal but for the
body and the framing of the answer to a preflight request, and but for the
measured duration, which the synchronous overload alone adds. -/
theorem overloads_agree (α : Type) (unchunked : Text → Text) :
    (∀ cors : CorsMiddleware,
      AgreesWrapped SamePreflight (cors.overloads unchunked : Overloads _ (ContextState α) _)) ∧
    (∀ (middleware : StaticMiddleware) (fs : FileSystem),
      AgreesWrapped SameResponse (middleware.overloads fs : Overloads _ (ContextState α) _)) ∧
    (∀ (mw : BodyParserMiddleware) (factory : ParserFactory α),
      AgreesWrapped SameResponse (mw.overloads unchunked factory)) ∧
    (∀ (mw : CompressionMiddleware) (codecs : Codecs),
      AgreesWrapped SameResponse (mw.overloads codecs : Overloads _ (ContextState α) _)) ∧
    (∀ (headerName : Text) (start finish : Int) (request : HttpRequest) (state : ContextState α)
      (res : HttpResponse),
      MeasuresAt headerName start finish (responseTime headerName start finish) request state state
          res ∧
        ∀ condition : HttpRequest → ContextState α → Bool × ContextState α,
          if (condition request state).1 then
            MeasuresAt headerName start finish
              (conditional condition (responseTime headerName start finish)) request state
              (condition request state).2 res
          else
            AgreesAt (SameResponse request)
              (conditional condition (responseTime headerName start finish)) request state
                res) := by
  refine ⟨fun cors => ?_, fun middleware fs => ?_, fun mw factory => ?_, fun mw codecs => ?_,
    fun headerName start finish request state res => ⟨?_, fun condition => ?_⟩⟩
  · exact (cors.agrees unchunked).wrapped fun _ _ => ⟨fun _ => rfl, rfl, rfl⟩
  · exact (middleware.agrees fs).wrapped fun _ _ => rfl
  · exact (mw.agrees unchunked factory).wrapped fun _ _ => rfl
  · exact (mw.agrees codecs).wrapped fun _ _ => rfl
  · exact responseTime_measures headerName start finish request state res
  · exact conditional_responseTime condition headerName start finish request state res

/-- The asynchronous overloads leave no response time, and leave the body a
response has before a preflight request is answered. -/
theorem overloads_differ :
    (¬ ∀ (headerName : Text) (start finish : Int),
      Agrees (SameUpToField headerName)
        (responseTime headerName start finish : Overloads _ (ContextState Unit) _)) ∧
    ¬ ∀ (unchunked : Text → Text) (cors : CorsMiddleware),
      Agrees SameResponse (cors.overloads unchunked : Overloads _ (ContextState Unit) _) := by
  constructor
  · intro reportsAlike
    obtain ⟨atSignal, reported, -, -, -, present⟩ :=
      reportsAlike "X-Response-Time".toList 0 1000000 ⟨.get, [], []⟩ ⟨[], []⟩ ⟨200, [], []⟩
        fun state res => (state, res)
    have same : atSignal = ⟨200, [], []⟩ := by
      simpa [responseTime, Turn.next, Turn.signal] using reported.symm
    rw [same] at present
    have found := Fields.find_set [] "X-Response-Time".toList (milliseconds 0 1000000)
    simp only [responseTime, Turn.next, Turn.writeResponse, HttpResponse.set, found] at present
    cases present
  · intro answersAlike
    let cors : CorsMiddleware := ⟨['*'], [], [], false, 86400⟩
    obtain ⟨atSignal, reported, same⟩ :=
      answersAlike id cors ⟨.options, [], []⟩ ⟨[], []⟩ ⟨200, [], ['x']⟩
        fun state res => (state, res)
    have kept : atSignal.body = ['x'] := by
      have signalled := congrArg (fun signals => signals.map fun signal => signal.2.2.body) reported
      simpa [CorsMiddleware.overloads, Turn.writeResponse, Turn.signal, cors] using signalled.symm
    have emptied : atSignal.body = [] := by
      rw [show atSignal = _ from same]
      simp [CorsMiddleware.overloads, Turn.writeResponse, cors]
    rw [emptied] at kept
    cases kept

end Foxhttp.Middleware
