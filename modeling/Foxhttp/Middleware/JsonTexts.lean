import Foxhttp.Library.Json.Unescaped
import Foxhttp.Middleware.AuthGate
import Foxhttp.Server.RequestContext

/-!
# The JSON which middlewares write

The logger writes its lines, and the chain and the authentication the bodies of their
errors, by putting texts between quotes as they are. So a line or a body is JSON of what
it was to say exactly when the texts of the client and of the exception are plain.
-/

namespace Foxhttp.Server.RequestContext

open Foxhttp.Library

variable {α : Type}

/-- `path`. -/
def path (ctx : RequestContext α) : Text :=
  match Text.find ctx.req.target '?' 0 with
  | some pos => Text.substr ctx.req.target 0 pos
  | none => ctx.req.target

/-- `header`, with the default value. -/
def headerOr (ctx : RequestContext α) (key defaultValue : Text) : Text :=
  (ctx.req.fields.find key).getD defaultValue

end Foxhttp.Server.RequestContext

namespace Foxhttp.Middleware

open Foxhttp.Library Foxhttp.Library.Json
open Foxhttp.Server (RequestContext)

variable {α : Type}

/-! ## Log lines -/

/-- `generate_request_id`, with the time and the count. -/
def generateRequestId (timestamp counter : Nat) : Text :=
  Nat.toDigits 10 timestamp ++ '-' :: Nat.toDigits 10 counter

/-- The address which a line names. -/
def loggedIp (ctx : RequestContext α) : Text :=
  ctx.headerOr "X-Forwarded-For".toList (ctx.headerOr "X-Real-IP".toList "unknown".toList)

/-- `log_request_start`, in the format `Json`. -/
def logRequestStart (ctx : RequestContext α) (requestId : Text) (timestamp : Nat) : Text :=
  ["\x7b\"event\":\"request_start\",\"id\":\"".toList, requestId, "\",\"method\":\"".toList,
    ctx.req.methodString, "\",\"path\":\"".toList, ctx.path, "\",\"ip\":\"".toList, loggedIp ctx,
    "\",\"user_agent\":\"".toList, ctx.headerOr "User-Agent".toList "unknown".toList,
    "\",\"timestamp\":\"".toList, Nat.toDigits 10 timestamp, "\"\x7d".toList].flatten

/-- A `bool` as it is formatted. -/
def boolText : Bool → Text
  | true => "true".toList
  | false => "false".toList

/-- `log_request_complete`, in the format `Json`, with the duration as it is formatted. -/
def logRequestComplete (ctx : RequestContext α) (status size : Nat) (requestId : Text)
    (durationMs : Number) (async : Bool) (timestamp : Nat) : Text :=
  ["\x7b\"event\":\"request_complete\",\"id\":\"".toList, requestId, "\",\"method\":\"".toList,
    ctx.req.methodString, "\",\"path\":\"".toList, ctx.path, "\",\"status\":".toList,
    Nat.toDigits 10 status, ",\"size\":".toList, Nat.toDigits 10 size,
    ",\"duration_ms\":".toList, durationMs.1, ",\"async\":".toList, boolText async,
    ",\"timestamp\":\"".toList, Nat.toDigits 10 timestamp, "\"\x7d".toList].flatten

/-- `log_request_error`, in the format `Json`. -/
def logRequestError (ctx : RequestContext α) (status : Nat) (requestId : Text)
    (durationMs : Number) (error : Text) (timestamp : Nat) : Text :=
  ["\x7b\"event\":\"request_error\",\"id\":\"".toList, requestId, "\",\"method\":\"".toList,
    ctx.req.methodString, "\",\"path\":\"".toList, ctx.path, "\",\"status\":".toList,
    Nat.toDigits 10 status, ",\"error\":\"".toList, error, "\",\"duration_ms\":".toList,
    durationMs.1, ",\"timestamp\":\"".toList, Nat.toDigits 10 timestamp, "\"\x7d".toList].flatten

/-- What a line is about, with what it says besides the request. -/
inductive LogEvent where
  | start
  | complete (status size : Nat) (durationMs : Number) (async : Bool)
  | error (status : Nat) (durationMs : Number) (what : Text)

namespace LogEvent

/-- The line which the logger writes. -/
def line (ctx : RequestContext α) (requestId : Text) (timestamp : Nat) : LogEvent → Text
  | .start => logRequestStart ctx requestId timestamp
  | .complete status size durationMs async =>
      logRequestComplete ctx status size requestId durationMs async timestamp
  | .error status durationMs what =>
      logRequestError ctx status requestId durationMs what timestamp

/-- The texts which a line says of the request and of the exception. -/
def texts (ctx : RequestContext α) : LogEvent → List Text
  | .start => [ctx.req.methodString, ctx.path, loggedIp ctx,
      ctx.headerOr "User-Agent".toList "unknown".toList]
  | .complete .. => [ctx.req.methodString, ctx.path]
  | .error _ _ what => [ctx.req.methodString, ctx.path, what]

/-- What a line is to say. -/
def entries (ctx : RequestContext α) (requestId : Text) (timestamp : Nat) :
    LogEvent → List Entry
  | .start =>
      [{ name := "event".toList, slot := .string "request_start".toList },
        { name := "id".toList, slot := .string requestId },
        { name := "method".toList, slot := .string ctx.req.methodString },
        { name := "path".toList, slot := .string ctx.path },
        { name := "ip".toList, slot := .string (loggedIp ctx) },
        { name := "user_agent".toList
          slot := .string (ctx.headerOr "User-Agent".toList "unknown".toList) },
        { name := "timestamp".toList, slot := .string (Nat.toDigits 10 timestamp) }]
  | .complete status size durationMs async =>
      [{ name := "event".toList, slot := .string "request_complete".toList },
        { name := "id".toList, slot := .string requestId },
        { name := "method".toList, slot := .string ctx.req.methodString },
        { name := "path".toList, slot := .string ctx.path },
        { name := "status".toList, slot := .number (printed status) },
        { name := "size".toList, slot := .number (printed size) },
        { name := "duration_ms".toList, slot := .number durationMs },
        { name := "async".toList, slot := .boolean async },
        { name := "timestamp".toList, slot := .string (Nat.toDigits 10 timestamp) }]
  | .error status durationMs what =>
      [{ name := "event".toList, slot := .string "request_error".toList },
        { name := "id".toList, slot := .string requestId },
        { name := "method".toList, slot := .string ctx.req.methodString },
        { name := "path".toList, slot := .string ctx.path },
        { name := "status".toList, slot := .number (printed status) },
        { name := "error".toList, slot := .string what },
        { name := "duration_ms".toList, slot := .number durationMs },
        { name := "timestamp".toList, slot := .string (Nat.toDigits 10 timestamp) }]

/-- A line is written as the object of what it is to say. -/
theorem line_eq (ctx : RequestContext α) (requestId : Text) (timestamp : Nat)
    (event : LogEvent) :
    event.line ctx requestId timestamp = writeObject (event.entries ctx requestId timestamp) := by
  rw [writeObject_eq]
  cases event with
  | start => rfl
  | complete status size durationMs async => cases async <;> rfl
  | error status durationMs what => rfl

theorem distinct_entries (ctx : RequestContext α) (requestId : Text) (timestamp : Nat)
    (event : LogEvent) :
    (((event.entries ctx requestId timestamp).map Entry.member).map Prod.fst).Nodup := by
  cases event with
  | start | complete | error =>
      simp only [entries, List.map_cons, List.map_nil, Entry.member]
      decide

theorem plainText_requestId (timestamp counter : Nat) :
    PlainText (generateRequestId timestamp counter) := by
  have dash : PlainText ['-'] := plainText_of_all (by decide)
  exact (plainText_toDigits timestamp).append (dash.append (plainText_toDigits counter))

/-- What a line is to say is plain when the texts of the client and the exception are. -/
theorem plain_entries_iff (ctx : RequestContext α) (started counter timestamp : Nat)
    (event : LogEvent) :
    (∀ entry ∈ event.entries ctx (generateRequestId started counter) timestamp,
      PlainMember entry.member) ↔ ∀ text ∈ event.texts ctx, PlainText text := by
  have requestId := plainText_requestId started counter
  have time := plainText_toDigits timestamp
  constructor
  · intro plain
    cases event with
    | start =>
        simp only [entries, List.forall_mem_cons] at plain
        obtain ⟨-, -, method, path, ip, userAgent, -⟩ := plain
        simp only [texts, List.forall_mem_cons]
        exact ⟨method.2 _ rfl, path.2 _ rfl, ip.2 _ rfl, userAgent.2 _ rfl, by simp⟩
    | complete status size durationMs async =>
        simp only [entries, List.forall_mem_cons] at plain
        obtain ⟨-, -, method, path, -⟩ := plain
        simp only [texts, List.forall_mem_cons]
        exact ⟨method.2 _ rfl, path.2 _ rfl, by simp⟩
    | error status durationMs what =>
        simp only [entries, List.forall_mem_cons] at plain
        obtain ⟨-, -, method, path, -, isWhat, -⟩ := plain
        simp only [texts, List.forall_mem_cons]
        exact ⟨method.2 _ rfl, path.2 _ rfl, isWhat.2 _ rfl, by simp⟩
  · intro plain
    cases event with
    | start =>
        simp only [texts, List.forall_mem_cons] at plain
        obtain ⟨method, path, ip, userAgent, -⟩ := plain
        simp only [entries, List.forall_mem_cons]
        exact ⟨plainMember_string rfl rfl (plainText_of_all rfl),
          plainMember_string rfl rfl requestId, plainMember_string rfl rfl method,
          plainMember_string rfl rfl path, plainMember_string rfl rfl ip,
          plainMember_string rfl rfl userAgent, plainMember_string rfl rfl time, by simp⟩
    | complete status size durationMs async =>
        simp only [texts, List.forall_mem_cons] at plain
        obtain ⟨method, path, -⟩ := plain
        simp only [entries, List.forall_mem_cons]
        exact ⟨plainMember_string rfl rfl (plainText_of_all rfl),
          plainMember_string rfl rfl requestId, plainMember_string rfl rfl method,
          plainMember_string rfl rfl path, plainMember_other rfl (by simp),
          plainMember_other rfl (by simp), plainMember_other rfl (by simp),
          plainMember_other rfl (by simp), plainMember_string rfl rfl time, by simp⟩
    | error status durationMs what =>
        simp only [texts, List.forall_mem_cons] at plain
        obtain ⟨method, path, isWhat, -⟩ := plain
        simp only [entries, List.forall_mem_cons]
        exact ⟨plainMember_string rfl rfl (plainText_of_all rfl),
          plainMember_string rfl rfl requestId, plainMember_string rfl rfl method,
          plainMember_string rfl rfl path, plainMember_other rfl (by simp),
          plainMember_string rfl rfl isWhat, plainMember_other rfl (by simp),
          plainMember_string rfl rfl time, by simp⟩

end LogEvent

variable {parse : Text → Except Text (Value Text)}

/-- **A log line says what it is to say** exactly when the texts of the client and of the
exception are plain. -/
theorem log_line_reads_back_iff (conforms : Conforms lastWins parse) (ctx : RequestContext α)
    (started counter timestamp : Nat) (event : LogEvent) :
    parse (event.line ctx (generateRequestId started counter) timestamp) =
        .ok (.object (lastWins.merge
          ((event.entries ctx (generateRequestId started counter) timestamp).map Entry.member))) ↔
      ∀ text ∈ event.texts ctx, PlainText text := by
  have filled : event.entries ctx (generateRequestId started counter) timestamp ≠ [] := by
    cases event <;> exact List.cons_ne_nil _ _
  rw [event.line_eq, parse_writeObject_iff conforms filled (event.distinct_entries ctx _ _),
    event.plain_entries_iff]

/-- A request whose path has a quote. -/
def quotedPath : RequestContext Unit :=
  .new ⟨"GET".toList, "/\"?q".toList, []⟩

theorem log_line_reads_back_iff_quote :
    referenceParse lastWins (LogEvent.line quotedPath (generateRequestId 3 1) 3 .start) =
        .ok (.object (lastWins.merge
          ((LogEvent.entries quotedPath (generateRequestId 3 1) 3 .start).map Entry.member))) ↔
      ∀ text ∈ LogEvent.texts quotedPath .start, PlainText text :=
  log_line_reads_back_iff (referenceParse_conforms lastWins) quotedPath 3 1 3 .start

/-! ## Bodies of errors -/

/-- A blank before a name or a value. -/
def space : Blank :=
  ⟨[' '], List.forall_mem_singleton.mpr rfl⟩

/-- What the body of the chain's error is to say. -/
def internalErrorEntries (what : Text) (code : ErrorCode) : List Entry :=
  [{ name := "error".toList, before := space, slot := .string what },
    { start := space
      name := "code".toList
      before := space
      slot := .number (printed code.value) }]

/-- **The body of the chain's error** says the message exactly when it is plain. -/
theorem internal_error_reads_back_iff (conforms : Conforms lastWins parse) (res : Response)
    (what : String) (code : ErrorCode) :
    parse (res.internalError what code).body.toList =
        .ok (.object (lastWins.merge ((internalErrorEntries what.toList code).map Entry.member))) ↔
      PlainText what.toList := by
  have body : (res.internalError what code).body.toList =
      writeObject (internalErrorEntries what.toList code) := by
    rw [writeObject_eq]
    simp only [Response.internalError, String.toList_append, Nat.toString_eq_ofList_toDigits,
      String.toList_ofList]
    simp only [List.append_assoc]
    rfl
  have filled : internalErrorEntries what.toList code ≠ [] := List.cons_ne_nil _ _
  have distinct : (((internalErrorEntries what.toList code).map Entry.member).map
      Prod.fst).Nodup := by
    simp only [internalErrorEntries, List.map_cons, List.map_nil, Entry.member]
    decide
  rw [body, parse_writeObject_iff conforms filled distinct]
  constructor
  · intro plain
    exact (plain _ List.mem_cons_self).2 _ rfl
  · intro plain
    simp only [internalErrorEntries, List.forall_mem_cons]
    exact ⟨plainMember_string rfl rfl plain, plainMember_other rfl (by simp), by simp⟩

theorem internal_error_reads_back_iff_unknown :
    referenceParse lastWins
          ((⟨200, [], ""⟩ : Response).internalError "unknown" .Unknown).body.toList =
        .ok (.object (lastWins.merge
          ((internalErrorEntries "unknown".toList .Unknown).map Entry.member))) ↔
      PlainText "unknown".toList :=
  internal_error_reads_back_iff (referenceParse_conforms lastWins) ⟨200, [], ""⟩ "unknown" .Unknown

end Foxhttp.Middleware
