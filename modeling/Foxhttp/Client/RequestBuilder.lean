import Foxhttp.Library.Heap
import Foxhttp.Library.Transition
import Foxhttp.Router.Table

/-!
# The request builder

A `RequestBuilder` shares its specification with its copies and keeps a flag of
its own, which is set when it starts the request. A copy made before the start
has the flag unset, so the request is started once and left alone exactly when
nobody uses such a copy afterwards.
-/

namespace Foxhttp.Client

open Foxhttp.Library
open Foxhttp.Router (Verb)

/-- `ClientBaseConfig`. -/
structure ClientBaseConfig where
  https : Bool
  host : Text
  port : Text
  hostField : Text
  deriving DecidableEq, Repr

/-- `ci_eq`. -/
def ciEq (a b : Char) : Bool :=
  a.toLower == b.toLower

/-- `starts_with_ci`. -/
def startsWithCi (s p : Text) : Bool :=
  decide (p.length ≤ s.length) && (s.zip p).all fun pair => ciEq pair.1 pair.2

/-- `parse_absolute_url`: the base and the target it fills when it succeeds. -/
def parseAbsoluteUrl (usingTls : Bool) (url : Text) : Option (ClientBaseConfig × Text) := do
  let (https, url) ←
    if startsWithCi url "https://".toList then
      if usingTls then some (true, Text.erase url 0 8) else none
    else if startsWithCi url "http://".toList then some (false, Text.erase url 0 7)
    else none
  let pathPos := Text.find url '/' 0
  let authority := pathPos.elim url (Text.substr url 0)
  let target := pathPos.elim "/".toList url.drop
  let (host, port) :=
    match Text.rfind authority ':' with
    | some colon => (Text.substr authority 0 colon, authority.drop (colon + 1))
    | none => (authority, if https then "443".toList else "80".toList)
  if host = [] then none
  else
    let hostField := if https then authority else if port = "80".toList then host else authority
    some ({ https, host, port, hostField }, target)

/-- `normalize_relative_target`. -/
def normalizeRelativeTarget (t : Text) : Text :=
  if t.head? = some '/' then t else '/' :: t

/-- `RequestSpec`; a callback is missing while its `std::function` is empty. -/
structure RequestSpec (Success Failure : Type) where
  base : ClientBaseConfig
  method : Verb
  targetPath : Text
  headers : List (Text × Text) := []
  body : Text := []
  onSuccess : Option Success := none
  onError : Option Failure := none
  deriving DecidableEq, Repr

/-- `RequestTimeoutOptions`, in milliseconds. -/
structure RequestTimeoutOptions where
  connectionTimeout : Int := 0
  requestTimeout : Int := 0
  handshakeTimeout : Int := 0
  deriving DecidableEq, Repr

/-- `RequestBuilder`. -/
structure RequestBuilder where
  spec : Address
  timeoutOpts : RequestTimeoutOptions := {}
  consumed : Bool := false
  deriving DecidableEq, Repr

/-- What a call may throw. -/
inductive Exception where
  | invalidArgument (what : String)
  | logicError (what : String)
  /-- `json::type_error`, from `dump`. -/
  | typeError
  deriving DecidableEq, Repr

inductive Outcome where
  | returned
  | threw (exception : Exception)
  deriving DecidableEq, Repr

/-- What `ensure_not_consumed` throws. -/
def alreadyStarted : Exception :=
  .logicError "foxhttp::client::RequestBuilder: request already started (do not reuse)"

section Operations

variable {Success Failure Json : Type}

/-- What an operation does to a builder which is not consumed. -/
structure Effect (Success Failure : Type) where
  spec : RequestSpec Success Failure → RequestSpec Success Failure := id
  builder : RequestBuilder → RequestBuilder := id
  starts : Bool := false
  outcome : Outcome := .returned

namespace Effect

/-- `RequestBuilder::header`. -/
def header (name value : Text) : Effect Success Failure where
  spec spec := { spec with headers := spec.headers ++ [(name, value)] }

/-- `RequestBuilder::body`. -/
def body (body : Text) : Effect Success Failure where
  spec spec := { spec with body }

/-- `RequestBuilder::body_json`; `dump` throws for texts which are not UTF-8,
after the header was added. -/
def bodyJson (dump : Json → Option Text) (j : Json) : Effect Success Failure :=
  let withHeader (spec : RequestSpec Success Failure) :=
    { spec with
      headers := spec.headers ++ [("Content-Type".toList, "application/json".toList)] }
  match dump j with
  | some body => { spec := fun spec => { withHeader spec with body } }
  | none => { spec := withHeader, outcome := .threw .typeError }

/-- `RequestBuilder::timeout`. -/
def timeout (opts : RequestTimeoutOptions) : Effect Success Failure where
  builder self := { self with timeoutOpts := opts }

/-- `RequestBuilder::connection_timeout`. -/
def connectionTimeout (timeout : Int) : Effect Success Failure where
  builder self :=
    { self with timeoutOpts := { self.timeoutOpts with connectionTimeout := timeout } }

/-- `RequestBuilder::request_timeout`. -/
def requestTimeout (timeout : Int) : Effect Success Failure where
  builder self := { self with timeoutOpts := { self.timeoutOpts with requestTimeout := timeout } }

/-- `RequestBuilder::catch_error`. -/
def catchError (fn : Option Failure) : Effect Success Failure where
  spec spec := { spec with onError := fn }

/-- `RequestBuilder::then`. -/
def then_ (fn : Option Success) : Effect Success Failure where
  spec spec := { spec with onSuccess := fn }
  builder self := { self with consumed := true }
  starts := true

/-- `RequestBuilder::as_awaitable`. -/
def asAwaitable : Effect Success Failure where
  builder self := { self with consumed := true }
  starts := true

end Effect

/-- An operation of a builder. -/
inductive BuilderOperation (Success Failure Json : Type) where
  | header (name value : Text)
  | body (body : Text)
  | bodyJson (j : Json)
  | timeout (opts : RequestTimeoutOptions)
  | connectionTimeout (timeout : Int)
  | requestTimeout (timeout : Int)
  | catchError (fn : Option Failure)
  | then_ (fn : Option Success)
  | asAwaitable

/-- What an operation does once `ensure_not_consumed` has returned. -/
def BuilderOperation.effect (dump : Json → Option Text) :
    BuilderOperation Success Failure Json → Effect Success Failure
  | .header name value => .header name value
  | .body bytes => .body bytes
  | .bodyJson j => .bodyJson dump j
  | .timeout opts => .timeout opts
  | .connectionTimeout value => .connectionTimeout value
  | .requestTimeout value => .requestTimeout value
  | .catchError fn => .catchError fn
  | .then_ fn => .then_ fn
  | .asAwaitable => .asAwaitable

/-- What a caller does with builders: obtain one from a client, copy one, assign
one to another, or operate on one. -/
inductive Call (Success Failure Json : Type) where
  | request (owner : ClientBaseConfig) (method : Verb) (targetOrUrl : Text)
  | copy (source : Address)
  | assign (target source : Address)
  | operate (builder : Address) (operation : BuilderOperation Success Failure Json)

/-- The specifications and the builders made so far, and the specifications
handed to a transfer, in order. -/
structure Requests (Success Failure : Type) where
  specs : Heap (RequestSpec Success Failure) := {}
  builders : Heap RequestBuilder := {}
  started : List Address := []
  deriving DecidableEq, Repr

/-- The specification which `RequestBuilder::RequestBuilder` makes. -/
def newSpec (usingTls : Bool) (owner : ClientBaseConfig) (method : Verb) (t : Text) :
    Except Exception (RequestSpec Success Failure) :=
  if startsWithCi t "http://".toList || startsWithCi t "https://".toList then
    match parseAbsoluteUrl usingTls t with
    | none => .error (.invalidArgument "foxhttp::client: invalid absolute URL")
    | some (base, targetPath) =>
        if !usingTls && base.https then
          .error (.invalidArgument
            "foxhttp::client: HTTPS requires building FoxHttp with TLS enabled")
        else .ok { base, method, targetPath }
  else .ok { base := owner, method, targetPath := normalizeRelativeTarget t }

namespace Requests

variable (usingTls : Bool) (dump : Json → Option Text)

/-- `HttpClient::get` and its siblings. -/
def request (requests : Requests Success Failure) (owner : ClientBaseConfig) (method : Verb)
    (targetOrUrl : Text) : Outcome × Requests Success Failure :=
  match newSpec usingTls owner method targetOrUrl with
  | .error exception => (.threw exception, requests)
  | .ok made =>
      let (spec, specs) := requests.specs.alloc made
      (.returned, { requests with specs, builders := (requests.builders.alloc { spec }).2 })

/-- An operation on a builder: `ensure_not_consumed`, and then its effect. -/
def operate (requests : Requests Success Failure) (builder : Address) (self : RequestBuilder)
    (effect : Effect Success Failure) : Outcome × Requests Success Failure :=
  if self.consumed then (.threw alreadyStarted, requests)
  else
    (effect.outcome,
      { specs := requests.specs.modify self.spec effect.spec
        builders := requests.builders.modify builder effect.builder
        started := if effect.starts then requests.started ++ [self.spec] else requests.started })

/-- One call, on builders which exist. -/
def step (requests : Requests Success Failure) :
    Call Success Failure Json → Option (Outcome × Requests Success Failure)
  | .request owner method targetOrUrl =>
      some (requests.request usingTls owner method targetOrUrl)
  | .copy source => do
      let self ← requests.builders.get? source
      some (.returned, { requests with builders := (requests.builders.alloc self).2 })
  | .assign target source => do
      let self ← requests.builders.get? source
      let _ ← requests.builders.get? target
      some (.returned, { requests with builders := requests.builders.modify target fun _ => self })
  | .operate builder operation => do
      let self ← requests.builders.get? builder
      some (requests.operate builder self (operation.effect dump))

/-- Callers at work with builders. -/
def system : System (Requests Success Failure) (Call Success Failure Json) Outcome where
  Initial requests := requests = {}
  step requests call :=
    (requests.step usingTls dump call).map fun done => (some done.1, done.2)

end Requests

section SingleUse

variable {usingTls : Bool} {dump : Json → Option Text}

/-- A call and the states around it. -/
abbrev Made (Success Failure Json : Type) :=
  System.Moved (Requests Success Failure) (Call Success Failure Json) Outcome

/-- A call operates on a builder of a specification which was started before. -/
def AfterStart (made : Made Success Failure Json) (self : RequestBuilder) : Prop :=
  (∃ builder operation, made.choice = .operate builder operation ∧
    made.before.builders.get? builder = some self) ∧ self.spec ∈ made.before.started

/-- Every specification is started once and stays as it was when it was started,
and what is done with a builder of it afterwards throws and changes nothing. -/
structure SingleUse (history : List (Made Success Failure Json))
    (requests : Requests Success Failure) : Prop where
  once : requests.started.Nodup
  unchanged : ∀ made ∈ history, ∀ spec ∈ made.after.started,
    requests.specs.get? spec = made.after.specs.get? spec
  refused : ∀ made ∈ history, ∀ self, AfterStart made self →
    made.event = some (.threw alreadyStarted) ∧ made.after = made.before

/-- The builder of a call on a started specification started it itself, or is a
copy of one which had. -/
def OnOwner (made : Made Success Failure Json) : Prop :=
  ∀ self, AfterStart made self → self.consumed = true

/-! ## What an operation leaves alone -/

namespace BuilderOperation

variable (operation : BuilderOperation Success Failure Json) {self : RequestBuilder}

@[simp] theorem spec_builder : ((operation.effect dump).builder self).spec = self.spec := by
  cases operation with
  | bodyJson j =>
      rw [effect, Effect.bodyJson]
      cases dump j <;> rfl
  | _ => rfl

theorem outcome_effect : (operation.effect dump).outcome = .returned ∨
    (operation.effect dump).outcome = .threw .typeError := by
  cases operation with
  | bodyJson j =>
      rw [effect, Effect.bodyJson]
      cases dump j with
      | none => exact .inr rfl
      | some body => exact .inl rfl
  | _ => exact .inl rfl

/-- Only `ensure_not_consumed` says that the request was started already. -/
theorem outcome_ne : (operation.effect dump).outcome ≠ .threw alreadyStarted := by
  rcases operation.outcome_effect with returned | threw
  · rw [returned]
    exact Outcome.noConfusion
  · rw [threw, alreadyStarted]
    simp

end BuilderOperation

namespace Requests

/-- Builders refer to specifications which exist, and so do the transfers. -/
structure WellFormed (requests : Requests Success Failure) : Prop where
  built : requests.builders.All fun self => (requests.specs.get? self.spec).isSome
  begun : ∀ spec ∈ requests.started, (requests.specs.get? spec).isSome

variable {requests next : Requests Success Failure} {call : Call Success Failure Json}
  {outcome : Outcome} {builder : Address} {self : RequestBuilder}

/-- An operation on a consumed builder throws. -/
theorem operate_consumed (effect : Effect Success Failure) (consumed : self.consumed = true) :
    requests.operate builder self effect = (.threw alreadyStarted, requests) := by
  rw [operate, if_pos consumed]

/-- What is started was started before, or is started now, by a builder which is
not consumed. -/
theorem started_operate (requests : Requests Success Failure) (builder : Address)
    (self : RequestBuilder) (effect : Effect Success Failure) :
    (requests.operate builder self effect).2.started = requests.started ∨
      self.consumed = false ∧
        (requests.operate builder self effect).2.started = requests.started ++ [self.spec] := by
  rw [operate]
  cases consumed : self.consumed with
  | true => exact .inl rfl
  | false =>
      cases starts : effect.starts with
      | true => exact .inr ⟨rfl, rfl⟩
      | false => exact .inl rfl

/-- An operation changes no specification but that of its builder, and that only
while the builder is not consumed. -/
theorem specs_operate (requests : Requests Success Failure) (builder : Address)
    (self : RequestBuilder) (effect : Effect Success Failure) {spec : Address}
    (aside : self.spec = spec → self.consumed = true) :
    (requests.operate builder self effect).2.specs.get? spec = requests.specs.get? spec := by
  rw [operate]
  split
  · rfl
  · rename_i unconsumed
    exact Heap.get?_modify_other fun same => unconsumed (aside same)

theorem WellFormed.operate (dump : Json → Option Text) (valid : requests.WellFormed)
    (isBuilder : requests.builders.get? builder = some self)
    (operation : BuilderOperation Success Failure Json) :
    (requests.operate builder self (operation.effect dump)).2.WellFormed := by
  have hasSpec := valid.built builder self isBuilder
  have begun : ∀ spec ∈ (requests.operate builder self (operation.effect dump)).2.started,
      (requests.specs.get? spec).isSome := by
    intro spec member
    rcases started_operate requests builder self (operation.effect dump) with same | ⟨-, added⟩
    · exact valid.begun spec (same ▸ member)
    · rw [added, List.mem_append, List.mem_singleton] at member
      rcases member with earlier | rfl
      · exact valid.begun spec earlier
      · exact hasSpec
  rw [Requests.operate] at begun ⊢
  split
  · exact valid
  · rename_i unconsumed
    rw [if_neg unconsumed] at begun
    refine ⟨?_, fun spec member => Heap.isSome_modify.trans (begun spec member)⟩
    have built : (requests.builders.modify builder (operation.effect dump).builder).All
        fun self => (requests.specs.get? self.spec).isSome :=
      valid.built.modify fun before isBefore => by
        simpa using valid.built builder before isBefore
    exact built.imp fun self isSpec => Heap.isSome_modify.trans isSpec

/-- What is started and the specifications there are stay as they are, and a
builder which is new has a specification. -/
structure Quiet (requests next : Requests Success Failure) : Prop where
  started : next.started = requests.started
  specs : ∀ spec, (requests.specs.get? spec).isSome →
    next.specs.get? spec = requests.specs.get? spec
  built : requests.WellFormed →
    next.builders.All fun self => (next.specs.get? self.spec).isSome

theorem quiet_request (usingTls : Bool) (requests : Requests Success Failure)
    (owner : ClientBaseConfig) (method : Verb) (targetOrUrl : Text) :
    Quiet requests (requests.request usingTls owner method targetOrUrl).2 := by
  rw [Requests.request]
  split
  · exact ⟨rfl, fun _ _ => rfl, WellFormed.built⟩
  · rename_i made _
    refine ⟨rfl, fun spec isSpec => ?_, fun valid => ?_⟩
    · obtain ⟨object, found⟩ := Option.isSome_iff_exists.mp isSpec
      exact (Heap.get?_alloc_old found).trans found.symm
    · have built : requests.builders.All
          fun self => ((requests.specs.alloc made).2.get? self.spec).isSome :=
        valid.built.imp fun _ isSpec => Heap.isSome_alloc isSpec
      exact built.alloc (Option.isSome_iff_exists.mpr ⟨made, Heap.get?_alloc_new⟩)

/-- A call operates on a builder, or is quiet. -/
theorem step_cases (taken : requests.step usingTls dump call = some (outcome, next)) :
    (∃ builder operation self, call = .operate builder operation ∧
      requests.builders.get? builder = some self ∧
      requests.operate builder self (operation.effect dump) = (outcome, next)) ∨
    Quiet requests next := by
  cases call with
  | request owner method targetOrUrl =>
      have quiet := quiet_request usingTls requests owner method targetOrUrl
      rw [Option.some.inj taken] at quiet
      exact .inr quiet
  | copy source =>
      obtain ⟨self, isBuilder, copied⟩ := Option.bind_eq_some_iff.mp taken
      cases copied
      exact .inr ⟨rfl, fun _ _ => rfl, fun valid =>
        valid.built.alloc (valid.built source self isBuilder)⟩
  | assign target source =>
      obtain ⟨self, isBuilder, rest⟩ := Option.bind_eq_some_iff.mp taken
      obtain ⟨other, isOther, assigned⟩ := Option.bind_eq_some_iff.mp rest
      cases assigned
      exact .inr ⟨rfl, fun _ _ => rfl, fun valid =>
        valid.built.modify fun _ _ => valid.built source self isBuilder⟩
  | operate builder operation =>
      obtain ⟨self, isBuilder, operated⟩ := Option.bind_eq_some_iff.mp taken
      exact .inl ⟨builder, operation, self, rfl, isBuilder, Option.some.inj operated⟩

theorem WellFormed.step (valid : requests.WellFormed)
    (taken : requests.step usingTls dump call = some (outcome, next)) : next.WellFormed := by
  rcases step_cases taken with ⟨builder, operation, self, -, isBuilder, operated⟩ | quiet
  · have after := valid.operate dump isBuilder operation
    rwa [operated] at after
  · refine ⟨quiet.built valid, fun spec member => ?_⟩
    have isSpec := valid.begun spec (quiet.started ▸ member)
    rwa [quiet.specs spec isSpec]

theorem started_subset (taken : requests.step usingTls dump call = some (outcome, next)) :
    requests.started ⊆ next.started := by
  rcases step_cases taken with ⟨builder, operation, self, -, -, operated⟩ | quiet
  · rcases started_operate requests builder self (operation.effect dump) with
      same | ⟨-, added⟩
    · rw [operated] at same
      exact same ▸ List.Subset.refl _
    · rw [operated] at added
      exact added ▸ List.subset_append_left ..
  · exact quiet.started ▸ List.Subset.refl _

end Requests

/-! ## Runs -/

namespace OnOwner

variable {requests next : Requests Success Failure} {call : Call Success Failure Json}
  {outcome : Outcome}

/-- A started specification stays as it is. -/
theorem unchanged (owner : OnOwner ⟨requests, call, some outcome, next⟩)
    (valid : requests.WellFormed)
    (taken : requests.step usingTls dump call = some (outcome, next)) {spec : Address}
    (begun : spec ∈ requests.started) : next.specs.get? spec = requests.specs.get? spec := by
  rcases Requests.step_cases taken with
    ⟨builder, operation, self, isCall, isBuilder, operated⟩ | quiet
  · have kept := Requests.specs_operate requests builder self (operation.effect dump)
      fun isSpec : self.spec = spec =>
        owner self ⟨⟨builder, operation, isCall, isBuilder⟩, isSpec ▸ begun⟩
    rwa [operated] at kept
  · exact quiet.specs spec (valid.begun spec begun)

/-- A started specification is not started again. -/
theorem once (owner : OnOwner ⟨requests, call, some outcome, next⟩)
    (taken : requests.step usingTls dump call = some (outcome, next))
    (distinct : requests.started.Nodup) : next.started.Nodup := by
  rcases Requests.step_cases taken with
    ⟨builder, operation, self, isCall, isBuilder, operated⟩ | quiet
  · rcases Requests.started_operate requests builder self (operation.effect dump) with
      same | ⟨unconsumed, added⟩
    · rw [operated] at same
      exact same ▸ distinct
    · rw [operated] at added
      have new : self.spec ∉ requests.started := by
        intro begun
        have consumed := owner self ⟨⟨builder, operation, isCall, isBuilder⟩, begun⟩
        rw [unconsumed] at consumed
        cases consumed
      rw [added, ← List.concat_eq_append]
      exact distinct.concat new
  · exact quiet.started ▸ distinct

/-- An operation on a builder of a started specification throws. -/
theorem refused (owner : OnOwner ⟨requests, call, some outcome, next⟩)
    (taken : requests.step usingTls dump call = some (outcome, next)) {self : RequestBuilder}
    (after : AfterStart ⟨requests, call, some outcome, next⟩ self) :
    outcome = .threw alreadyStarted ∧ next = requests := by
  obtain ⟨⟨builder, operation, rfl, isBuilder⟩, -⟩ := id after
  obtain ⟨found, isFound, operated⟩ := Option.bind_eq_some_iff.mp taken
  cases isBuilder.symm.trans isFound
  rw [Requests.operate_consumed _ (owner self after)] at operated
  cases operated
  exact ⟨rfl, rfl⟩

/-- What throws that the request was started is made on a consumed builder. -/
theorem of_refused (taken : requests.step usingTls dump call = some (outcome, next))
    (refused : ∀ self, AfterStart ⟨requests, call, some outcome, next⟩ self →
      outcome = .threw alreadyStarted) : OnOwner ⟨requests, call, some outcome, next⟩ := by
  intro self after
  have threw := refused self after
  obtain ⟨⟨builder, operation, rfl, isBuilder⟩, -⟩ := after
  obtain ⟨found, isFound, operated⟩ := Option.bind_eq_some_iff.mp taken
  cases isBuilder.symm.trans isFound
  by_contra unconsumed
  rw [Requests.operate, if_neg unconsumed] at operated
  cases operated
  exact operation.outcome_ne threw

end OnOwner

/-- What every run has, and what it has when its calls on started specifications
are made by their owners. -/
structure Recorded (history : List (Made Success Failure Json))
    (requests : Requests Success Failure) : Prop where
  valid : requests.WellFormed
  kept : ∀ made ∈ history, made.after.started ⊆ requests.started
  singleUse : (∀ made ∈ history, OnOwner made) → SingleUse history requests

theorem Recorded.start :
    Recorded ([] : List (Made Success Failure Json)) ({} : Requests Success Failure) where
  valid := ⟨.empty, fun _ member => absurd member List.not_mem_nil⟩
  kept _ member := absurd member List.not_mem_nil
  singleUse _ :=
    { once := List.nodup_nil
      unchanged := fun _ member => absurd member List.not_mem_nil
      refused := fun _ member => absurd member List.not_mem_nil }

theorem Recorded.move {history : List (Made Success Failure Json)}
    {requests next : Requests Success Failure} {call : Call Success Failure Json}
    {outcome : Outcome} (recorded : Recorded history requests)
    (taken : requests.step usingTls dump call = some (outcome, next)) :
    Recorded (history ++ [⟨requests, call, some outcome, next⟩]) next where
  valid := recorded.valid.step taken
  kept made member := by
    rcases List.mem_append.mp member with earlier | isLast
    · exact List.Subset.trans (recorded.kept made earlier) (Requests.started_subset taken)
    · cases List.mem_singleton.mp isLast
      exact List.Subset.refl _
  singleUse owners := by
    have before := recorded.singleUse fun made earlier =>
      owners made (List.mem_append_left _ earlier)
    have owner := owners _ (List.mem_append_right _ (List.mem_singleton_self _))
    refine ⟨owner.once taken before.once, ?_, ?_⟩
    · intro made member spec begun
      rcases List.mem_append.mp member with earlier | isLast
      · calc next.specs.get? spec
          _ = requests.specs.get? spec :=
            owner.unchanged recorded.valid taken (recorded.kept made earlier begun)
          _ = made.after.specs.get? spec := before.unchanged made earlier spec begun
      · cases List.mem_singleton.mp isLast
        rfl
    · intro made member self after
      rcases List.mem_append.mp member with earlier | isLast
      · exact before.refused made earlier self after
      · cases List.mem_singleton.mp isLast
        obtain ⟨rfl, rfl⟩ := owner.refused taken after
        exact ⟨rfl, rfl⟩

theorem taken_of_step {requests next : Requests Success Failure}
    {call : Call Success Failure Json} {event : Option Outcome}
    (transition : (Requests.system usingTls dump).step requests call = some (event, next)) :
    ∃ outcome, requests.step usingTls dump call = some (outcome, next) ∧ event = some outcome := by
  obtain ⟨done, taken, same⟩ := Option.map_eq_some_iff.mp transition
  cases same
  exact ⟨done.1, taken, rfl⟩

section Runs

variable {history : List (Made Success Failure Json)} {requests : Requests Success Failure}

theorem recorded_of_run
    (run : (Requests.system usingTls dump).recorded.Runs System.anyMove history requests) :
    Recorded history requests := by
  induction run with
  | initial start =>
      cases start
      exact .start
  | move _ transition _ inductionHypothesis =>
      obtain ⟨event, stepped, rfl⟩ := System.recorded_step transition
      obtain ⟨outcome, taken, rfl⟩ := taken_of_step stepped
      exact inductionHypothesis.move taken

/-- **A builder is single-use** in a run exactly when no call is made on a
builder of a started specification which neither started it nor was copied from
one which had. -/
theorem singleUse_iff
    (run : (Requests.system usingTls dump).recorded.Runs System.anyMove history requests) :
    SingleUse history requests ↔ ∀ made ∈ history, OnOwner made := by
  constructor
  · rintro single ⟨before, call, event, after⟩ member
    obtain ⟨outcome, taken, rfl⟩ := taken_of_step (run.of_mem member)
    refine OnOwner.of_refused taken fun self afterStart => ?_
    exact Option.some.inj (single.refused _ member self afterStart).1
  · exact (recorded_of_run run).singleUse

end Runs

end SingleUse

end Operations

/-- A builder which is used, started and then refused. -/
def usedOnce : List (Call Nat Nat Text) :=
  [.request ⟨false, "127.0.0.1".toList, "80".toList, "127.0.0.1".toList⟩ .get "/".toList,
    .operate 0 (.catchError (some 1)), .operate 0 (.then_ (some 2)),
    .operate 0 (.header "a".toList "b".toList)]

theorem singleUse_usedOnce :
    ∃ reached, (Requests.system false some).recorded.follow System.anyMove [] {} usedOnce =
        some reached ∧
      reached.1.filterMap (·.event) =
        [.returned, .returned, .returned, .threw alreadyStarted] ∧
      (SingleUse reached.1 reached.2 ↔ ∀ made ∈ reached.1, OnOwner made) :=
  (System.Runs.initial rfl).reaches rfl fun run => ⟨rfl, singleUse_iff run⟩

/-- A builder and a copy of it both start the request. -/
def startedTwice : List (Call Nat Nat Text) :=
  [.request ⟨false, "127.0.0.1".toList, "80".toList, "127.0.0.1".toList⟩ .get "/".toList,
    .copy 0, .operate 0 (.then_ (some 1)), .operate 1 (.then_ (some 2))]

theorem copy_starts_again :
    ¬ ∀ (history : List (Made Nat Nat Text)) (requests : Requests Nat Nat),
      (Requests.system false some).recorded.Runs System.anyMove history requests →
        SingleUse history requests := by
  intro usedOnce
  have reached : ∃ history requests, (Requests.system false some).recorded.follow System.anyMove []
      {} startedTwice = some (history, requests) ∧ requests.started = [0, 0] :=
    ⟨_, _, rfl, rfl⟩
  obtain ⟨history, requests, reached, started⟩ := reached
  have once := (usedOnce _ _ (System.Runs.follow (.initial rfl) reached)).once
  rw [started] at once
  revert once
  decide

end Foxhttp.Client
