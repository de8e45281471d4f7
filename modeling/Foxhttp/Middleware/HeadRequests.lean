import Foxhttp.Middleware.StaticPrefix

/-!
# HEAD requests for static files

For HEAD, `try_serve` sets the length of the file and clears the body, and then
`operator()` prepares the payload as for GET, which sets the length of the body
which is left. The refusals have the same text as body for both. So HEAD says
of a file what GET would only where there is nothing in the file.
-/

namespace Foxhttp.Middleware.StaticMiddleware

open Foxhttp.Library Foxhttp.Library.FilePath
open Foxhttp.Router (Verb)

variable {α : Type}

/-- The same call with another method. -/
def asking (verb : Verb) (turn : Turn StaticRequest (ContextState α) StaticResponse) :
    Turn StaticRequest (ContextState α) StaticResponse :=
  { turn with request := { turn.request with verb } }

/-- A response has the status and the fields of another, and no body. -/
structure Mirrors (atHead atGet : StaticResponse) : Prop where
  status : atHead.status = atGet.status
  head : atHead.head = atGet.head
  contentType : atHead.contentType = atGet.contentType
  contentLength : atHead.contentLength = atGet.contentLength
  body : atHead.body = []

/-- Where the middleware answers, either overload leaves a response to HEAD which
mirrors the one to GET. -/
def HeadMirrorsGet (middleware : StaticMiddleware) (fs : FileSystem)
    (turn : Turn StaticRequest (ContextState α) StaticResponse) : Prop :=
  middleware.Handles fs (asking .get turn).request turn.res → ∀ next,
    Mirrors ((middleware.overloads fs).call next (asking .head turn)).res
        ((middleware.overloads fs).call next (asking .get turn)).res ∧
      Mirrors
        ((middleware.overloads fs).callAsync next (fun _ _ turn => turn) (asking .head turn)).res
        ((middleware.overloads fs).callAsync next (fun _ _ turn => turn) (asking .get turn)).res

/-- A path leads to a regular file below the document root, or to a directory
below it with such an index. -/
def LeadsTo (middleware : StaticMiddleware) (fs : FileSystem) (path file : Text) : Prop :=
  ∃ target, fs.weaklyCanonical (middleware.mapped path) = some target ∧
    Below fs middleware.docRoot target ∧ (fs.status target).failed = false ∧
    if (fs.status target).type = .directory then
      fs.weaklyCanonical (append target middleware.indexFile) = some file ∧
        Below fs middleware.docRoot file ∧ (fs.status file).type = .regular
    else file = target ∧ (fs.status file).type = .regular

/-- The path leads to a file within the limit, and there is nothing in it. -/
def LeadsToEmpty (middleware : StaticMiddleware) (fs : FileSystem) (path : Text) : Prop :=
  ∃ file fsize, middleware.LeadsTo fs path file ∧ fs.fileSize file = some fsize ∧
    fsize ≤ middleware.maxFileSize ∧ fs.read file = some []

/-- The file which is located is the one the path leads to. -/
theorem locate_iff {middleware : StaticMiddleware} {fs : FileSystem} {path file : Text} :
    middleware.locate fs path = .ok file ↔ middleware.LeadsTo fs path file := by
  rw [locate, confine_bind_iff, LeadsTo]
  refine exists_congr fun target => and_congr_right fun _ => and_congr_right fun _ => ?_
  dsimp only
  cases failed : (fs.status target).failed with
  | true => simp
  | false =>
      rw [if_neg Bool.false_ne_true, and_iff_right rfl]
      split
      · rw [confine_bind_iff]
        simp only [regular_iff]
        constructor
        · rintro ⟨index, isIndex, isBelow, rfl, isRegular⟩
          exact ⟨isIndex, isBelow, isRegular⟩
        · rintro ⟨isIndex, isBelow, isRegular⟩
          exact ⟨file, isIndex, isBelow, rfl, isRegular⟩
      · exact regular_iff

/-- Both overloads leave what `try_serve` answers, prepared. -/
theorem overloads_res {middleware : StaticMiddleware} {fs : FileSystem}
    {turn : Turn StaticRequest (ContextState α) StaticResponse}
    (handles : middleware.Handles fs turn.request turn.res)
    (next : Turn StaticRequest (ContextState α) StaticResponse →
      Turn StaticRequest (ContextState α) StaticResponse) :
    ((middleware.overloads fs).call next turn).res =
        (middleware.tryServe fs turn.request turn.res).2.preparePayload ∧
      ((middleware.overloads fs).callAsync next (fun _ _ turn => turn) turn).res =
        (middleware.tryServe fs turn.request turn.res).2.preparePayload := by
  simp only [overloads]
  rw [if_neg handles]
  exact ⟨rfl, rfl⟩

/-- A refusal is the same for both methods, with its text as body. -/
theorem not_mirrors_plain (res : StaticResponse) (status : Nat) {body : Text} (text : body ≠ []) :
    ¬ Mirrors (res.plain status body).preparePayload (res.plain status body).preparePayload :=
  fun mirrors => text mirrors.body

/-- The answers with a file mirror each other exactly when there is nothing in it. -/
theorem answerFile_mirrors_iff (middleware : StaticMiddleware) (fs : FileSystem)
    (request : StaticRequest) (res : StaticResponse) (file : Text) :
    Mirrors (middleware.answerFile fs { request with verb := .head } res file).2.preparePayload
        (middleware.answerFile fs { request with verb := .get } res file).2.preparePayload ↔
      ∃ fsize, fs.fileSize file = some fsize ∧ fsize ≤ middleware.maxFileSize ∧
        fs.read file = some [] := by
  simp only [answerFile]
  cases size : fs.fileSize file with
  | none =>
      refine iff_of_false (not_mirrors_plain res 500 (by decide)) ?_
      rintro ⟨fsize, absent, -⟩
      cases absent
  | some fsize =>
      simp only [Option.some.injEq, exists_eq_left']
      split
      · rename_i large
        exact iff_of_false (not_mirrors_plain res 413 (by decide)) fun empty =>
          absurd empty.1 (Nat.not_le.mpr large)
      · rename_i small
        rw [and_iff_right (Nat.not_lt.mp small)]
        simp only [if_true, if_neg (by decide : ¬ Verb.get = .head)]
        cases content : fs.read file with
        | none =>
            refine iff_of_false (fun mirrors => ?_) fun same => by cases same
            cases mirrors.status
        | some bytes =>
            constructor
            · intro mirrors
              have length : some 0 = some bytes.length := mirrors.contentLength
              rw [List.length_eq_zero_iff.mp (Option.some.inj length).symm]
            · rintro ⟨⟩
              exact ⟨rfl, rfl, rfl, rfl, rfl⟩

/-- The status and the body with which `try_serve` refuses. -/
def refusalText : Refusal → Nat × Text
  | .forbidden => (403, "Forbidden".toList)
  | .notFound => (404, "Not Found".toList)

/-- The answer to a request whose path starts with the prefix. -/
theorem tryServe_of_starts {middleware : StaticMiddleware} {request : StaticRequest}
    (reads : request.verb = .get ∨ request.verb = .head)
    (starts : middleware.urlPrefix <+: request.path) (fs : FileSystem) (res : StaticResponse) :
    (∀ refusal, middleware.locate fs request.path = .error refusal →
        (middleware.tryServe fs request res).2 =
          res.plain (refusalText refusal).1 (refusalText refusal).2) ∧
      ∀ file, middleware.locate fs request.path = .ok file →
        (middleware.tryServe fs request res).2 = (middleware.answerFile fs request res file).2 := by
  have verbs : ¬ (request.verb ≠ .get ∧ request.verb ≠ .head) := by
    rw [not_and_or, not_not, not_not]
    exact reads
  rw [tryServe, if_neg verbs, if_neg (not_not.mpr starts)]
  constructor
  · intro refusal refused
    rw [refused]
    cases refusal <;> rfl
  · intro file located
    rw [located]

/-- Where the path starts with the prefix, HEAD mirrors GET when the prepared
answers do. -/
theorem headMirrorsGet_of_starts {middleware : StaticMiddleware}
    {turn : Turn StaticRequest (ContextState α) StaticResponse}
    (starts : middleware.urlPrefix <+: turn.request.path) (fs : FileSystem) :
    middleware.HeadMirrorsGet fs turn ↔
      Mirrors (middleware.tryServe fs (asking .head turn).request turn.res).2.preparePayload
        (middleware.tryServe fs (asking .get turn).request turn.res).2.preparePayload := by
  have atGet : middleware.Handles fs (asking .get turn).request turn.res :=
    (handles_iff (.inl rfl) fs _).mpr starts
  have atHead : middleware.Handles fs (asking .head turn).request turn.res :=
    (handles_iff (.inr rfl) fs _).mpr starts
  have left := @overloads_res α middleware fs (asking .get turn) atGet
  have right := @overloads_res α middleware fs (asking .head turn) atHead
  rw [HeadMirrorsGet]
  simp only [(left _).1, (left _).2, (right _).1, (right _).2, and_self]
  exact ⟨fun mirrors => mirrors atGet id, fun mirrors _ _ => mirrors⟩

/-- **HEAD mirrors GET** exactly when the path does not start with the prefix, or
leads to a file within the limit with nothing in it. -/
theorem headMirrorsGet_iff (middleware : StaticMiddleware) (fs : FileSystem)
    (turn : Turn StaticRequest (ContextState α) StaticResponse) :
    middleware.HeadMirrorsGet fs turn ↔
      (middleware.urlPrefix <+: turn.request.path →
        middleware.LeadsToEmpty fs turn.request.path) := by
  by_cases starts : middleware.urlPrefix <+: turn.request.path
  · rw [headMirrorsGet_of_starts starts, imp_iff_right starts]
    obtain ⟨getRefuses, getServes⟩ :=
      @tryServe_of_starts middleware (asking .get turn).request (.inl rfl) starts fs turn.res
    obtain ⟨headRefuses, headServes⟩ :=
      @tryServe_of_starts middleware (asking .head turn).request (.inr rfl) starts fs turn.res
    cases located : middleware.locate fs turn.request.path with
    | error refusal =>
        have text : (refusalText refusal).2 ≠ [] := by cases refusal <;> decide
        rw [getRefuses refusal located, headRefuses refusal located]
        refine iff_of_false (not_mirrors_plain _ _ text) ?_
        rintro ⟨file, fsize, leads, -⟩
        cases located.symm.trans (locate_iff.mpr leads)
    | ok file =>
        rw [getServes file located, headServes file located]
        refine (answerFile_mirrors_iff middleware fs turn.request turn.res file).trans ?_
        constructor
        · rintro ⟨fsize, empty⟩
          exact ⟨file, fsize, locate_iff.mp located, empty⟩
        · rintro ⟨other, fsize, leads, empty⟩
          cases located.symm.trans (locate_iff.mpr leads)
          exact ⟨fsize, empty⟩
  · refine iff_of_true (fun handles => ?_) fun isPrefix => absurd isPrefix starts
    have isPrefix := (@handles_iff middleware (asking .get turn).request (.inl rfl) fs _).mp handles
    exact absurd isPrefix starts

/-- A request for a directory whose index has five bytes. -/
def manualTurn : Turn StaticRequest (ContextState Unit) StaticResponse where
  request := ⟨.get, "/static/manual".toList, ⟨.http11, []⟩⟩
  state := ⟨[], []⟩
  res := ⟨404, ⟨.http11, []⟩, none, none, []⟩

/-- GET announces the five bytes, and HEAD announces none. -/
theorem head_announces_nothing :
    ¬ ∀ (middleware : StaticMiddleware) (fs : FileSystem)
      (turn : Turn StaticRequest (ContextState Unit) StaticResponse),
      middleware.HeadMirrorsGet fs turn := by
  intro mirrorsGet
  have mirrors := (headMirrorsGet_of_starts (by decide) linkedSite).mp
    (mirrorsGet ⟨"/static".toList, "/srv".toList, "index.html".toList, 1024⟩ linkedSite manualTurn)
  exact absurd mirrors.contentLength (by decide)

end Foxhttp.Middleware.StaticMiddleware
