import Foxhttp.Middleware.BuiltIn
import Foxhttp.Router.CanonicalPaths

/-!
# The prefix of the static files

`StaticMiddleware` serves the requests whose path starts with its prefix, compared
byte by byte. A path which goes on behind the prefix without a slash is served
too, so the rule is not one about segments of the path. Every other request is
handed on as it came.
-/

namespace Foxhttp.Middleware.StaticMiddleware

open Foxhttp.Library
open Foxhttp.Router (Verb)

variable {α : Type}

/-- `normalize_prefix` takes every slash off the end. -/
theorem normalizePrefix_eq (p : Text) : normalizePrefix p = Router.rooted p := by
  have canonical := Router.canonical_rooted p
  have split := Router.slashed_split p
  obtain ⟨rest, isRooted⟩ := List.head?_eq_some_iff.mp canonical.1
  have stops : rest.getLast? ≠ some '/' := by
    intro last
    cases rest with
    | nil => cases last
    | cons c rest =>
        rw [isRooted] at canonical
        have isRoot := canonical.2 (by rw [List.getLast?_cons_cons, last])
        cases isRoot
  rw [isRooted, List.cons_append] at split
  show (Router.slashed p).take 1 ++ Router.unslashed ((Router.slashed p).drop 1) = _
  rw [split, List.drop_one, List.tail_cons, Router.unslashed_append stops, isRooted]
  rfl

/-- The two normal forms of a path are the same exactly for tidy paths. -/
theorem normalizePath_eq_normalizePrefix_iff (path : Text) :
    Router.normalizePath path = normalizePrefix path ↔ Router.Tidy path := by
  rw [normalizePrefix_eq, Router.normalizePath_eq, Router.tidy_iff_leftSlashes,
    List.append_right_eq_self, List.replicate_eq_nil_iff]

/-- The middleware answers the request itself. -/
def Handles (middleware : StaticMiddleware) (fs : FileSystem) (request : StaticRequest)
    (res : StaticResponse) : Prop :=
  (middleware.tryServe fs request res).1 ≠ .notApplicable

/-- The path is the prefix, or goes on behind it with a new segment. -/
def SegmentRule (urlPrefix path : Text) : Prop :=
  urlPrefix = ['/'] ∨ path = urlPrefix ∨ urlPrefix ++ ['/'] <+: path

theorem answerFile_handles (middleware : StaticMiddleware) (fs : FileSystem)
    (request : StaticRequest) (res : StaticResponse) (file : Text) :
    (middleware.answerFile fs request res file).1 ≠ .notApplicable := by
  rw [answerFile]
  split
  · exact fun same => by cases same
  · split
    · exact fun same => by cases same
    · simp only
      split
      · exact fun same => by cases same
      · split
        · exact fun same => by cases same
        · exact fun same => by cases same

/-- Requests for a file are handled exactly when their path starts with the prefix. -/
theorem handles_iff {middleware : StaticMiddleware} {request : StaticRequest}
    (reads : request.verb = .get ∨ request.verb = .head) (fs : FileSystem)
    (res : StaticResponse) :
    middleware.Handles fs request res ↔ middleware.urlPrefix <+: request.path := by
  have verbs : ¬ (request.verb ≠ .get ∧ request.verb ≠ .head) := by
    rw [not_and_or, not_not, not_not]
    exact reads
  rw [Handles, tryServe, if_neg verbs]
  by_cases starts : middleware.urlPrefix <+: request.path
  · rw [if_neg (not_not.mpr starts)]
    refine iff_of_true ?_ starts
    split
    · exact fun same => by cases same
    · exact fun same => by cases same
    · exact answerFile_handles middleware fs request res _
  · rw [if_pos starts]
    exact iff_of_false (fun handles => handles rfl) starts

/-- A request which is not handled leaves the response as it was. -/
theorem tryServe_of_not {middleware : StaticMiddleware} {fs : FileSystem}
    {request : StaticRequest} {res : StaticResponse}
    (not : ¬ middleware.Handles fs request res) :
    middleware.tryServe fs request res = (.notApplicable, res) := by
  rw [Handles, not_not] at not
  refine Prod.ext not ?_
  rw [tryServe] at not ⊢
  split
  · rfl
  · rename_i verbs
    rw [if_neg verbs] at not
    split
    · rfl
    · rename_i starts
      rw [if_neg starts] at not
      split at not
      · cases not
      · cases not
      · exact absurd not (answerFile_handles middleware fs request res _)

/-- A request which is handled does not reach `next()`. -/
theorem overloads_of_handles {middleware : StaticMiddleware} {fs : FileSystem}
    {turn : Turn StaticRequest (ContextState α) StaticResponse}
    (handles : middleware.Handles fs turn.request turn.res) :
    ∃ res : StaticResponse, ∀ next,
      (middleware.overloads fs).call next turn = { turn with res } ∧
        ∀ callback, (middleware.overloads fs).callAsync next callback turn =
          callback .Stop [] { turn with res } := by
  refine ⟨(middleware.tryServe fs turn.request turn.res).2.preparePayload, fun next => ⟨?_, ?_⟩⟩
  · simp only [overloads]
    rw [if_neg handles]
    rfl
  · intro callback
    simp only [overloads]
    rw [if_neg handles]
    rfl

/-- A request which is not handled goes to `next()` as it came. -/
theorem overloads_of_not {middleware : StaticMiddleware} {fs : FileSystem}
    {turn : Turn StaticRequest (ContextState α) StaticResponse}
    (not : ¬ middleware.Handles fs turn.request turn.res)
    (next : Turn StaticRequest (ContextState α) StaticResponse →
      Turn StaticRequest (ContextState α) StaticResponse) :
    (middleware.overloads fs).call next turn = next turn ∧
      ∀ callback, (middleware.overloads fs).callAsync next callback turn =
        callback .Continue [] (next turn) := by
  refine ⟨?_, fun callback => ?_⟩
  · simp only [overloads, tryServe_of_not not, if_true]
  · simp only [overloads, tryServe_of_not not, if_true]

/-- The rule for segments is the one of the middleware exactly for the root prefix
and paths with a leading slash, and for paths which do not go on behind another
prefix without a slash. -/
theorem segmentRule_iff (urlPrefix path : Text) :
    (urlPrefix <+: path ↔ SegmentRule urlPrefix path) ↔
      if urlPrefix = ['/'] then path.head? = some '/'
      else ∀ c, urlPrefix ++ [c] <+: path → c = '/' := by
  by_cases isRoot : urlPrefix = ['/']
  · rw [if_pos isRoot, isRoot]
    have always : SegmentRule ['/'] path := .inl rfl
    rw [iff_true_right always]
    cases path with
    | nil => simp
    | cons c rest => simp [List.cons_prefix_cons, eq_comm]
  · rw [if_neg isRoot]
    constructor
    · intro same c goesOn
      have starts := (List.prefix_append urlPrefix [c]).trans goesOn
      rcases same.mp starts with root | equal | slash
      · exact absurd root isRoot
      · have longer := goesOn.length_le
        rw [equal, List.length_append, List.length_singleton] at longer
        omega
      · obtain ⟨later, rfl⟩ := slash
        rw [List.append_assoc, List.prefix_append_right_inj] at goesOn
        exact (List.cons_prefix_cons.mp goesOn).1
    · intro onlySlash
      constructor
      · rintro ⟨later, rfl⟩
        cases later with
        | nil => exact .inr (.inl (List.append_nil urlPrefix))
        | cons c later =>
            have goesOn : urlPrefix ++ [c] <+: urlPrefix ++ c :: later :=
              (List.prefix_append_right_inj urlPrefix).mpr
                (List.cons_prefix_cons.mpr ⟨rfl, List.nil_prefix⟩)
            have isSlash := onlySlash c goesOn
            subst isSlash
            exact .inr (.inr goesOn)
      · rintro (root | rfl | slash)
        · exact absurd root isRoot
        · exact List.prefix_refl path
        · exact (List.prefix_append urlPrefix ['/']).trans slash

/-- What a middleware constructed for a prefix does with a request for a file: it
answers itself exactly when the path starts with the normal form of the prefix, and
hands every other request on with the response untouched. -/
theorem serves_behind_prefix (fs : FileSystem) (weaklyCanonical : Text → Option Text)
    (urlPrefix documentRoot indexFile : Text) (bytes : Nat)
    (turn : Turn StaticRequest (ContextState α) StaticResponse)
    (reads : turn.request.verb = .get ∨ turn.request.verb = .head) :
    let middleware := (new weaklyCanonical urlPrefix documentRoot indexFile).setMaxFileSize bytes
    if normalizePrefix urlPrefix <+: turn.request.path then
      ∃ res : StaticResponse, ∀ next,
        (middleware.overloads fs).call next turn = { turn with res } ∧
          ∀ callback, (middleware.overloads fs).callAsync next callback turn =
            callback .Stop [] { turn with res }
    else
      ∀ next, (middleware.overloads fs).call next turn = next turn ∧
        ∀ callback, (middleware.overloads fs).callAsync next callback turn =
          callback .Continue [] (next turn) := by
  intro middleware
  have handled := @handles_iff middleware turn.request reads fs turn.res
  split
  · rename_i starts
    exact overloads_of_handles (handled.mpr starts)
  · rename_i apart
    exact overloads_of_not fun handles => apart (handled.mp handles)

/-- A request for a file below the prefix. -/
def logoTurn : Turn StaticRequest (ContextState Unit) StaticResponse where
  request := ⟨.get, "/assets/logo.png".toList, ⟨.http11, []⟩⟩
  state := ⟨[], []⟩
  res := ⟨404, ⟨.http11, []⟩, none, none, []⟩

theorem serves_behind_prefix_logo :
    ∃ res : StaticResponse, ∀ next,
      (((new linkedSite.weaklyCanonical "assets/".toList "/srv".toList
        "index.html".toList).setMaxFileSize 1024).overloads linkedSite).call next logoTurn =
          { logoTurn with res } ∧
        ∀ callback, (((new linkedSite.weaklyCanonical "assets/".toList "/srv".toList
          "index.html".toList).setMaxFileSize 1024).overloads linkedSite).callAsync next callback
            logoTurn = callback .Stop [] { logoTurn with res } := by
  have served := serves_behind_prefix linkedSite linkedSite.weaklyCanonical "assets/".toList
    "/srv".toList "index.html".toList 1024 logoTurn (.inl rfl)
  have starts : normalizePrefix "assets/".toList <+: logoTurn.request.path := by decide
  exact (if_pos starts).mp served

/-- A path which only shares its first characters with the prefix is served too. -/
theorem shared_characters_handled :
    ((new linkedSite.weaklyCanonical "/assets".toList "/srv".toList
        "index.html".toList).setMaxFileSize 1024).Handles linkedSite
      ⟨.get, "/assetsmanual".toList, ⟨.http11, []⟩⟩ ⟨404, ⟨.http11, []⟩, none, none, []⟩ ∧
    ¬ SegmentRule (normalizePrefix "/assets".toList) "/assetsmanual".toList := by
  refine ⟨(handles_iff (.inl rfl) _ _).mpr (by decide), ?_⟩
  rintro (root | equal | slash)
  · exact absurd root (by decide)
  · exact absurd equal (by decide)
  · exact absurd slash (by decide)

end Foxhttp.Middleware.StaticMiddleware
