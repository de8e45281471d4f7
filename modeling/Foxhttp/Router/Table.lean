import Mathlib.Data.List.AList
import Foxhttp.Library.Sorter
import Foxhttp.Router.Path
import Foxhttp.Router.Pattern

/-!
# The route table

Static routes are kept by normalised path, dynamic routes in order of
specificity. A lookup takes the static route of the path when there is one, and
the first matching dynamic route otherwise, and only then looks at the method.
Handlers are shared pointers and may be null. Every operation holds the table's
mutex, so it is one step.
-/

namespace Foxhttp.Router

open Foxhttp.Library

/-- `http::verb`. -/
inductive Verb where
  | unknown | delete | get | head | post | put | connect | options | trace | copy | lock | mkcol
  | move | propfind | proppatch | search | unlock | bind | rebind | unbind | acl | report
  | mkactivity | checkout | merge | msearch | notify | subscribe | unsubscribe | patch | purge
  | mkcalendar | link | unlink
deriving DecidableEq, Repr

/-- The part of a `RequestContext` which routing reads and writes. -/
structure RequestContext where
  pathParams : AList fun _ : Text => Text

/-- `RequestContext::set_path_parameters`. -/
def RequestContext.setPathParameters (_ctx : RequestContext) (params : AList fun _ : Text => Text) :
    RequestContext :=
  ⟨params⟩

variable {H : Type}

/-- `StaticRoute`. -/
structure StaticRoute (H : Type) where
  pattern : Text
  handler : Option H
  method : Verb

/-- `DynamicRoute`. -/
structure DynamicRoute (H : Type) where
  pattern : Text
  handler : Option H
  regexPattern : Regex
  paramNames : List Text
  method : Verb

/-- `StaticRoute::matches_method`. -/
def StaticRoute.matchesMethod (route : StaticRoute H) (method : Verb) : Bool :=
  route.method == .unknown || route.method == method

/-- `DynamicRoute::matches_method`. -/
def DynamicRoute.matchesMethod (route : DynamicRoute H) (method : Verb) : Bool :=
  route.method == .unknown || route.method == method

/-- The parameters `DynamicRoute::extract_path_params` collects: each name with
the group at its position, later groups over earlier ones of the same name. -/
def collectParams (names : List Text) (groups : List Text) : AList fun _ : Text => Text :=
  (names.zip groups).foldl (fun params param => params.insert param.1 param.2) ∅

/-- `DynamicRoute::extract_path_params`. -/
def DynamicRoute.extractPathParams (route : DynamicRoute H) (groups : List Text)
    (ctx : RequestContext) : RequestContext :=
  let params := collectParams route.paramNames groups
  if params.keys.isEmpty then ctx else ctx.setPathParameters params

/-- The comparator `add_dynamic_route` sorts by. -/
def DynamicRoute.moreSpecific (a b : DynamicRoute H) : Bool :=
  let aTotal := countSegments a.pattern
  let bTotal := countSegments b.pattern
  let aParams := a.paramNames.length
  let bParams := b.paramNames.length
  let aSpecific := if aParams < aTotal then aTotal - aParams else 0
  let bSpecific := if bParams < bTotal then bTotal - bParams else 0
  if aSpecific ≠ bSpecific then bSpecific < aSpecific
  else if aTotal ≠ bTotal then bTotal < aTotal
  else a.pattern < b.pattern

/-- The number of static segments the comparator goes by. -/
def DynamicRoute.specificity (route : DynamicRoute H) : Nat :=
  countSegments route.pattern - route.paramNames.length

/-- The comparator is lexicographic: more static segments, then more segments,
then the smaller pattern. -/
theorem DynamicRoute.moreSpecific_iff (a b : DynamicRoute H) :
    a.moreSpecific b = true ↔
      b.specificity < a.specificity ∨
        a.specificity = b.specificity ∧
          (countSegments b.pattern < countSegments a.pattern ∨
            countSegments a.pattern = countSegments b.pattern ∧ a.pattern < b.pattern) := by
  have truncated : ∀ params total : Nat,
      (if params < total then total - params else 0) = total - params := by
    intro params total
    split <;> omega
  simp only [moreSpecific, truncated, specificity]
  split
  · simp only [decide_eq_true_eq]
    omega
  · split
    · simp only [decide_eq_true_eq]
      omega
    · simp only [decide_eq_true_eq]
      constructor
      · intro smaller
        exact .inr ⟨by omega, .inr ⟨by omega, smaller⟩⟩
      · rintro (_ | ⟨_, _ | ⟨_, smaller⟩⟩)
        · omega
        · omega
        · exact smaller

theorem DynamicRoute.moreSpecific_asymm (a b : DynamicRoute H)
    (less : a.moreSpecific b = true) : b.moreSpecific a = false := by
  rw [moreSpecific_iff] at less
  rw [← Bool.not_eq_true, moreSpecific_iff]
  rintro (_ | ⟨_, _ | ⟨_, back⟩⟩)
  · omega
  · omega
  · rcases less with _ | ⟨_, _ | ⟨_, forth⟩⟩
    · omega
    · omega
    · exact List.lt_asymm forth back

theorem DynamicRoute.moreSpecific_incomparable (a b c : DynamicRoute H)
    (first : b.moreSpecific a = false) (second : c.moreSpecific b = false) :
    c.moreSpecific a = false := by
  rw [← Bool.not_eq_true, moreSpecific_iff] at first second ⊢
  have patterns : ¬ b.pattern < a.pattern → ¬ c.pattern < b.pattern → ¬ c.pattern < a.pattern :=
    fun early late => List.not_lt.mpr
      (List.le_trans (List.not_lt.mp early) (List.not_lt.mp late))
  grind

/-- Sorting by specificity, with insertion. -/
def DynamicRoute.insertionSorter :
    Sorter (DynamicRoute.moreSpecific : DynamicRoute H → DynamicRoute H → Bool) :=
  .insertion moreSpecific_asymm moreSpecific_incomparable

/-- `Route`, for introspection. -/
inductive Route (H : Type) where
  | static (route : StaticRoute H)
  | dynamic (route : DynamicRoute H)

/-- `RouteTable`. -/
structure RouteTable (H : Type) where
  staticRoutes : AList fun _ : Text => StaticRoute H
  dynamicRoutes : List (DynamicRoute H)
  allRoutes : List (Route H)

namespace RouteTable

/-- A new route table. -/
def empty : RouteTable H :=
  ⟨∅, [], []⟩

/-- `add_static_route(path, method, handler)`. -/
def addStaticRoute (table : RouteTable H) (path : Text) (method : Verb) (handler : Option H) :
    RouteTable H :=
  let key := normalizePath path
  let route : StaticRoute H := ⟨key, handler, method⟩
  { table with
    staticRoutes := table.staticRoutes.insert key route
    allRoutes := table.allRoutes ++ [.static route] }

/-- `add_static_route(path, handler)`. -/
def addStaticRouteAny (table : RouteTable H) (path : Text) (handler : Option H) : RouteTable H :=
  table.addStaticRoute path .unknown handler

section Sorting

variable (sorter : Sorter (DynamicRoute.moreSpecific : DynamicRoute H → DynamicRoute H → Bool))

/-- `add_dynamic_route(pattern, method, handler)`. -/
def addDynamicRoute (table : RouteTable H) (pattern : Text) (method : Verb)
    (handler : Option H) : Except Text (RouteTable H) :=
  match parsePattern pattern with
  | .ok (regexPattern, paramNames) =>
      let route : DynamicRoute H := ⟨pattern, handler, regexPattern, paramNames, method⟩
      .ok
        { table with
          dynamicRoutes := sorter.sort (table.dynamicRoutes ++ [route])
          allRoutes := table.allRoutes ++ [.dynamic route] }
  | .error message =>
      .error ("Failed to parse dynamic route pattern '".toList ++ pattern ++ "': ".toList ++
        message)

/-- `add_dynamic_route(pattern, handler)`. -/
def addDynamicRouteAny (table : RouteTable H) (pattern : Text) (handler : Option H) :
    Except Text (RouteTable H) :=
  table.addDynamicRoute sorter pattern .unknown handler

end Sorting

/-- What `resolve_route_with_method` returns, and the context it leaves. -/
structure Resolved (H : Type) where
  handler : Option H
  allowedMethods : List Verb
  ctx : RequestContext

/-- The loop of `resolve_route_with_method` over the dynamic routes: a match
with the method returns, a match without it ends the loop. -/
def scanDynamicRoutes (key : Text) (method : Verb) (ctx : RequestContext) :
    List (DynamicRoute H) → Resolved H
  | [] => ⟨none, [], ctx⟩
  | route :: routes =>
      match route.regexPattern.fullMatch key with
      | some groups =>
          if route.matchesMethod method then
            ⟨route.handler, [], route.extractPathParams groups ctx⟩
          else ⟨none, if route.method = .unknown then [] else [route.method], ctx⟩
      | none => scanDynamicRoutes key method ctx routes

/-- `resolve_route_with_method`. -/
def resolveRouteWithMethod (table : RouteTable H) (path : Text) (method : Verb)
    (ctx : RequestContext) : Resolved H :=
  let key := normalizePath path
  match table.staticRoutes.lookup key with
  | some route =>
      if route.matchesMethod method then ⟨route.handler, [], ctx⟩
      else ⟨none, if route.method = .unknown then [] else [route.method], ctx⟩
  | none => scanDynamicRoutes key method ctx table.dynamicRoutes

/-- `resolve_route`. -/
def resolveRoute (table : RouteTable H) (path : Text) (ctx : RequestContext) :
    Option H × RequestContext :=
  let result := table.resolveRouteWithMethod path .unknown ctx
  (result.handler, result.ctx)

/-- `clear`. -/
def clear (_table : RouteTable H) : RouteTable H :=
  ⟨∅, [], []⟩

end RouteTable

end Foxhttp.Router
