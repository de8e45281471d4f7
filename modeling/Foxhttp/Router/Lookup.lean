import Mathlib.Data.List.Induction
import Foxhttp.Router.Table

/-!
# What a lookup finds after a history of registrations

`Indexed` ties a route table to the routes registered in it: the static map
holds the latest route of every path, the dynamic list holds every dynamic route
in order of specificity. A lookup stops at one route, the one which governs the
path, and it succeeds when that route takes the method.
-/

namespace Foxhttp.Router

open Foxhttp.Library

variable {H : Type}

/-! ## Routes and registrations -/

namespace Route

/-- Whether the route matches a normalised path. -/
def matchesPath (key : Text) : Route H → Bool
  | .static route => route.pattern == key
  | .dynamic route => (route.regexPattern.fullMatch key).isSome

/-- Whether the route accepts the method. -/
def matchesMethod (method : Verb) : Route H → Bool
  | .static route => route.matchesMethod method
  | .dynamic route => route.matchesMethod method

/-- The handler of the route. -/
def handler : Route H → Option H
  | .static route => route.handler
  | .dynamic route => route.handler

/-- The static route this is, if it is one. -/
def static? : Route H → Option (StaticRoute H)
  | .static route => some route
  | .dynamic _ => none

/-- The dynamic route this is, if it is one. -/
def dynamic? : Route H → Option (DynamicRoute H)
  | .static _ => none
  | .dynamic route => some route

@[simp] theorem static?_static (route : StaticRoute H) : static? (.static route) = some route := rfl

@[simp] theorem static?_dynamic (route : DynamicRoute H) : static? (.dynamic route) = none := rfl

@[simp] theorem dynamic?_static (route : StaticRoute H) : dynamic? (.static route) = none := rfl

@[simp] theorem dynamic?_dynamic (route : DynamicRoute H) :
    dynamic? (.dynamic route) = some route := rfl

end Route

/-- A call of `add_static_route` or `add_dynamic_route`. The overloads without
a method register for `Verb.unknown`. -/
inductive Registration (H : Type) where
  | static (path : Text) (method : Verb) (handler : Option H)
  | dynamic (pattern : Text) (method : Verb) (handler : Option H)

/-- The route a call registers, when it does not throw. -/
def Registration.route? : Registration H → Option (Route H)
  | .static path method handler => some (.static ⟨normalizePath path, handler, method⟩)
  | .dynamic pattern method handler =>
      match parsePattern pattern with
      | .ok (regexPattern, paramNames) =>
          some (.dynamic ⟨pattern, handler, regexPattern, paramNames, method⟩)
      | .error _ => none

/-- The routes a history registers, in order. -/
def registered (history : List (Registration H)) : List (Route H) :=
  history.filterMap Registration.route?

/-- The latest static route of a path. -/
def latestStatic (routes : List (Route H)) (key : Text) : Option (StaticRoute H) :=
  (routes.filterMap Route.static?).reverse.find? fun route => route.pattern == key

section Sorting

variable (sorter : Sorter (DynamicRoute.moreSpecific : DynamicRoute H → DynamicRoute H → Bool))

/-- The table after a call. A call which throws leaves it as it is. -/
def RouteTable.register (table : RouteTable H) : Registration H → RouteTable H
  | .static path method handler => table.addStaticRoute path method handler
  | .dynamic pattern method handler =>
      match table.addDynamicRoute sorter pattern method handler with
      | .ok next => next
      | .error _ => table

/-- The table after a history of calls. -/
def RouteTable.registerAll (history : List (Registration H)) : RouteTable H :=
  history.foldl (RouteTable.register sorter) .empty

/-! ## The table of a history -/

/-- What a table holds of the routes registered in it. -/
structure Indexed (routes : List (Route H)) (table : RouteTable H) : Prop where
  all : table.allRoutes = routes
  static : ∀ key, table.staticRoutes.lookup key = latestStatic routes key
  dynamic : table.dynamicRoutes.Perm (routes.filterMap Route.dynamic?)
  sorted : table.dynamicRoutes.Pairwise fun first second => second.moreSpecific first = false

theorem latestStatic_snoc_static (routes : List (Route H)) (route : StaticRoute H) (key : Text) :
    latestStatic (routes ++ [.static route]) key =
      if route.pattern = key then some route else latestStatic routes key := by
  simp only [latestStatic, List.filterMap_append, List.filterMap_cons, Route.static?_static,
    List.filterMap_nil, List.reverse_append, List.reverse_cons, List.reverse_nil, List.nil_append,
    List.singleton_append, List.find?_cons]
  by_cases isKey : route.pattern = key
  · rw [if_pos isKey, beq_iff_eq.mpr isKey]
  · rw [if_neg isKey, beq_eq_false_iff_ne.mpr isKey]

theorem latestStatic_snoc_dynamic (routes : List (Route H)) (route : DynamicRoute H)
    (key : Text) : latestStatic (routes ++ [.dynamic route]) key = latestStatic routes key := by
  simp [latestStatic, List.filterMap_append, List.filterMap_cons]

/-- A new table holds no routes. -/
theorem Indexed.empty : Indexed [] (RouteTable.empty : RouteTable H) where
  all := rfl
  static _ := rfl
  dynamic := .refl _
  sorted := .nil

/-- A call adds its route to what the table holds. -/
theorem Indexed.register {routes : List (Route H)} {table : RouteTable H}
    (indexed : Indexed routes table) (call : Registration H) :
    Indexed (routes ++ call.route?.toList) (table.register sorter call) := by
  cases call with
  | static path method handler =>
      refine ⟨?_, fun key => ?_, ?_, indexed.sorted⟩
      · simp [RouteTable.register, RouteTable.addStaticRoute, Registration.route?, indexed.all]
      · rw [Registration.route?, Option.toList_some, latestStatic_snoc_static,
          ← indexed.static key]
        simp only [RouteTable.register, RouteTable.addStaticRoute]
        split
        · rename_i isKey
          rw [← isKey, AList.lookup_insert]
        · rename_i different
          rw [AList.lookup_insert_ne (Ne.symm different)]
      · simpa [RouteTable.register, RouteTable.addStaticRoute, Registration.route?,
          List.filterMap_append, List.filterMap_cons] using indexed.dynamic
  | dynamic pattern method handler =>
      simp only [RouteTable.register, RouteTable.addDynamicRoute, Registration.route?]
      cases parsed : parsePattern pattern with
      | error message => simpa using indexed
      | ok found =>
          refine ⟨?_, fun key => ?_, ?_, sorter.sorted _⟩
          · simp [indexed.all]
          · rw [Option.toList_some, latestStatic_snoc_dynamic]
            exact indexed.static key
          · refine (sorter.perm _).trans ?_
            rw [Option.toList_some, List.filterMap_append]
            exact indexed.dynamic.append_right _

theorem registered_snoc (history : List (Registration H)) (call : Registration H) :
    registered (history ++ [call]) = registered history ++ call.route?.toList := by
  rw [registered, List.filterMap_append, ← registered]
  cases isRoute : call.route? <;> simp [isRoute]

theorem registerAll_snoc (history : List (Registration H)) (call : Registration H) :
    RouteTable.registerAll sorter (history ++ [call]) =
      (RouteTable.registerAll sorter history).register sorter call :=
  List.foldl_concat ..

/-- The table of a history holds the routes the history registers. -/
theorem indexed_registerAll (history : List (Registration H)) :
    Indexed (registered history) (RouteTable.registerAll sorter history) := by
  induction history using List.reverseRecOn with
  | nil => exact .empty
  | append_singleton history call inductionHypothesis =>
      have step := inductionHypothesis.register sorter call
      rw [registered_snoc, registerAll_snoc]
      exact step

/-! ## The route a lookup stops at -/

/-- The route which decides about a path: the latest static route of the path,
or the most specific dynamic route which matches when the path has no static
route. -/
inductive Governs (history : List (Registration H)) (key : Text) : Route H → Prop where
  | static {route} (latest : latestStatic (registered history) key = some route) :
      Governs history key (.static route)
  | dynamic {earlier route later} (noStatic : latestStatic (registered history) key = none)
      (split : (RouteTable.registerAll sorter history).dynamicRoutes = earlier ++ route :: later)
      (found : (Route.dynamic route).matchesPath key = true)
      (first : ∀ other ∈ earlier, (Route.dynamic other).matchesPath key = false) :
      Governs history key (.dynamic route)

/-- If a route of the history matches the path and accepts the method, the
lookup returns a handler. -/
def RoutingComplete (history : List (Registration H)) (path : Text) (method : Verb) : Prop :=
  (∃ route ∈ registered history, route.matchesPath (normalizePath path) = true ∧
    route.matchesMethod method = true) →
  ∀ ctx, ((RouteTable.registerAll sorter history).resolveRouteWithMethod path method ctx).handler ≠
    none

/-- Every path which some route matches is governed by a route. -/
theorem governs_of_match {history : List (Registration H)} {key : Text} {route : Route H}
    (isRegistered : route ∈ registered history) (found : route.matchesPath key = true) :
    ∃ governing, Governs sorter history key governing := by
  cases latest : latestStatic (registered history) key with
  | some route => exact ⟨_, .static latest⟩
  | none =>
      cases route with
      | static route =>
          have absent := List.find?_eq_none.mp latest route
            (List.mem_reverse.mpr (List.mem_filterMap.mpr ⟨_, isRegistered, rfl⟩))
          exact absurd found absent
      | dynamic route =>
          have member : route ∈ (RouteTable.registerAll sorter history).dynamicRoutes :=
            (indexed_registerAll sorter history).dynamic.mem_iff.mpr
              (List.mem_filterMap.mpr ⟨_, isRegistered, rfl⟩)
          cases first : (RouteTable.registerAll sorter history).dynamicRoutes.find?
              fun other => (Route.dynamic other).matchesPath key with
          | none => exact absurd found (List.find?_eq_none.mp first route member)
          | some governing =>
              obtain ⟨matched, earlier, later, split, unmatched⟩ :=
                List.find?_eq_some_iff_append.mp first
              exact ⟨_, .dynamic latest split matched fun other isEarlier => by
                simpa using unmatched other isEarlier⟩

/-- No matching dynamic route is more specific than the one which governs. -/
theorem Governs.most_specific {history : List (Registration H)} {key : Text}
    {route other : DynamicRoute H} (governs : Governs sorter history key (.dynamic route))
    (isRegistered : .dynamic other ∈ registered history)
    (found : (Route.dynamic other).matchesPath key = true) : other.moreSpecific route = false := by
  have indexed := indexed_registerAll sorter history
  cases governs with
  | dynamic _ split _ first =>
      have member := indexed.dynamic.mem_iff.mpr (List.mem_filterMap.mpr ⟨_, isRegistered, rfl⟩)
      have ordered := indexed.sorted
      rw [split] at member ordered
      rcases List.mem_append.mp member with isEarlier | isHere
      · rw [first other isEarlier] at found
        cases found
      · rcases List.mem_cons.mp isHere with rfl | isLater
        · cases less : other.moreSpecific other with
          | false => rfl
          | true => rw [← DynamicRoute.moreSpecific_asymm other other less, less]
        · exact (List.pairwise_cons.mp (List.pairwise_append.mp ordered).2.1).1 other isLater

/-- The loop over the dynamic routes passes the routes which do not match. -/
theorem scanDynamicRoutes_append {key : Text} {earlier : List (DynamicRoute H)}
    (unmatched : ∀ other ∈ earlier, (Route.dynamic other).matchesPath key = false)
    (method : Verb) (ctx : RequestContext) (later : List (DynamicRoute H)) :
    RouteTable.scanDynamicRoutes key method ctx (earlier ++ later) =
      RouteTable.scanDynamicRoutes key method ctx later := by
  induction earlier with
  | nil => rfl
  | cons other earlier inductionHypothesis =>
      rw [List.forall_mem_cons] at unmatched
      have noMatch : other.regexPattern.fullMatch key = none := by
        simpa [Route.matchesPath] using unmatched.1
      rw [List.cons_append, RouteTable.scanDynamicRoutes, noMatch]
      exact inductionHypothesis unmatched.2

/-- The lookup returns the handler of the governing route when that route
accepts the method, and none otherwise. -/
theorem handler_of_governs {history : List (Registration H)} {path : Text} {route : Route H}
    (governs : Governs sorter history (normalizePath path) route) (method : Verb)
    (ctx : RequestContext) :
    ((RouteTable.registerAll sorter history).resolveRouteWithMethod path method ctx).handler =
      if route.matchesMethod method then route.handler else none := by
  rw [RouteTable.resolveRouteWithMethod, (indexed_registerAll sorter history).static]
  cases governs with
  | static latest =>
      rw [latest]
      exact apply_ite RouteTable.Resolved.handler _ _ _
  | dynamic noStatic split found first =>
      obtain ⟨groups, isMatch⟩ := Option.isSome_iff_exists.mp found
      rw [noStatic, split, scanDynamicRoutes_append first]
      simp only [RouteTable.scanDynamicRoutes, isMatch]
      exact apply_ite RouteTable.Resolved.handler _ _ _

/-- Routing is complete for a path and a method exactly when no registered
route matches the path and accepts the method, or the route which governs the
path accepts the method and has a handler. -/
theorem routingComplete_iff (history : List (Registration H)) (path : Text) (method : Verb) :
    RoutingComplete sorter history path method ↔
      (∀ route ∈ registered history, route.matchesPath (normalizePath path) = true →
        route.matchesMethod method = false) ∨
      ∃ route, Governs sorter history (normalizePath path) route ∧
        route.matchesMethod method = true ∧ route.handler ≠ none := by
  constructor
  · intro complete
    by_cases refused : ∀ route ∈ registered history,
        route.matchesPath (normalizePath path) = true → route.matchesMethod method = false
    · exact .inl refused
    · simp only [not_forall, Bool.not_eq_false] at refused
      obtain ⟨route, isRegistered, found, accepts⟩ := refused
      obtain ⟨governing, governs⟩ := governs_of_match sorter isRegistered found
      have resolved := complete ⟨route, isRegistered, found, accepts⟩ ⟨∅⟩
      rw [handler_of_governs sorter governs] at resolved
      refine .inr ⟨governing, governs, ?_⟩
      split at resolved
      · rename_i governingAccepts
        exact ⟨governingAccepts, resolved⟩
      · exact absurd rfl resolved
  · rintro (refused | ⟨governing, governs, accepts, hasHandler⟩)
    · rintro ⟨route, isRegistered, found, accepts⟩
      rw [refused route isRegistered found] at accepts
      cases accepts
    · intro _ ctx
      rw [handler_of_governs sorter governs, if_pos accepts]
      exact hasHandler

end Sorting

/-- Two static registrations of one path for different methods: only the later
one is reachable. -/
theorem routing_incomplete_two_methods :
    ¬ ∀ (history : List (Registration Nat)) (path : Text) (method : Verb),
      RoutingComplete DynamicRoute.insertionSorter history path method := by
  intro complete
  have resolved := complete
    [.static "/api/users".toList .get (some 1), .static "/api/users".toList .post (some 2)]
    "/api/users".toList .get
    ⟨.static ⟨"/api/users".toList, some 1, .get⟩, List.mem_cons_self, by decide, by decide⟩ ⟨∅⟩
  exact resolved (by decide)

end Foxhttp.Router
