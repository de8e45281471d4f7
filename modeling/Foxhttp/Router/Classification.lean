import Foxhttp.Router.Lookup

/-!
# Hits, wrong methods and misses

A lookup answers with a handler, with the methods the path allows, or with
neither. `Classified` says what the three answers mean. The one route which
governs the path decides, and the answers mean what they say unless that route
was registered with a null handler. A lookup without a method asks for the method
which a route for any method is registered with, and only such routes answer it.
-/

namespace Foxhttp.Router

open Foxhttp.Library

variable {H : Type}

/-! ## Tables and their routes -/

namespace RouteTable

section Sorting

variable (sorter : Sorter (DynamicRoute.moreSpecific : DynamicRoute H → DynamicRoute H → Bool))

/-- The tables which calls on a new table lead to. A call which throws leaves
the table as it is. -/
inductive Reachable : RouteTable H → Prop where
  | empty : Reachable .empty
  | addStaticRoute {table} (reachable : Reachable table) (path : Text) (method : Verb)
      (handler : Option H) : Reachable (table.addStaticRoute path method handler)
  | addDynamicRoute {table next} (reachable : Reachable table) {pattern : Text} {method : Verb}
      {handler : Option H} (accepted : table.addDynamicRoute sorter pattern method handler =
        .ok next) : Reachable next
  | clear {table} (reachable : Reachable table) : Reachable table.clear

end Sorting

/-- The routes a lookup can find. -/
def Stored (table : RouteTable H) : Route H → Prop
  | .static route => ∃ key, table.staticRoutes.lookup key = some route
  | .dynamic route => route ∈ table.dynamicRoutes

/-- The route which decides about a normalised path. -/
def governing (table : RouteTable H) (key : Text) : Option (Route H) :=
  match table.staticRoutes.lookup key with
  | some route => some (.static route)
  | none =>
      (table.dynamicRoutes.find? fun route => (Route.dynamic route).matchesPath key).map .dynamic

end RouteTable

namespace Route

/-- The method of the route. -/
def method : Route H → Verb
  | .static route => route.method
  | .dynamic route => route.method

/-- The context of a request for the path which the route takes. -/
def bindParams (key : Text) (ctx : RequestContext) : Route H → RequestContext
  | .static _ => ctx
  | .dynamic route =>
      match route.regexPattern.fullMatch key with
      | some groups => route.extractPathParams groups ctx
      | none => ctx

theorem matchesMethod_method (route : Route H) : route.matchesMethod route.method = true := by
  cases route with
  | static route => exact Bool.or_eq_true_iff.mpr (.inr (beq_self_eq_true _))
  | dynamic route => exact Bool.or_eq_true_iff.mpr (.inr (beq_self_eq_true _))

theorem method_ne_unknown {route : Route H} {method : Verb}
    (refuses : route.matchesMethod method = false) : route.method ≠ .unknown := by
  cases route with
  | static route => exact fun any => by simp [matchesMethod, StaticRoute.matchesMethod,
      show route.method = .unknown from any] at refuses
  | dynamic route => exact fun any => by simp [matchesMethod, DynamicRoute.matchesMethod,
      show route.method = .unknown from any] at refuses

end Route

namespace RouteTable

/-! ## The answer of the governing route -/

/-- What a lookup answers when the route governs the path, or none does. -/
def answer (key : Text) (method : Verb) (ctx : RequestContext) : Option (Route H) → Resolved H
  | some route =>
      if route.matchesMethod method then ⟨route.handler, [], route.bindParams key ctx⟩
      else ⟨none, [route.method], ctx⟩
  | none => ⟨none, [], ctx⟩

theorem scanDynamicRoutes_eq (key : Text) (method : Verb) (ctx : RequestContext)
    (routes : List (DynamicRoute H)) :
    scanDynamicRoutes key method ctx routes =
      answer key method ctx
        ((routes.find? fun route => (Route.dynamic route).matchesPath key).map .dynamic) := by
  induction routes with
  | nil => rfl
  | cons route routes inductionHypothesis =>
      rw [scanDynamicRoutes, List.find?_cons]
      cases found : route.regexPattern.fullMatch key with
      | none =>
          have passed : (Route.dynamic route).matchesPath key = false := by
            simp [Route.matchesPath, found]
          rw [passed]
          exact inductionHypothesis
      | some groups =>
          have taken : (Route.dynamic route).matchesPath key = true := by
            simp [Route.matchesPath, found]
          simp only [taken, Option.map_some, answer, Route.bindParams, found]
          cases accepts : route.matchesMethod method with
          | true => simp [Route.matchesMethod, accepts, Route.handler]
          | false =>
              have named : (Route.dynamic route).method ≠ .unknown :=
                @Route.method_ne_unknown H (.dynamic route) method accepts
              simp [Route.matchesMethod, accepts, Route.method, show route.method ≠ _ from named]

/-- A lookup gives the answer of the route which governs the path. -/
theorem resolveRouteWithMethod_eq (table : RouteTable H) (path : Text) (method : Verb)
    (ctx : RequestContext) :
    table.resolveRouteWithMethod path method ctx =
      answer (normalizePath path) method ctx (table.governing (normalizePath path)) := by
  rw [resolveRouteWithMethod, governing]
  cases found : table.staticRoutes.lookup (normalizePath path) with
  | none => exact scanDynamicRoutes_eq _ method ctx table.dynamicRoutes
  | some route =>
      simp only [answer]
      cases accepts : route.matchesMethod method with
      | true => simp [Route.matchesMethod, accepts, Route.handler, Route.bindParams]
      | false =>
          have named : (Route.static route).method ≠ .unknown :=
            @Route.method_ne_unknown H (.static route) method accepts
          simp [Route.matchesMethod, accepts, Route.method, show route.method ≠ _ from named]

/-! ## Static routes stand under their paths -/

/-- Every static route is stored under its own path. -/
def Keyed (table : RouteTable H) : Prop :=
  ∀ key route, table.staticRoutes.lookup key = some route → route.pattern = key

theorem keyed_of_reachable
    {sorter : Sorter (DynamicRoute.moreSpecific : DynamicRoute H → DynamicRoute H → Bool)}
    {table : RouteTable H} (reachable : Reachable sorter table) : table.Keyed := by
  induction reachable with
  | empty =>
      intro key route found
      cases found
  | addStaticRoute reachable path method handler inductionHypothesis =>
      intro key route found
      by_cases isKey : key = normalizePath path
      · subst isKey
        rw [addStaticRoute, AList.lookup_insert] at found
        exact congrArg StaticRoute.pattern (Option.some.inj found).symm
      · rw [addStaticRoute, AList.lookup_insert_ne isKey] at found
        exact inductionHypothesis key route found
  | addDynamicRoute reachable accepted inductionHypothesis =>
      rw [addDynamicRoute] at accepted
      split at accepted
      · cases accepted
        exact inductionHypothesis
      · cases accepted
  | clear reachable inductionHypothesis =>
      intro key route found
      cases found

/-- The governing route is stored and matches the path. -/
theorem stored_of_governing {table : RouteTable H} (keyed : table.Keyed) {key : Text}
    {route : Route H} (governs : table.governing key = some route) :
    table.Stored route ∧ route.matchesPath key = true := by
  rw [governing] at governs
  split at governs
  · rename_i found
    cases governs
    exact ⟨⟨key, found⟩, beq_iff_eq.mpr (keyed key _ found)⟩
  · obtain ⟨dynamic, found, rfl⟩ := Option.map_eq_some_iff.mp governs
    have isMatch := List.find?_some found
    exact ⟨List.mem_of_find?_eq_some found, isMatch⟩

/-- No route governs a path which no stored route matches, and the other way
round. -/
theorem governing_eq_none_iff {table : RouteTable H} (keyed : table.Keyed) (key : Text) :
    table.governing key = none ↔ ∀ route, table.Stored route → route.matchesPath key = false := by
  constructor
  · intro ungoverned route stored
    rw [governing] at ungoverned
    split at ungoverned
    · cases ungoverned
    · rename_i noStatic
      cases route with
      | static route =>
          obtain ⟨held, found⟩ := stored
          refine beq_eq_false_iff_ne.mpr fun isKey => ?_
          rw [← isKey, keyed held route found, found] at noStatic
          cases noStatic
      | dynamic route =>
          have passed := List.find?_eq_none.mp (Option.map_eq_none_iff.mp ungoverned) route stored
          simpa using passed
  · intro unmatched
    cases governs : table.governing key with
    | none => rfl
    | some route =>
        obtain ⟨stored, found⟩ := stored_of_governing keyed governs
        rw [unmatched route stored] at found
        cases found

/-! ## What the answers mean -/

/-- A handler comes from a stored route which matches the path and accepts the
method. -/
def HitSound (table : RouteTable H) (path : Text) (method : Verb) (ctx : RequestContext) : Prop :=
  ∀ handler, (table.resolveRouteWithMethod path method ctx).handler = some handler →
    ∃ route, table.Stored route ∧ route.matchesPath (normalizePath path) = true ∧
      route.matchesMethod method = true ∧ route.handler = some handler

/-- The three answers of a lookup mean what they say. -/
structure Classified (table : RouteTable H) (path : Text) (method : Verb) (ctx : RequestContext) :
    Prop where
  hit : table.HitSound path method ctx
  /-- Neither a handler nor methods: no stored route matches the path. -/
  miss : ((table.resolveRouteWithMethod path method ctx).handler = none ∧
      (table.resolveRouteWithMethod path method ctx).allowedMethods = []) ↔
    ∀ route, table.Stored route → route.matchesPath (normalizePath path) = false
  /-- The allowed methods are methods the path is served for. -/
  allowed : (table.resolveRouteWithMethod path method ctx).handler = none →
    ∀ other ∈ (table.resolveRouteWithMethod path method ctx).allowedMethods,
      ∀ otherCtx, (table.resolveRouteWithMethod path other otherCtx).handler ≠ none
  unchanged : (table.resolveRouteWithMethod path method ctx).handler = none →
    (table.resolveRouteWithMethod path method ctx).ctx = ctx

theorem hitSound {table : RouteTable H} (keyed : table.Keyed) (path : Text) (method : Verb)
    (ctx : RequestContext) : table.HitSound path method ctx := by
  intro handler found
  rw [resolveRouteWithMethod_eq] at found
  cases governs : table.governing (normalizePath path) with
  | none =>
      rw [governs] at found
      cases found
  | some route =>
      obtain ⟨stored, isMatch⟩ := stored_of_governing keyed governs
      rw [governs, answer] at found
      split at found
      · rename_i accepts
        exact ⟨route, stored, isMatch, accepts, found⟩
      · cases found

/-- A path which nothing matches is a miss. -/
theorem classified_of_ungoverned {table : RouteTable H} (keyed : table.Keyed) {path : Text}
    (ungoverned : table.governing (normalizePath path) = none) (method : Verb)
    (ctx : RequestContext) : table.Classified path method ctx := by
  have unmatched := (governing_eq_none_iff keyed _).mp ungoverned
  have resolved : table.resolveRouteWithMethod path method ctx = ⟨none, [], ctx⟩ := by
    rw [resolveRouteWithMethod_eq, ungoverned, answer]
  refine ⟨hitSound keyed path method ctx, ?_, ?_, ?_⟩
  · rw [resolved]
    exact ⟨fun _ => unmatched, fun _ => ⟨rfl, rfl⟩⟩
  · rw [resolved]
    exact fun _ other isOther => absurd isOther List.not_mem_nil
  · rw [resolved]
    exact fun _ => rfl

/-- A path whose governing route has a handler is a hit or wants another method. -/
theorem classified_of_governing {table : RouteTable H} (keyed : table.Keyed) {path : Text}
    {route : Route H} (governs : table.governing (normalizePath path) = some route)
    (hasHandler : route.handler ≠ none) (method : Verb) (ctx : RequestContext) :
    table.Classified path method ctx := by
  obtain ⟨stored, isMatch⟩ := stored_of_governing keyed governs
  have matched : ¬ ∀ other, table.Stored other → other.matchesPath (normalizePath path) = false :=
    fun unmatched => by simp [unmatched route stored] at isMatch
  cases accepts : route.matchesMethod method with
  | true =>
      have resolved : table.resolveRouteWithMethod path method ctx =
          ⟨route.handler, [], route.bindParams (normalizePath path) ctx⟩ := by
        rw [resolveRouteWithMethod_eq, governs, answer, if_pos accepts]
      refine ⟨hitSound keyed path method ctx, ?_, ?_, ?_⟩
      · rw [resolved]
        exact ⟨fun missed => absurd missed.1 hasHandler, fun unmatched => absurd unmatched matched⟩
      · rw [resolved]
        exact fun missed => absurd missed hasHandler
      · rw [resolved]
        exact fun missed => absurd missed hasHandler
  | false =>
      have resolved : table.resolveRouteWithMethod path method ctx =
          ⟨none, [route.method], ctx⟩ := by
        rw [resolveRouteWithMethod_eq, governs, answer, accepts, if_neg Bool.false_ne_true]
      refine ⟨hitSound keyed path method ctx, ?_, ?_, ?_⟩
      · rw [resolved]
        exact ⟨fun missed => absurd missed.2 (List.cons_ne_nil _ _),
          fun unmatched => absurd unmatched matched⟩
      · rw [resolved]
        intro _ other isOther otherCtx
        obtain rfl := List.mem_singleton.mp isOther
        rw [resolveRouteWithMethod_eq, governs, answer, if_pos route.matchesMethod_method]
        exact hasHandler
      · rw [resolved]
        exact fun _ => rfl

/-- A null handler in the governing route makes one of the answers wrong. -/
theorem not_classified_of_null {table : RouteTable H} (keyed : table.Keyed) {path : Text}
    {route : Route H} (governs : table.governing (normalizePath path) = some route)
    (noHandler : route.handler = none) (method : Verb) (ctx : RequestContext) :
    ¬ table.Classified path method ctx := by
  rintro ⟨-, miss, allowed, -⟩
  simp only [resolveRouteWithMethod_eq, governs, answer] at miss allowed
  cases accepts : route.matchesMethod method with
  | true =>
      -- the lookup answers as if nothing matched
      obtain ⟨stored, isMatch⟩ := stored_of_governing keyed governs
      rw [accepts, if_pos rfl] at miss
      have unmatched := miss.mp ⟨noHandler, rfl⟩ route stored
      rw [isMatch] at unmatched
      cases unmatched
  | false =>
      rw [accepts, if_neg Bool.false_ne_true] at allowed
      have served := allowed rfl route.method List.mem_cons_self ctx
      rw [route.matchesMethod_method, if_pos rfl] at served
      exact served noHandler

/-- In every table, a handler comes from a stored route which matches and
accepts, and the answers mean what they say exactly when the governing route,
if there is one, has a handler. -/
theorem classified_iff
    {sorter : Sorter (DynamicRoute.moreSpecific : DynamicRoute H → DynamicRoute H → Bool)}
    {table : RouteTable H} (reachable : Reachable sorter table) (path : Text) (method : Verb)
    (ctx : RequestContext) :
    table.HitSound path method ctx ∧
      (table.Classified path method ctx ↔
        ∀ route, table.governing (normalizePath path) = some route → route.handler ≠ none) := by
  have keyed := keyed_of_reachable reachable
  refine ⟨hitSound keyed path method ctx, ?_, ?_⟩
  · intro classified route governs noHandler
    exact not_classified_of_null keyed governs noHandler method ctx classified
  · intro handlers
    cases governs : table.governing (normalizePath path) with
    | none => exact classified_of_ungoverned keyed governs method ctx
    | some route => exact classified_of_governing keyed governs (handlers route governs) method ctx

/-- A path served for another method. -/
theorem classified_post :
    (empty.addStaticRoute "/items".toList .get (some 1)).HitSound "/items/".toList .post ⟨∅⟩ ∧
      ((empty.addStaticRoute "/items".toList .get (some 1)).Classified "/items/".toList .post ⟨∅⟩ ↔
        ∀ route, (empty.addStaticRoute "/items".toList .get (some 1)).governing
          (normalizePath "/items/".toList) = some route → route.handler ≠ none) :=
  classified_iff (.addStaticRoute (.empty : Reachable DynamicRoute.insertionSorter empty) _ _ _)
    _ _ _

/-- A route registered with a null handler answers as if it were not there. -/
theorem null_handler_not_classified :
    ¬ ∀ (table : RouteTable Nat), Reachable DynamicRoute.insertionSorter table →
      ∀ path method ctx, table.Classified path method ctx := by
  intro classified
  have miss := (classified _ (.addStaticRoute .empty "/items".toList .unknown none) "/items".toList
    .get ⟨∅⟩).miss
  have unmatched := miss.mp ⟨by decide, by decide⟩ (.static ⟨"/items".toList, none, .unknown⟩)
    ⟨"/items".toList, rfl⟩
  exact absurd unmatched (by decide)

/-! ## Lookups without a method -/

/-- A path which a stored route matches has a handler, whatever the methods of the
routes. -/
def ResolvesAnyMethod (table : RouteTable H) (path : Text) : Prop :=
  (∃ route, table.Stored route ∧ route.matchesPath (normalizePath path) = true) →
    ∀ ctx, (table.resolveRoute path ctx).1 ≠ none

/-- A route takes a request without a method when it is registered for any. -/
theorem matchesMethod_unknown_iff (route : Route H) :
    route.matchesMethod .unknown = true ↔ route.method = .unknown := by
  cases route with
  | static route =>
      simp [Route.matchesMethod, StaticRoute.matchesMethod, Route.method]
  | dynamic route =>
      simp [Route.matchesMethod, DynamicRoute.matchesMethod, Route.method]

theorem resolveRoute_of_governing {table : RouteTable H} {path : Text} {route : Route H}
    (governs : table.governing (normalizePath path) = some route) (ctx : RequestContext) :
    (table.resolveRoute path ctx).1 ≠ none ↔ route.method = .unknown ∧ route.handler ≠ none := by
  rw [resolveRoute, resolveRouteWithMethod_eq, governs, answer, ← matchesMethod_unknown_iff]
  cases accepts : route.matchesMethod .unknown with
  | true => simp
  | false => simp

/-- **A lookup without a method ignores methods** exactly when the route which
governs the path, if there is one, is registered for any method and has a handler. -/
theorem resolvesAnyMethod_iff
    {sorter : Sorter (DynamicRoute.moreSpecific : DynamicRoute H → DynamicRoute H → Bool)}
    {table : RouteTable H} (reachable : Reachable sorter table) (path : Text) :
    table.ResolvesAnyMethod path ↔
      ∀ route, table.governing (normalizePath path) = some route →
        route.method = .unknown ∧ route.handler ≠ none := by
  have keyed := keyed_of_reachable reachable
  constructor
  · intro resolves route governs
    exact (resolveRoute_of_governing governs ⟨∅⟩).mp
      (resolves ⟨route, stored_of_governing keyed governs⟩ ⟨∅⟩)
  · rintro governed ⟨route, stored, isMatch⟩ ctx
    cases governs : table.governing (normalizePath path) with
    | none =>
        rw [(governing_eq_none_iff keyed _).mp governs route stored] at isMatch
        cases isMatch
    | some governing =>
        exact (resolveRoute_of_governing governs ctx).mpr (governed governing governs)

/-- A route for any method. -/
theorem resolvesAnyMethod_items :
    (empty.addStaticRoute "/items".toList .unknown (some 1)).ResolvesAnyMethod
        "/items/".toList ↔
      ∀ route, (empty.addStaticRoute "/items".toList .unknown (some 1)).governing
        (normalizePath "/items/".toList) = some route →
          route.method = .unknown ∧ route.handler ≠ none :=
  resolvesAnyMethod_iff
    (.addStaticRoute (.empty : Reachable DynamicRoute.insertionSorter empty) _ _ _) _

/-- A route which is registered for `GET` alone is not found. -/
theorem get_route_not_resolved :
    ¬ ∀ (table : RouteTable Nat), Reachable DynamicRoute.insertionSorter table →
      ∀ path, table.ResolvesAnyMethod path := by
  intro resolves
  refine resolves _ (.addStaticRoute .empty "/items".toList .get (some 1)) "/items".toList
    ⟨.static ⟨"/items".toList, some 1, .get⟩, ⟨"/items".toList, rfl⟩, by decide⟩ ⟨∅⟩ ?_
  decide

end RouteTable

end Foxhttp.Router
