import Foxhttp.Router.Lookup

/-!
# The order of registration

Two histories of the same registrations, in any two orders, leave tables which
resolve alike when no two static routes share a path and no two dynamic routes
share a pattern. Specificity then orders the dynamic routes in one way, whatever
`std::sort` makes of equivalent elements.
-/

namespace Foxhttp.Router

open Foxhttp.Library

variable {H : Type}

/-- No two static routes have one path, and no two dynamic routes one pattern. -/
structure Distinct (routes : List (Route H)) : Prop where
  paths : ((routes.filterMap Route.static?).map StaticRoute.pattern).Nodup
  patterns : ((routes.filterMap Route.dynamic?).map DynamicRoute.pattern).Nodup

/-- When no two static routes have one path, the latest route of a path is the
route of that path. -/
theorem latestStatic_eq_some_iff {routes : List (Route H)}
    (paths : ((routes.filterMap Route.static?).map StaticRoute.pattern).Nodup)
    (key : Text) (route : StaticRoute H) :
    latestStatic routes key = some route ↔
      route ∈ routes.filterMap Route.static? ∧ route.pattern = key := by
  constructor
  · intro latest
    have isKey := List.find?_some latest
    exact ⟨List.mem_reverse.mp (List.mem_of_find?_eq_some latest), beq_iff_eq.mp isKey⟩
  · rintro ⟨member, isKey⟩
    cases latest : latestStatic routes key with
    | none =>
        have absent := List.find?_eq_none.mp latest route (List.mem_reverse.mpr member)
        exact absurd (beq_iff_eq.mpr isKey) absent
    | some other =>
        have otherMember := List.mem_reverse.mp (List.mem_of_find?_eq_some latest)
        have otherKey := List.find?_some latest
        have same := List.inj_on_of_nodup_map paths otherMember member
          ((beq_iff_eq.mp otherKey).trans isKey.symm)
        rw [same]

/-- The latest static routes do not depend on the order. -/
theorem latestStatic_of_perm {routes others : List (Route H)} (order : routes.Perm others)
    (distinct : Distinct routes) (key : Text) :
    latestStatic routes key = latestStatic others key := by
  have otherDistinct : Distinct others :=
    { paths := ((order.filterMap _).map _).nodup_iff.mp distinct.paths
      patterns := ((order.filterMap _).map _).nodup_iff.mp distinct.patterns }
  ext route
  rw [latestStatic_eq_some_iff distinct.paths, latestStatic_eq_some_iff otherDistinct.paths,
    (order.filterMap _).mem_iff]

/-- The comparator decides between any two different patterns. -/
theorem DynamicRoute.pattern_eq_of_incomparable {first second : DynamicRoute H}
    (notAfter : second.moreSpecific first = false) (notBefore : first.moreSpecific second = false) :
    first.pattern = second.pattern := by
  rw [← Bool.not_eq_true, moreSpecific_iff] at notAfter notBefore
  have antisymmetric : ¬ second.pattern < first.pattern → ¬ first.pattern < second.pattern →
      first.pattern = second.pattern :=
    fun notAfter notBefore =>
      List.le_antisymm (List.not_lt.mp notAfter) (List.not_lt.mp notBefore)
  grind

/-- Sorted lists of the same routes are one list. -/
theorem dynamicRoutes_of_perm {routes others : List (Route H)} {table otherTable : RouteTable H}
    (indexed : Indexed routes table) (otherIndexed : Indexed others otherTable)
    (order : routes.Perm others) (distinct : Distinct routes) :
    table.dynamicRoutes = otherTable.dynamicRoutes := by
  have rearranged : table.dynamicRoutes.Perm otherTable.dynamicRoutes :=
    indexed.dynamic.trans ((order.filterMap _).trans otherIndexed.dynamic.symm)
  refine rearranged.eq_of_pairwise ?_ indexed.sorted otherIndexed.sorted
  intro first second firstMember secondMember notAfter notBefore
  refine List.inj_on_of_nodup_map distinct.patterns ?_ ?_
    (DynamicRoute.pattern_eq_of_incomparable notAfter notBefore)
  · exact indexed.dynamic.mem_iff.mp firstMember
  · exact indexed.dynamic.mem_iff.mp (rearranged.mem_iff.mpr secondMember)

/-- Lookups do not depend on the order of registration: the same routes in any
other order, sorted by any other sort, resolve every request alike. -/
theorem resolveRouteWithMethod_of_perm
    (sorter otherSorter :
      Sorter (DynamicRoute.moreSpecific : DynamicRoute H → DynamicRoute H → Bool))
    {history reordered : List (Registration H)} (order : history.Perm reordered)
    (distinct : Distinct (registered history)) (path : Text) (method : Verb)
    (ctx : RequestContext) :
    (RouteTable.registerAll sorter history).resolveRouteWithMethod path method ctx =
      (RouteTable.registerAll otherSorter reordered).resolveRouteWithMethod path method ctx := by
  have indexed := indexed_registerAll sorter history
  have reindexed := indexed_registerAll otherSorter reordered
  have sameRoutes : (registered history).Perm (registered reordered) := order.filterMap _
  rw [RouteTable.resolveRouteWithMethod, RouteTable.resolveRouteWithMethod, indexed.static,
    reindexed.static, latestStatic_of_perm sameRoutes distinct,
    dynamicRoutes_of_perm indexed reindexed sameRoutes distinct]

/-- The normal form of the path of a static registration. -/
def Registration.path? : Registration H → Option Text
  | .static path _ _ => some (normalizePath path)
  | .dynamic _ _ _ => none

/-- The pattern of a dynamic registration. -/
def Registration.pattern? : Registration H → Option Text
  | .static _ _ _ => none
  | .dynamic pattern _ _ => some pattern

/-- What a call adds to the routes. -/
theorem registered_cons (call : Registration H) (history : List (Registration H)) :
    registered (call :: history) = call.route?.toList ++ registered history := by
  rw [registered, List.filterMap_cons]
  cases call.route? <;> rfl

/-- The paths of the static routes are those of the calls. -/
theorem paths_registered (history : List (Registration H)) :
    ((registered history).filterMap Route.static?).map StaticRoute.pattern =
      history.filterMap Registration.path? := by
  induction history with
  | nil => rfl
  | cons call history inductionHypothesis =>
      rw [registered_cons]
      cases call with
      | static path method handler => exact congrArg (normalizePath path :: ·) inductionHypothesis
      | dynamic pattern method handler =>
          rw [Registration.route?]
          cases parsePattern pattern with
          | error message => exact inductionHypothesis
          | ok found => exact inductionHypothesis

/-- The patterns of the dynamic routes are those of the calls which do not throw. -/
theorem patterns_registered (history : List (Registration H)) :
    (((registered history).filterMap Route.dynamic?).map DynamicRoute.pattern).Sublist
      (history.filterMap Registration.pattern?) := by
  induction history with
  | nil => exact .slnil
  | cons call history inductionHypothesis =>
      rw [registered_cons]
      cases call with
      | static path method handler => exact inductionHypothesis
      | dynamic pattern method handler =>
          rw [Registration.route?]
          cases parsePattern pattern with
          | error message => exact inductionHypothesis.cons _
          | ok found => exact inductionHypothesis.cons_cons _

/-- Calls with distinct paths and distinct patterns register distinct routes. -/
theorem distinct_registered {history : List (Registration H)}
    (paths : (history.filterMap Registration.path?).Nodup)
    (patterns : (history.filterMap Registration.pattern?).Nodup) :
    Distinct (registered history) where
  paths := paths_registered history ▸ paths
  patterns := (patterns_registered history).nodup patterns

/-- Two routes which match one path, in both orders. -/
theorem resolve_orders_agree :
    (RouteTable.registerAll DynamicRoute.insertionSorter
        [.dynamic "/users/\x7bid\x7d".toList .get (some 1),
          .dynamic "/users/\x7bid\x7d.txt".toList .get (some 2)]).resolveRouteWithMethod
        "/users/me.txt".toList .get ⟨∅⟩ =
      (RouteTable.registerAll DynamicRoute.insertionSorter
        [.dynamic "/users/\x7bid\x7d.txt".toList .get (some 2),
          .dynamic "/users/\x7bid\x7d".toList .get (some 1)]).resolveRouteWithMethod
        "/users/me.txt".toList .get ⟨∅⟩ :=
  resolveRouteWithMethod_of_perm _ _ (.swap _ _ _) (distinct_registered (by decide) (by decide))
    _ _ _

end Foxhttp.Router
