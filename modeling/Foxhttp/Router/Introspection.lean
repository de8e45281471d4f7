import Mathlib.Data.List.Dedup
import Foxhttp.Router.Order

/-!
# The list of all routes

`get_all_routes` returns every route registered since the table was cleared. A
static route which another one of its path has replaced is still on the list, but
no lookup finds it.
-/

namespace Foxhttp.Router

open Foxhttp.Library

variable {H : Type}

namespace RouteTable

/-- `get_all_routes`. -/
def getAllRoutes (table : RouteTable H) : List (Route H) :=
  table.allRoutes

/-- `static_route_count`. -/
def staticRouteCount (table : RouteTable H) : Nat :=
  table.staticRoutes.entries.length

/-- `dynamic_route_count`. -/
def dynamicRouteCount (table : RouteTable H) : Nat :=
  table.dynamicRoutes.length

/-- The routes which lookups use. -/
def routesInUse (table : RouteTable H) : List (Route H) :=
  (table.staticRoutes.entries.map fun entry => .static entry.2) ++
    table.dynamicRoutes.map .dynamic

/-- The list of all routes has the routes in use, each once. -/
structure Introspects (table : RouteTable H) : Prop where
  routes : table.getAllRoutes.Perm table.routesInUse
  count : table.getAllRoutes.length = table.staticRouteCount + table.dynamicRouteCount

theorem routesInUse_length (table : RouteTable H) :
    table.routesInUse.length = table.staticRouteCount + table.dynamicRouteCount := by
  rw [routesInUse, List.length_append, List.length_map, List.length_map]
  rfl

end RouteTable

/-! ## Histories with clear -/

/-- A call which changes a table. -/
inductive TableChange (H : Type) where
  | add (call : Registration H)
  | clear

/-- The registrations behind the last `clear`, one call later. -/
def afterChange (calls : List (Registration H)) : TableChange H → List (Registration H)
  | .add call => calls ++ [call]
  | .clear => []

/-- The registrations behind the last `clear`. -/
def sinceClear (changes : List (TableChange H)) : List (Registration H) :=
  changes.foldl afterChange []

section Sorting

variable (sorter : Sorter (DynamicRoute.moreSpecific : DynamicRoute H → DynamicRoute H → Bool))

/-- The table after a call. -/
def RouteTable.change (table : RouteTable H) : TableChange H → RouteTable H
  | .add call => table.register sorter call
  | .clear => table.clear

/-- The table after a sequence of calls. -/
def RouteTable.changeAll (changes : List (TableChange H)) : RouteTable H :=
  changes.foldl (RouteTable.change sorter) .empty

/-- Nothing is left of what precedes a `clear`. -/
theorem changeAll_eq (changes : List (TableChange H)) :
    RouteTable.changeAll sorter changes = RouteTable.registerAll sorter (sinceClear changes) := by
  induction changes using List.reverseRecOn with
  | nil => rfl
  | append_singleton changes change inductionHypothesis =>
      have calls : sinceClear (changes ++ [change]) = afterChange (sinceClear changes) change :=
        List.foldl_concat ..
      rw [RouteTable.changeAll, List.foldl_concat, ← RouteTable.changeAll, inductionHypothesis,
        calls]
      cases change with
      | add call => exact (registerAll_snoc sorter _ call).symm
      | clear => rfl

end Sorting

/-! ## What is registered and what is kept -/

/-- Routes are static or dynamic. -/
theorem perm_static_dynamic (routes : List (Route H)) :
    routes.Perm ((routes.filterMap Route.static?).map .static ++
      (routes.filterMap Route.dynamic?).map .dynamic) := by
  induction routes with
  | nil => exact .refl _
  | cons route routes inductionHypothesis =>
      cases route with
      | static route => exact inductionHypothesis.cons _
      | dynamic route => exact (inductionHypothesis.cons _).trans List.perm_middle.symm

section Indexed

variable {routes : List (Route H)} {table : RouteTable H} (indexed : Indexed routes table)

include indexed in
/-- The static map has the paths of the static routes, each once. -/
theorem Indexed.keys_perm :
    table.staticRoutes.keys.Perm
      ((routes.filterMap Route.static?).map StaticRoute.pattern).dedup := by
  refine (List.perm_ext_iff_of_nodup table.staticRoutes.keys_nodup (List.nodup_dedup _)).mpr ?_
  intro key
  rw [← AList.mem_keys, ← AList.lookup_isSome, indexed.static, List.mem_dedup, latestStatic,
    List.find?_isSome]
  simp

include indexed in
/-- Of distinct paths, every static route is kept. -/
theorem Indexed.static_perm
    (paths : ((routes.filterMap Route.static?).map StaticRoute.pattern).Nodup) :
    (table.staticRoutes.entries.map Sigma.snd).Perm (routes.filterMap Route.static?) := by
  have held (key : Text) (route : StaticRoute H) :
      ⟨key, route⟩ ∈ table.staticRoutes.entries ↔
        route ∈ routes.filterMap Route.static? ∧ route.pattern = key := by
    rw [← latestStatic_eq_some_iff paths, ← indexed.static]
    exact AList.mem_lookup_iff.symm
  have keys : (table.staticRoutes.entries.map Sigma.snd).map StaticRoute.pattern =
      table.staticRoutes.keys := by
    rw [List.map_map]
    exact List.map_congr_left fun entry member => ((held entry.1 entry.2).mp member).2
  have once : (table.staticRoutes.entries.map Sigma.snd).Nodup := by
    refine .of_map StaticRoute.pattern ?_
    rw [keys]
    exact table.staticRoutes.keys_nodup
  refine (List.perm_ext_iff_of_nodup once (.of_map StaticRoute.pattern paths)).mpr fun route => ?_
  rw [List.mem_map]
  constructor
  · rintro ⟨⟨key, route⟩, member, rfl⟩
    exact ((held key route).mp member).1
  · intro member
    exact ⟨⟨route.pattern, route⟩, (held _ _).mpr ⟨member, rfl⟩, rfl⟩

include indexed in
/-- The list of all routes has the routes in use exactly when no two static routes
have one path. -/
theorem Indexed.introspects_iff : table.Introspects ↔
    ((routes.filterMap Route.static?).map StaticRoute.pattern).Nodup := by
  have split := perm_static_dynamic routes
  constructor
  · rintro ⟨-, count⟩
    have all := split.length_eq
    have keys := indexed.keys_perm.length_eq
    have dynamics := indexed.dynamic.length_eq
    rw [RouteTable.getAllRoutes, indexed.all, all, List.length_append, List.length_map,
      List.length_map, RouteTable.dynamicRouteCount, dynamics] at count
    have same : ((routes.filterMap Route.static?).map StaticRoute.pattern).dedup.length =
        ((routes.filterMap Route.static?).map StaticRoute.pattern).length := by
      rw [← keys, List.length_map, AList.keys, List.keys, List.length_map]
      exact (Nat.add_right_cancel count).symm
    rw [← (List.dedup_sublist _).eq_of_length same]
    exact List.nodup_dedup _
  · intro paths
    have inUse : table.getAllRoutes.Perm table.routesInUse := by
      rw [RouteTable.getAllRoutes, indexed.all, RouteTable.routesInUse]
      refine split.trans (List.Perm.append ?_ (indexed.dynamic.symm.map _))
      have statics := (indexed.static_perm paths).symm.map Route.static
      rwa [List.map_map] at statics
    exact ⟨inUse, inUse.length_eq.trans table.routesInUse_length⟩

end Indexed

/-- **The list of all routes has the routes which lookups use**, after any calls,
exactly when no path was registered twice for a static route since the table was
cleared. -/
theorem changeAll_introspects_iff
    (sorter : Sorter (DynamicRoute.moreSpecific : DynamicRoute H → DynamicRoute H → Bool))
    (changes : List (TableChange H)) :
    (RouteTable.changeAll sorter changes).Introspects ↔
      ((sinceClear changes).filterMap Registration.path?).Nodup := by
  rw [changeAll_eq, (indexed_registerAll sorter _).introspects_iff, paths_registered]

/-- A route which is replaced stays on the list. -/
theorem replaced_route_listed : ¬ ∀ changes : List (TableChange Nat),
    (RouteTable.changeAll DynamicRoute.insertionSorter changes).Introspects := by
  intro always
  have count := (always [.add (.static "/items".toList .get (some 1)),
    .add (.static "/items/".toList .post (some 2))]).count
  exact absurd count (by decide)

end Foxhttp.Router
