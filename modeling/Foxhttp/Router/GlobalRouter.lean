import Foxhttp.Library.Heap
import Foxhttp.Router.Lookup

/-!
# Are the global router and `RouteTable::instance()` one store?

`Router::global_router()` constructs its router without a table, and a router
without a table makes one of its own. The singleton table is another object, and
what is registered in it or cleared from it is not seen by the router.
-/

namespace Foxhttp.Router

open Foxhttp.Library

variable {H : Type}

/-- The route tables of the program, and its static locals once they are
constructed: `inst` of `RouteTable::instance()` and the `table_` of `inst` of
`Router::global_router()`. -/
structure Statics (H : Type) where
  tables : Heap (RouteTable H) := {}
  tableInst : Option Address := none
  routerTable : Option Address := none

/-- A call which changes the routes. -/
inductive GlobalCall (H : Type) where
  | registerStaticHandler (path : Text) (handler : Option H)
  | registerDynamicHandler (pattern : Text) (handler : Option H)
  | instanceRegister (registration : Registration H)
  | instanceClear

namespace Statics

/-- `RouteTable::create_detached()`. -/
def createDetached (statics : Statics H) : Address × Statics H :=
  let (table, tables) := statics.tables.alloc .empty
  (table, { statics with tables })

/-- `RouteTable::instance()`. -/
def tableInstance (statics : Statics H) : Address × Statics H :=
  match statics.tableInst with
  | some inst => (inst, statics)
  | none =>
      let (inst, tables) := statics.tables.alloc .empty
      (inst, { statics with tables, tableInst := some inst })

/-- `Router::Router(table)`, and the `table_` it has. -/
def router (statics : Statics H) (table : Option Address) : Address × Statics H :=
  match table with
  | some table => (table, statics)
  | none => statics.createDetached

/-- `Router::global_router()`, and its `table_`. -/
def globalRouter (statics : Statics H) : Address × Statics H :=
  match statics.routerTable with
  | some table => (table, statics)
  | none =>
      let (table, statics) := statics.router none
      (table, { statics with routerTable := some table })

section Sorting

variable (sorter : Sorter (DynamicRoute.moreSpecific : DynamicRoute H → DynamicRoute H → Bool))

/-- A registration in the table at an address. -/
def register (statics : Statics H) (table : Address) (registration : Registration H) : Statics H :=
  { statics with
    tables := statics.tables.modify table fun routes => routes.register sorter registration }

/-- `Router::register_static_handler`. -/
def registerStaticHandler (statics : Statics H) (path : Text) (handler : Option H) : Statics H :=
  let (table, statics) := statics.globalRouter
  statics.register sorter table (.static path .unknown handler)

/-- `Router::register_dynamic_handler`. -/
def registerDynamicHandler (statics : Statics H) (pattern : Text) (handler : Option H) :
    Statics H :=
  let (table, statics) := statics.globalRouter
  statics.register sorter table (.dynamic pattern .unknown handler)

/-- `RouteTable::instance().clear()`. -/
def instanceClear (statics : Statics H) : Statics H :=
  let (table, statics) := statics.tableInstance
  { statics with tables := statics.tables.modify table RouteTable.clear }

/-- One call. -/
def perform (statics : Statics H) : GlobalCall H → Statics H
  | .registerStaticHandler path handler => statics.registerStaticHandler sorter path handler
  | .registerDynamicHandler pattern handler =>
      statics.registerDynamicHandler sorter pattern handler
  | .instanceRegister registration =>
      let (table, statics) := statics.tableInstance
      statics.register sorter table registration
  | .instanceClear => statics.instanceClear

/-- The program after a history of calls. -/
def after (history : List (GlobalCall H)) : Statics H :=
  history.foldl (perform sorter) {}

/-- `resolve_route` of the table at an address. -/
def resolveIn (statics : Statics H) (table : Address) (path : Text) (ctx : RequestContext) :
    Option H :=
  (statics.tables.get? table).bind fun routes => (routes.resolveRoute path ctx).1

/-- `Router::resolve_route`. -/
def resolveRoute (statics : Statics H) (path : Text) (ctx : RequestContext) : Option H :=
  let (table, statics) := statics.globalRouter
  statics.resolveIn table path ctx

/-- `RouteTable::instance().resolve_route`. -/
def instanceResolveRoute (statics : Statics H) (path : Text) (ctx : RequestContext) : Option H :=
  let (table, statics) := statics.tableInstance
  statics.resolveIn table path ctx

end Sorting

end Statics

section Sorting

variable (sorter : Sorter (DynamicRoute.moreSpecific : DynamicRoute H → DynamicRoute H → Bool))

/-- After a history, clearing the singleton table leaves the router nothing to
find, and the router finds what the singleton table does. -/
structure OneStore (history : List (GlobalCall H)) : Prop where
  cleared : ∀ path ctx,
    (Statics.after sorter (history ++ [.instanceClear])).resolveRoute path ctx = none
  found : ∀ path ctx handler,
    (Statics.after sorter history).instanceResolveRoute path ctx = some handler →
      (Statics.after sorter history).resolveRoute path ctx = some handler

/-- The registration which a call makes through the router. -/
def GlobalCall.ofRouter : GlobalCall H → Option (Registration H)
  | .registerStaticHandler path handler => some (.static path .unknown handler)
  | .registerDynamicHandler pattern handler => some (.dynamic pattern .unknown handler)
  | .instanceRegister _ | .instanceClear => none

/-- The registrations through the router. -/
def routerRegistrations (history : List (GlobalCall H)) : List (Registration H) :=
  history.filterMap GlobalCall.ofRouter

/-- What a call makes of the registrations in the singleton table. -/
def GlobalCall.onInstance (registrations : List (Registration H)) :
    GlobalCall H → List (Registration H)
  | .registerStaticHandler .. | .registerDynamicHandler .. => registrations
  | .instanceRegister registration => registrations ++ [registration]
  | .instanceClear => []

/-- The registrations through the singleton table since it was cleared last. -/
def instanceRegistrations (history : List (GlobalCall H)) : List (Registration H) :=
  history.foldl GlobalCall.onInstance []

/-- No path is governed by a route which answers every method and has a handler. -/
def Unanswered (registrations : List (Registration H)) : Prop :=
  ∀ path route, Governs sorter registrations (normalizePath path) route →
    route.matchesMethod .unknown = true → route.handler = none

/-! ## Two objects -/

/-- A static is not constructed yet, with no registrations, or refers to the
table of these. -/
def Holds (tables : Heap (RouteTable H)) (slot : Option Address)
    (registrations : List (Registration H)) : Prop :=
  (slot = none ∧ registrations = []) ∨
    ∃ table, slot = some table ∧
      tables.get? table = some (RouteTable.registerAll sorter registrations)

/-- Two statics hold their own registrations in different tables. -/
structure Apart (tables : Heap (RouteTable H)) (first second : Option Address)
    (mine theirs : List (Registration H)) : Prop where
  holdsFirst : Holds sorter tables first mine
  holdsSecond : Holds sorter tables second theirs
  different : ∀ table, first = some table → second ≠ some table

namespace Apart

variable {sorter} {tables : Heap (RouteTable H)} {first second : Option Address}
  {mine theirs changed : List (Registration H)}

theorem symm (apart : Apart sorter tables first second mine theirs) :
    Apart sorter tables second first theirs mine where
  holdsFirst := apart.holdsSecond
  holdsSecond := apart.holdsFirst
  different table isSecond isFirst := apart.different table isFirst isSecond

/-- A static is constructed with a table of its own. -/
theorem construct (apart : Apart sorter tables none second mine theirs) :
    Apart sorter (tables.alloc .empty).2 (some (tables.alloc RouteTable.empty).1) second mine
      theirs where
  holdsFirst := by
    rcases apart.holdsFirst with ⟨-, rfl⟩ | ⟨table, absurdity, -⟩
    · exact .inr ⟨_, rfl, Heap.get?_alloc_new⟩
    · cases absurdity
  holdsSecond := apart.holdsSecond.imp_right fun ⟨table, isSecond, found⟩ =>
    ⟨table, isSecond, Heap.get?_alloc_old found⟩
  different := by
    rintro table isFirst isSecond
    cases isFirst
    rcases apart.holdsSecond with ⟨absurdity, -⟩ | ⟨other, isOther, found⟩
    · rw [isSecond] at absurdity
      cases absurdity
    · rw [isSecond] at isOther
      cases isOther
      exact Heap.ne_alloc found rfl

/-- The table of a static changes. -/
theorem change {table : Address} {edit : RouteTable H → RouteTable H}
    (apart : Apart sorter tables (some table) second mine theirs)
    (edited : edit (RouteTable.registerAll sorter mine) = RouteTable.registerAll sorter changed) :
    Apart sorter (tables.modify table edit) (some table) second changed theirs where
  holdsFirst := by
    rcases apart.holdsFirst with ⟨absurdity, -⟩ | ⟨other, isOther, found⟩
    · cases absurdity
    · cases isOther
      exact .inr ⟨table, rfl, (Heap.get?_modify_same found).trans (congrArg some edited)⟩
  holdsSecond := apart.holdsSecond.imp_right fun ⟨other, isOther, found⟩ =>
    have distinct : table ≠ other := fun same => apart.different table rfl (same ▸ isOther)
    ⟨other, isOther, (Heap.get?_modify_other distinct).trans found⟩
  different := apart.different

theorem found {table : Address} (apart : Apart sorter tables (some table) second mine theirs) :
    tables.get? table = some (RouteTable.registerAll sorter mine) := by
  rcases apart.holdsFirst with ⟨absurdity, -⟩ | ⟨other, isOther, found⟩
  · cases absurdity
  · cases isOther
    exact found

end Apart

/-- The router has its registrations, and the singleton table has its own. -/
def Split (statics : Statics H) (mine theirs : List (Registration H)) : Prop :=
  Apart sorter statics.tables statics.routerTable statics.tableInst mine theirs

namespace Split

variable {sorter} {statics : Statics H} {mine theirs : List (Registration H)}

theorem globalRouter (split : Split sorter statics mine theirs) :
    Split sorter statics.globalRouter.2 mine theirs ∧
      statics.globalRouter.2.routerTable = some statics.globalRouter.1 := by
  rw [Statics.globalRouter]
  cases isTable : statics.routerTable with
  | some table => exact ⟨split, isTable⟩
  | none =>
      rw [Split, isTable] at split
      exact ⟨split.construct, rfl⟩

theorem tableInstance (split : Split sorter statics mine theirs) :
    Split sorter statics.tableInstance.2 mine theirs ∧
      statics.tableInstance.2.tableInst = some statics.tableInstance.1 := by
  rw [Statics.tableInstance]
  cases isInst : statics.tableInst with
  | some inst => exact ⟨split, isInst⟩
  | none =>
      rw [Split, isInst] at split
      exact ⟨split.symm.construct.symm, rfl⟩

/-- A change of the router's table leaves the singleton as it is. -/
theorem editRouter {table : Address} {edit : RouteTable H → RouteTable H}
    {changed : List (Registration H)} (split : Split sorter statics mine theirs)
    (isTable : statics.routerTable = some table)
    (edited : edit (RouteTable.registerAll sorter mine) = RouteTable.registerAll sorter changed) :
    Split sorter { statics with tables := statics.tables.modify table edit } changed theirs := by
  rw [Split, isTable] at split
  have after := split.change edited
  rwa [← isTable] at after

/-- A change of the singleton leaves the router's table as it is. -/
theorem editInstance {table : Address} {edit : RouteTable H → RouteTable H}
    {changed : List (Registration H)} (split : Split sorter statics mine theirs)
    (isInst : statics.tableInst = some table)
    (edited : edit (RouteTable.registerAll sorter theirs) = RouteTable.registerAll sorter changed) :
    Split sorter { statics with tables := statics.tables.modify table edit } mine changed := by
  rw [Split, isInst] at split
  have after := (split.symm.change edited).symm
  rwa [← isInst] at after

theorem perform (split : Split sorter statics mine theirs) (call : GlobalCall H) :
    Split sorter (statics.perform sorter call) (mine ++ call.ofRouter.toList)
      (call.onInstance theirs) := by
  obtain ⟨withRouter, isTable⟩ := split.globalRouter
  obtain ⟨withInstance, isInst⟩ := split.tableInstance
  cases call with
  | registerStaticHandler path handler =>
      exact withRouter.editRouter isTable (registerAll_snoc sorter mine _).symm
  | registerDynamicHandler pattern handler =>
      exact withRouter.editRouter isTable (registerAll_snoc sorter mine _).symm
  | instanceRegister registration =>
      rw [GlobalCall.ofRouter, Option.toList_none, List.append_nil]
      exact withInstance.editInstance isInst (registerAll_snoc sorter theirs _).symm
  | instanceClear =>
      rw [GlobalCall.ofRouter, Option.toList_none, List.append_nil]
      exact withInstance.editInstance isInst rfl

/-- After a history, the router has what was registered through it, and the
singleton table what was registered in it. -/
theorem after (history : List (GlobalCall H)) :
    Split sorter (Statics.after sorter history) (routerRegistrations history)
      (instanceRegistrations history) := by
  induction history using List.reverseRecOn with
  | nil => exact ⟨.inl ⟨rfl, rfl⟩, .inl ⟨rfl, rfl⟩, nofun⟩
  | append_singleton history call inductionHypothesis =>
      have performed : Statics.after sorter (history ++ [call]) =
          (Statics.after sorter history).perform sorter call := List.foldl_concat ..
      have listed : routerRegistrations (history ++ [call]) =
          routerRegistrations history ++ call.ofRouter.toList := by
        rw [routerRegistrations, List.filterMap_append]
        cases call <;> rfl
      have left : instanceRegistrations (history ++ [call]) =
          call.onInstance (instanceRegistrations history) := List.foldl_concat ..
      rw [performed, listed, left]
      exact inductionHypothesis.perform call

theorem resolveRoute (split : Split sorter statics mine theirs) (path : Text)
    (ctx : RequestContext) : statics.resolveRoute path ctx =
      ((RouteTable.registerAll sorter mine).resolveRoute path ctx).1 := by
  obtain ⟨withRouter, isTable⟩ := split.globalRouter
  rw [Split, isTable] at withRouter
  show (statics.globalRouter.2.tables.get? statics.globalRouter.1).bind _ = _
  rw [withRouter.found]
  rfl

theorem instanceResolveRoute (split : Split sorter statics mine theirs) (path : Text)
    (ctx : RequestContext) : statics.instanceResolveRoute path ctx =
      ((RouteTable.registerAll sorter theirs).resolveRoute path ctx).1 := by
  obtain ⟨withInstance, isInst⟩ := split.tableInstance
  rw [Split, isInst] at withInstance
  show (statics.tableInstance.2.tables.get? statics.tableInstance.1).bind _ = _
  rw [withInstance.symm.found]
  rfl

end Split

/-! ## What a table answers -/

/-- A path is governed by a route, or its lookup finds nothing. -/
theorem governs_or_none (registrations : List (Registration H)) (path : Text) :
    (∃ route, Governs sorter registrations (normalizePath path) route) ∨
      ∀ ctx, ((RouteTable.registerAll sorter registrations).resolveRoute path ctx).1 = none := by
  by_cases governed : ∃ route, Governs sorter registrations (normalizePath path) route
  · exact .inl governed
  · refine .inr fun ctx => ?_
    have unmatched {route : Route H} (isRegistered : route ∈ registered registrations) :
        route.matchesPath (normalizePath path) = false := by
      by_contra found
      exact governed (governs_of_match sorter isRegistered (by simpa using found))
    have indexed := indexed_registerAll sorter registrations
    have noStatic : latestStatic (registered registrations) (normalizePath path) = none := by
      by_contra some
      obtain ⟨route, latest⟩ := Option.ne_none_iff_exists'.mp some
      exact governed ⟨_, .static latest⟩
    have noDynamic : ∀ route ∈ (RouteTable.registerAll sorter registrations).dynamicRoutes,
        (Route.dynamic route).matchesPath (normalizePath path) = false := by
      intro route member
      obtain ⟨found, isFound, isRoute⟩ :=
        List.mem_filterMap.mp (indexed.dynamic.mem_iff.mp member)
      cases found with
      | static other => cases isRoute
      | dynamic other =>
          cases isRoute
          exact unmatched isFound
    have scanned := scanDynamicRoutes_append noDynamic .unknown ctx []
    rw [List.append_nil] at scanned
    simp only [RouteTable.resolveRoute, RouteTable.resolveRouteWithMethod, indexed.static,
      noStatic, scanned, RouteTable.scanDynamicRoutes]

/-- A table answers no path exactly when no path is governed by a route with a
handler. -/
theorem unanswered_iff (registrations : List (Registration H)) :
    (∀ path ctx, ((RouteTable.registerAll sorter registrations).resolveRoute path ctx).1 = none) ↔
      Unanswered sorter registrations := by
  constructor
  · intro nothing path route governs answers
    have found := handler_of_governs sorter governs .unknown ⟨∅⟩
    rw [if_pos answers] at found
    exact found.symm.trans (nothing path ⟨∅⟩)
  · intro unanswered path ctx
    rcases governs_or_none sorter registrations path with ⟨route, governs⟩ | none
    · refine (handler_of_governs sorter governs .unknown ctx).trans ?_
      split
      · rename_i answers
        exact unanswered path route governs answers
      · rfl
    · exact none ctx

/-- **The global router and `RouteTable::instance()` are one store** after a
history exactly when neither the registrations through the router nor those left
in the singleton table answer any path. -/
theorem oneStore_iff (history : List (GlobalCall H)) :
    OneStore sorter history ↔
      Unanswered sorter (routerRegistrations history) ∧
        Unanswered sorter (instanceRegistrations history) := by
  have before := @Split.after _ sorter history
  have cleared := @Split.after _ sorter (history ++ [.instanceClear])
  have sameRouter : routerRegistrations (history ++ [.instanceClear]) =
      routerRegistrations history := by
    simp [routerRegistrations, GlobalCall.ofRouter]
  rw [sameRouter] at cleared
  rw [← unanswered_iff, ← unanswered_iff]
  constructor
  · intro store
    have nothing : ∀ path ctx, ((RouteTable.registerAll sorter
        (routerRegistrations history)).resolveRoute path ctx).1 = none := by
      intro path ctx
      rw [← cleared.resolveRoute]
      exact store.cleared path ctx
    refine ⟨nothing, fun path ctx => ?_⟩
    rw [← before.instanceResolveRoute]
    by_contra some
    obtain ⟨handler, isHandler⟩ := Option.ne_none_iff_exists'.mp some
    have found := store.found path ctx handler isHandler
    rw [before.resolveRoute, nothing] at found
    cases found
  · rintro ⟨nothing, nothingThere⟩
    refine ⟨fun path ctx => ?_, fun path ctx handler isHandler => ?_⟩
    · rw [cleared.resolveRoute]
      exact nothing path ctx
    · rw [before.instanceResolveRoute, nothingThere] at isHandler
      cases isHandler

end Sorting

/-- A route registered through the router outlives the singleton's `clear`. -/
theorem route_outlives_clear :
    ¬ ∀ history : List (GlobalCall Nat), OneStore DynamicRoute.insertionSorter history := by
  intro oneStore
  have cleared := (oneStore [.registerStaticHandler "/ping".toList (some 1)]).cleared
    "/ping".toList ⟨∅⟩
  revert cleared
  decide

end Foxhttp.Router
