import Foxhttp.Library.Directory
import Foxhttp.Router.Lookup

/-!
# The named route tables

`RouteTable::instance(name)` makes the table of a name when it is asked for first, and
`remove_instance(name)` drops it. Each name has a table of its own: what a name resolves
depends on the calls of that name alone, since it was removed last.
-/

namespace Foxhttp.Router

open Foxhttp.Library

variable {H : Type}

/-- `named_instances`. -/
abbrev NamedInstances (H : Type) := Directory Text (RouteTable H)

/-- A call by name; a table is always reached through `instance(name)`. -/
inductive NamedCall (H : Type) where
  | tableOf (name : Text)
  | register (name : Text) (registration : Registration H)
  | clear (name : Text)
  | removeInstance (name : Text)

/-- The name of a call. -/
def NamedCall.name : NamedCall H → Text
  | .tableOf name | .register name _ | .clear name | .removeInstance name => name

namespace NamedInstances

/-- `RouteTable::instance(name)`. -/
def tableOf (instances : NamedInstances H) (name : Text) : NamedInstances H :=
  instances.obtain name .empty

/-- `RouteTable::remove_instance`. -/
def removeInstance (instances : NamedInstances H) (name : Text) : Bool × NamedInstances H :=
  (decide (name ∈ instances.names), instances.erase name)

/-- `RouteTable::get_instance_names`, in any order. -/
def getInstanceNames (instances : NamedInstances H) : List Text :=
  instances.names.keys

/-- `RouteTable::instance(name).resolve_route_with_method`. -/
def resolve (instances : NamedInstances H) (name path : Text) (method : Verb)
    (ctx : RequestContext) : Option (RouteTable.Resolved H) :=
  ((instances.tableOf name).object name).map fun table =>
    table.resolveRouteWithMethod path method ctx

section Sorting

variable (sorter : Sorter (DynamicRoute.moreSpecific : DynamicRoute H → DynamicRoute H → Bool))

/-- One call. -/
def perform (instances : NamedInstances H) : NamedCall H → NamedInstances H
  | .tableOf name => instances.tableOf name
  | .register name registration =>
      (instances.tableOf name).edit name fun table => table.register sorter registration
  | .clear name => (instances.tableOf name).edit name RouteTable.clear
  | .removeInstance name => (instances.removeInstance name).2

/-- The tables after a history of calls. -/
def afterCalls (history : List (NamedCall H)) : NamedInstances H :=
  history.foldl (perform sorter) .empty

end Sorting

end NamedInstances

/-! ## What a name stands for -/

/-- What a call makes of the registrations of a name, nothing when it is not in use. -/
def NamedCall.onName (name : Text) (registrations : Option (List (Registration H)))
    (call : NamedCall H) : Option (List (Registration H)) :=
  if call.name = name then
    match call with
    | .tableOf _ => some (registrations.getD [])
    | .register _ registration => some (registrations.getD [] ++ [registration])
    | .clear _ => some []
    | .removeInstance _ => none
  else registrations

/-- The registrations of a name since it was removed last and cleared last. -/
def registrationsOf (name : Text) (history : List (NamedCall H)) :
    Option (List (Registration H)) :=
  history.foldl (NamedCall.onName name) none

/-- Calls of other names do not matter. -/
theorem registrationsOf_filter (name : Text) (history : List (NamedCall H)) :
    registrationsOf name (history.filter fun call => decide (call.name = name)) =
      registrationsOf name history := by
  induction history using List.reverseRecOn with
  | nil => rfl
  | append_singleton history call inductionHypothesis =>
      rw [registrationsOf, registrationsOf, List.filter_append, List.foldl_append,
        List.foldl_concat]
      rw [registrationsOf, registrationsOf] at inductionHypothesis
      rw [inductionHypothesis]
      by_cases isName : call.name = name
      · simp [isName]
      · simp [isName, NamedCall.onName]

section Sorting

variable {sorter : Sorter (DynamicRoute.moreSpecific : DynamicRoute H → DynamicRoute H → Bool)}

theorem object_tableOf (instances : NamedInstances H) (name other : Text) :
    (instances.tableOf name).object other =
      if other = name then some ((instances.object name).getD .empty)
      else instances.object other :=
  instances.object_obtain name other .empty

/-- A call changes the table of its name as it changes the registrations. -/
theorem object_perform {instances : NamedInstances H} {name : Text}
    {registrations : Option (List (Registration H))}
    (table : instances.object name = registrations.map (RouteTable.registerAll sorter))
    (call : NamedCall H) :
    (instances.perform sorter call).object name =
      (call.onName name registrations).map (RouteTable.registerAll sorter) := by
  have fresh : (instances.object name).getD .empty =
      RouteTable.registerAll sorter (registrations.getD []) := by
    rw [table]
    cases registrations <;> rfl
  cases call with
  | tableOf called =>
      rw [NamedInstances.perform, object_tableOf, NamedCall.onName, NamedCall.name]
      by_cases same : name = called
      · subst same
        rw [if_pos rfl, if_pos rfl, fresh]
        rfl
      · rw [if_neg same, if_neg (Ne.symm same), table]
  | register called registration =>
      rw [NamedInstances.perform, Directory.object_edit, object_tableOf, NamedCall.onName,
        NamedCall.name]
      by_cases same : name = called
      · subst same
        rw [if_pos rfl, if_pos rfl, if_pos rfl, fresh, Option.map_some, Option.map_some,
          registerAll_snoc]
      · rw [if_neg same, object_tableOf, if_neg same, if_neg (Ne.symm same), table]
  | clear called =>
      rw [NamedInstances.perform, Directory.object_edit, object_tableOf, NamedCall.onName,
        NamedCall.name]
      by_cases same : name = called
      · subst same
        rw [if_pos rfl, if_pos rfl, if_pos rfl]
        rfl
      · rw [if_neg same, object_tableOf, if_neg same, if_neg (Ne.symm same), table]
  | removeInstance called =>
      rw [NamedInstances.perform, NamedInstances.removeInstance, Directory.object_erase,
        NamedCall.onName, NamedCall.name]
      by_cases same : name = called
      · subst same
        rw [if_pos rfl, if_pos rfl]
        rfl
      · rw [if_neg same, if_neg (Ne.symm same), table]

/-- The table of a name has its registrations. -/
theorem object_afterCalls (name : Text) (history : List (NamedCall H)) :
    (NamedInstances.afterCalls sorter history).object name =
      (registrationsOf name history).map (RouteTable.registerAll sorter) := by
  induction history using List.reverseRecOn with
  | nil => rfl
  | append_singleton history call inductionHypothesis =>
      rw [NamedInstances.afterCalls, registrationsOf, List.foldl_concat, List.foldl_concat]
      exact object_perform inductionHypothesis call

/-- **Named tables are apart**: a name resolves by its own registrations since it was
removed or cleared last, as if no other name were ever called, and it is listed, and there
to be removed, exactly while it is in use. -/
theorem named_tables_are_apart (history : List (NamedCall H)) (name path : Text)
    (method : Verb) (ctx : RequestContext) :
    let instances := NamedInstances.afterCalls sorter history
    let alone := history.filter fun call => decide (call.name = name)
    instances.resolve name path method ctx =
      some ((RouteTable.registerAll sorter ((registrationsOf name alone).getD
        [])).resolveRouteWithMethod path method ctx) ∧
    (name ∈ instances.getInstanceNames ↔ (registrationsOf name alone).isSome) ∧
    (instances.removeInstance name).1 = (registrationsOf name alone).isSome := by
  intro instances alone
  have table := @object_afterCalls _ sorter name history
  have inUse := instances.isSome_object name
  rw [table, Option.isSome_map] at inUse
  rw [registrationsOf_filter]
  refine ⟨?_, ?_, inUse.symm⟩
  · rw [NamedInstances.resolve, object_tableOf, if_pos rfl, table]
    cases registrationsOf name history <;> rfl
  · rw [inUse, decide_eq_true_iff]
    exact AList.mem_keys.symm

end Sorting

end Foxhttp.Router
