import Foxhttp.Router.Table

/-!
# Which patterns are refused

The scan of a pattern goes from one opening brace to the next behind its closing
one, and stops at the first which is not closed or has no name behind it. It runs
before anything is stored, so a call which throws leaves the table as it was.
-/

namespace Foxhttp.Router

open Foxhttp.Library

/-! ## The grammar of patterns -/

/-- The scan of a pattern reaches an opening brace with this text behind it: the
first of the pattern, or one reached behind a parameter. -/
inductive Reached : Text → Text → Prop where
  | first {front rest : Text} (plain : '{' ∉ front) : Reached (front ++ '{' :: rest) rest
  | behind {front name later rest : Text} (plain : '{' ∉ front) (named : name ≠ [])
      (closes : '}' ∉ name) (reached : Reached later rest) :
      Reached (front ++ '{' :: (name ++ '}' :: later)) rest

/-- What stands behind an opening brace does not close it, or closes it at once. -/
def Faulty (rest : Text) : Prop :=
  '}' ∉ rest ∨ rest.head? = some '}'

/-- Behind a faulty brace no template is read. -/
theorem readFrom_faulty {rest : Text} (faulty : Faulty rest) :
    Template.readFrom (some []) rest = none := by
  rcases faulty with unclosed | empty
  · have isRead := Template.readFrom_name unclosed [] []
    rw [List.append_nil] at isRead
    rw [isRead, Template.readFrom]
  · obtain ⟨tail, rfl⟩ := List.head?_eq_some_iff.mp empty
    rfl

/-- A brace which is not faulty opens a parameter. -/
theorem exists_name {rest : Text} (sound : ¬ Faulty rest) :
    ∃ name later, rest = name ++ '}' :: later ∧ name ≠ [] ∧ '}' ∉ name := by
  rw [Faulty, not_or, not_not] at sound
  obtain ⟨closed, filled⟩ := sound
  obtain ⟨name, later, rfl, closes⟩ := List.eq_append_cons_of_mem closed
  refine ⟨name, later, rfl, ?_, closes⟩
  rintro rfl
  exact filled rfl

theorem read_of_reached {pattern rest : Text} (reached : Reached pattern rest)
    (faulty : Faulty rest) : Template.read pattern = none := by
  rw [Template.read]
  induction reached with
  | first plain =>
      rw [Template.readFrom_literals plain, Template.readFrom, if_pos rfl, readFrom_faulty faulty]
      rfl
  | @behind front name later rest plain named closes reached inductionHypothesis =>
      have isParameter := Template.readFrom_parameter closes later
      rw [if_neg (by simpa using named), inductionHypothesis faulty] at isParameter
      rw [Template.readFrom_literals plain, ← List.cons_append, isParameter]
      rfl

/-- A pattern whose reached braces are all closed behind a name has a template. -/
theorem read_of_sound (pattern : Text)
    (sound : ∀ rest, Reached pattern rest → ¬ Faulty rest) :
    ∃ template, Template.read pattern = some template := by
  induction size : pattern.length using Nat.strongRecOn generalizing pattern with
  | ind long inductionHypothesis =>
    rw [Template.read]
    by_cases opens : '{' ∈ pattern
    · obtain ⟨front, rest, rfl, plain⟩ := List.eq_append_cons_of_mem opens
      obtain ⟨name, later, rfl, named, closes⟩ := exists_name (sound rest (.first plain))
      have shorter : later.length < long := by
        rw [← size]
        simp only [List.length_append, List.length_cons]
        omega
      obtain ⟨template, isRead⟩ := inductionHypothesis later.length shorter later
        (fun rest reached => sound rest (.behind plain named closes reached)) rfl
      have isParameter := Template.readFrom_parameter closes later
      rw [Template.read] at isRead
      rw [if_neg (by simpa using named), isRead] at isParameter
      rw [Template.readFrom_literals plain, ← List.cons_append, isParameter]
      exact ⟨_, rfl⟩
    · have isRead := Template.readFrom_literals opens []
      rw [List.append_nil] at isRead
      rw [isRead]
      exact ⟨_, rfl⟩

/-- The scan refuses a pattern exactly when it reaches a faulty brace. -/
theorem parsePattern_error_iff (pattern : Text) :
    (∃ message, parsePattern pattern = .error message) ↔
      ∃ rest, Reached pattern rest ∧ Faulty rest := by
  constructor
  · rintro ⟨message, refused⟩
    by_contra sound
    obtain ⟨template, isRead⟩ := read_of_sound pattern fun rest reached faulty =>
      sound ⟨rest, reached, faulty⟩
    rw [parsePattern_of_read isRead] at refused
    cases refused
  · rintro ⟨rest, reached, faulty⟩
    cases parsed : parsePattern pattern with
    | error message => exact ⟨message, rfl⟩
    | ok found =>
        obtain ⟨template, isRead⟩ := parsePattern_ok parsed
        rw [read_of_reached reached faulty] at isRead
        cases isRead

/-! ## The call -/

variable {H : Type}

/-- A call on a table which may throw. -/
abbrev TableCall (H : Type) := ExceptT Text (StateM (RouteTable H))

namespace RouteTable

variable (sorter : Sorter (DynamicRoute.moreSpecific : DynamicRoute H → DynamicRoute H → Bool))

/-- `add_dynamic_route(pattern, method, handler)`, statement by statement. -/
def addDynamicRouteCall (pattern : Text) (method : Verb) (handler : Option H) : TableCall H Unit :=
  tryCatch
    (do
      let (regexPattern, paramNames) ← MonadExcept.ofExcept (parsePattern pattern)
      let route : DynamicRoute H := ⟨pattern, handler, regexPattern, paramNames, method⟩
      modify fun table => { table with dynamicRoutes := table.dynamicRoutes ++ [route] }
      modify fun table => { table with allRoutes := table.allRoutes ++ [.dynamic route] }
      modify fun table => { table with dynamicRoutes := sorter.sort table.dynamicRoutes })
    fun message =>
      throw ("Failed to parse dynamic route pattern '".toList ++ pattern ++ "': ".toList ++ message)

/-- The call leaves the table it was made on or the next one. -/
theorem addDynamicRouteCall_run (table : RouteTable H) (pattern : Text) (method : Verb)
    (handler : Option H) :
    (addDynamicRouteCall sorter pattern method handler).run.run table =
      match table.addDynamicRoute sorter pattern method handler with
      | .ok next => (.ok (), next)
      | .error message => (.error message, table) := by
  rw [addDynamicRoute]
  cases parsed : parsePattern pattern with
  | error message =>
      rw [addDynamicRouteCall, parsed]
      rfl
  | ok found =>
      rw [addDynamicRouteCall, parsed]
      rfl

/-- The table has one more route, at the end of all routes and somewhere in a sorted
list of the dynamic ones. -/
structure OneMore (table next : RouteTable H) (route : DynamicRoute H) : Prop where
  statics : next.staticRoutes = table.staticRoutes
  all : next.allRoutes = table.allRoutes ++ [.dynamic route]
  dynamics : next.dynamicRoutes.Perm (table.dynamicRoutes ++ [route])
  sorted : next.dynamicRoutes.Pairwise fun first second => second.moreSpecific first = false

theorem oneMore_addDynamicRoute {table next : RouteTable H} {pattern : Text} {method : Verb}
    {handler : Option H}
    (accepted : table.addDynamicRoute sorter pattern method handler = .ok next) :
    ∃ route, OneMore table next route ∧ route.pattern = pattern ∧ route.handler = handler ∧
      route.method = method := by
  rw [addDynamicRoute] at accepted
  split at accepted
  · cases accepted
    exact ⟨_, ⟨rfl, rfl, sorter.perm _, sorter.sorted _⟩, rfl, rfl, rfl⟩
  · cases accepted

theorem addDynamicRoute_error_iff (table : RouteTable H) (pattern : Text) (method : Verb)
    (handler : Option H) :
    (∃ message, table.addDynamicRoute sorter pattern method handler = .error message) ↔
      ∃ message, parsePattern pattern = .error message := by
  rw [addDynamicRoute]
  cases parsePattern pattern with
  | error message => simp
  | ok found => simp

/-- **`add_dynamic_route` accepts the grammar and fails cleanly**: it throws exactly
when the scan reaches a brace which is not closed or has no name, a call which
throws leaves the table as it was, and any other adds its route once. -/
theorem addDynamicRoute_exact (table : RouteTable H) (pattern : Text) (method : Verb)
    (handler : Option H) :
    ((∃ message, ((addDynamicRouteCall sorter pattern method handler).run.run table).1 =
        .error message) ↔ ∃ rest, Reached pattern rest ∧ Faulty rest) ∧
    (∀ message, ((addDynamicRouteCall sorter pattern method handler).run.run table).1 =
      .error message →
        ((addDynamicRouteCall sorter pattern method handler).run.run table).2 = table) ∧
    (((addDynamicRouteCall sorter pattern method handler).run.run table).1 = .ok () →
      ∃ route, OneMore table
          ((addDynamicRouteCall sorter pattern method handler).run.run table).2 route ∧
        route.pattern = pattern ∧ route.handler = handler ∧ route.method = method) := by
  have refused := addDynamicRoute_error_iff sorter table pattern method handler
  rw [parsePattern_error_iff] at refused
  rw [addDynamicRouteCall_run, ← refused]
  cases outcome : table.addDynamicRoute sorter pattern method handler with
  | error message =>
      refine ⟨⟨fun _ => ⟨message, rfl⟩, fun _ => ⟨message, rfl⟩⟩, fun _ _ => rfl, ?_⟩
      intro accepted
      cases accepted
  | ok next =>
      refine ⟨⟨?_, ?_⟩, ?_, fun _ => oneMore_addDynamicRoute sorter outcome⟩
      · rintro ⟨message, thrown⟩
        cases thrown
      · rintro ⟨message, thrown⟩
        cases thrown
      · intro message thrown
        cases thrown

end RouteTable

end Foxhttp.Router
