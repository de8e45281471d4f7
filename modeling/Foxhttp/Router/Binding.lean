import Foxhttp.Library.Entries
import Foxhttp.Router.Table

/-!
# The paths a dynamic route describes

Substituting values into a pattern gives a path, and the route should resolve
it and bind the values. The lookup normalises the path but not the pattern, and
a name which occurs twice keeps its last group only. These are the two ways in
which a route misses a path it describes.
-/

namespace Foxhttp.Router

open Foxhttp.Library Foxhttp.Library.Wildcard

/-! ## Substitution -/

/-- The template of a pattern. A pattern without one is not accepted. -/
def templateOf (pattern : Text) : Template :=
  (Template.read pattern).getD []

/-- The pattern with values substituted for its parameters. -/
def substitute (values : Text → Text) (pattern : Text) : Text :=
  (templateOf pattern).fill values

/-- The names of the parameters of a pattern. -/
def parameterNames (pattern : Text) : List Text :=
  (templateOf pattern).names

/-- The last of the runs which belong to a name. -/
def lastOf (names : List Text) (runs : List Text) (name : Text) : Text :=
  ((names.zip runs).reverse.lookup name).getD []

namespace Template

/-- Substituting segment values gives a text which splits into them. -/
theorem splits_fill {template : Template} {values : Text → Text}
    (segments : ∀ name ∈ template.names, values name ≠ [] ∧ '/' ∉ values name) :
    Splits segmentChar template.pieces (template.fill values) (template.names.map values) := by
  induction template with
  | nil => exact .done
  | cons part template inductionHypothesis =>
      cases part with
      | literal c => exact .symbol (inductionHypothesis segments)
      | parameter name =>
          obtain ⟨⟨filled, plain⟩, later⟩ := List.forall_mem_cons.mp segments
          refine .hole filled (fun c member => ?_) (inductionHypothesis later)
          rw [segmentChar, bne_iff_ne]
          rintro rfl
          exact plain member

/-- A text which splits into the values of the names is the substituted text. -/
theorem fill_of_splits {template : Template} {values : Text → Text} {text : Text}
    (splits : Splits segmentChar template.pieces text (template.names.map values)) :
    template.fill values = text := by
  induction template generalizing text with
  | nil =>
      cases splits
      rfl
  | cons part template inductionHypothesis =>
      cases part with
      | literal c =>
          cases splits with
          | symbol rest => exact congrArg (c :: ·) (inductionHypothesis rest)
      | parameter name =>
          cases splits with
          | hole _ _ rest => exact congrArg (values name ++ ·) (inductionHypothesis rest)

/-- A split has a run for every name. -/
theorem length_of_splits {template : Template} {text : Text} {runs : List Text}
    (splits : Splits segmentChar template.pieces text runs) :
    runs.length = template.names.length := by
  induction template generalizing text runs with
  | nil =>
      cases splits
      rfl
  | cons part template inductionHypothesis =>
      cases part with
      | literal c =>
          cases splits with
          | symbol rest => exact inductionHypothesis rest
      | parameter name =>
          cases splits with
          | hole _ _ rest => exact congrArg (· + 1) (inductionHypothesis rest)

/-- Substitution looks at the values of the template's names only. -/
theorem fill_congr {template : Template} {values others : Text → Text}
    (agree : ∀ name ∈ template.names, values name = others name) :
    template.fill values = template.fill others := by
  induction template with
  | nil => rfl
  | cons part template inductionHypothesis =>
      cases part with
      | literal c => exact congrArg (c :: ·) (inductionHypothesis agree)
      | parameter name =>
          obtain ⟨here, later⟩ := List.forall_mem_cons.mp agree
          exact congrArg₂ (· ++ ·) here (inductionHypothesis later)

end Template

/-! ## Normal forms of patterns and paths -/

/-- A text for every part which starts with a slash, or ends with one, only for
the literal slash. -/
structure KeepsSlashes (template : Template) (text : Part → Text) : Prop where
  starts : ∀ part ∈ template, ∃ c rest, text part = c :: rest ∧ (c = '/' ↔ part = .literal '/')
  ends : ∀ part ∈ template, ∃ front c, text part = front ++ [c] ∧ (c = '/' ↔ part = .literal '/')
  slash : text (.literal '/') = ['/']

/-- Whether a text of the parts is in normal form depends on the template only. -/
theorem KeepsSlashes.canonical_iff {template : Template} {text : Part → Text}
    (keeps : KeepsSlashes template text) :
    Canonical (template.flatMap text) ↔
      template.head? = some (.literal '/') ∧
        (template.getLast? = some (.literal '/') → template = [.literal '/']) := by
  have head : (template.flatMap text).head? = some '/' ↔ template.head? = some (.literal '/') := by
    cases template with
    | nil => simp
    | cons part template =>
        obtain ⟨c, rest, isCons, isSlash⟩ := keeps.starts part List.mem_cons_self
        simp [isCons, isSlash]
  have last : (template.flatMap text).getLast? = some '/' ↔
      template.getLast? = some (.literal '/') := by
    cases template using List.reverseRecOn with
    | nil => simp
    | append_singleton template part =>
        obtain ⟨front, c, isConcat, isSlash⟩ := keeps.ends part (by simp)
        simp [List.flatMap_append, isConcat, isSlash, ← List.append_assoc]
  have root : template.flatMap text = ['/'] ↔ template = [.literal '/'] := by
    constructor
    · intro isRoot
      rw [isRoot] at head
      cases template with
      | nil => simp at head
      | cons part template =>
          have isSlash : part = .literal '/' := by simpa using head
          subst isSlash
          rw [List.flatMap_cons, keeps.slash, List.singleton_append, List.cons.injEq] at isRoot
          cases template with
          | nil => rfl
          | cons second template =>
              obtain ⟨c, rest, isCons, -⟩ := keeps.starts second (by simp)
              simp [isCons] at isRoot
    · rintro rfl
      rw [List.flatMap_singleton, keeps.slash]
  rw [Canonical, head, last, root]

theorem keepsSlashes_render (template : Template) : KeepsSlashes template Part.render where
  starts part _ := by
    cases part with
    | literal c => exact ⟨c, [], rfl, by simp⟩
    | parameter name => exact ⟨'{', name ++ ['}'], rfl, by simp⟩
  ends part _ := by
    cases part with
    | literal c => exact ⟨[], c, rfl, by simp⟩
    | parameter name => exact ⟨'{' :: name, '}', rfl, by simp⟩
  slash := rfl

theorem keepsSlashes_fill {template : Template} {values : Text → Text}
    (segments : ∀ name ∈ template.names, values name ≠ [] ∧ '/' ∉ values name) :
    KeepsSlashes template (Part.fill values) where
  starts part member := by
    cases part with
    | literal c => exact ⟨c, [], rfl, by simp⟩
    | parameter name =>
        obtain ⟨filled, plain⟩ := segments name (List.mem_filterMap.mpr ⟨_, member, rfl⟩)
        obtain ⟨c, rest, isCons⟩ := List.exists_cons_of_ne_nil filled
        refine ⟨c, rest, isCons, ⟨?_, nofun⟩⟩
        rintro rfl
        exact absurd (isCons ▸ List.mem_cons_self) plain
  ends part member := by
    cases part with
    | literal c => exact ⟨[], c, rfl, by simp⟩
    | parameter name =>
        obtain ⟨filled, plain⟩ := segments name (List.mem_filterMap.mpr ⟨_, member, rfl⟩)
        obtain ⟨front, c, isConcat⟩ := (List.eq_nil_or_concat _).resolve_left filled
        rw [List.concat_eq_append] at isConcat
        refine ⟨front, c, isConcat, ⟨?_, nofun⟩⟩
        rintro rfl
        exact absurd (isConcat ▸ List.mem_append_right _ List.mem_cons_self) plain
  slash := rfl

/-- A path a pattern describes is in normal form exactly when the pattern is. -/
theorem normalizePath_fill_iff {pattern : Text} {template : Template} {values : Text → Text}
    (isRead : Template.read pattern = some template)
    (segments : ∀ name ∈ template.names, values name ≠ [] ∧ '/' ∉ values name) :
    normalizePath (template.fill values) = template.fill values ↔
      normalizePath pattern = pattern := by
  have rendered : template.flatMap Part.render = pattern := Template.render_of_readFrom isRead
  rw [normalizePath_eq_self_iff, normalizePath_eq_self_iff, ← rendered,
    (keepsSlashes_render template).canonical_iff, Template.fill,
    (keepsSlashes_fill segments).canonical_iff]

/-- An expression which matches a path and its normal form finds them the same. -/
theorem normalizePath_of_splits {regex : Regex} {path : Text} {runs groups : List Text}
    (splits : Splits segmentChar regex path runs)
    (normalSplits : Splits segmentChar regex (normalizePath path) groups) :
    normalizePath path = path := by
  have refused : segmentChar '/' = false := rfl
  have head : path.head? = some '/' := by
    rw [splits.head?_symbol refused, ← normalSplits.head?_symbol refused]
    exact head?_normalizePath path
  rcases normalizePath_cases head with ⟨same, -⟩ | ⟨longer, -⟩
  · exact same
  · -- the normal form would be one slash short of what the expression wants
    have count := splits.count_symbol refused
    have shorter := congrArg (List.count '/') longer
    rw [List.count_append, count, ← normalSplits.count_symbol refused] at shorter
    exact absurd shorter (Nat.ne_add_one _)

/-! ## The bound values -/

/-- Every name which has a group is bound to its last group. -/
theorem lookup_collectParams {names groups : List Text} (enough : groups.length = names.length)
    {name : Text} (isName : name ∈ names) :
    (collectParams names groups).lookup name = some (lastOf names groups name) := by
  rw [collectParams, lookup_foldl_insert, AList.lookup_empty, Option.or_none, lastOf]
  cases found : (names.zip groups).reverse.lookup name with
  | some value => rfl
  | none =>
      have absent := List.lookup_eq_none_iff.mp found
      obtain ⟨index, inside, isHere⟩ := List.mem_iff_getElem.mp isName
      have paired : (name, groups[index]) ∈ (names.zip groups).reverse := by
        rw [List.mem_reverse, ← isHere, ← List.getElem_zip]
        exact List.getElem_mem (by simpa [enough] using inside)
      simpa using absent _ paired

/-- When no name occurs twice, the last run of a name is its only one. -/
theorem map_lastOf {names runs : List Text} (distinct : names.Nodup)
    (enough : runs.length = names.length) : names.map (lastOf names runs) = runs := by
  induction names generalizing runs with
  | nil => exact (List.length_eq_zero_iff.mp enough).symm
  | cons name names inductionHypothesis =>
      obtain ⟨run, runs, rfl⟩ := List.exists_cons_of_length_eq_add_one enough
      obtain ⟨fresh, distinct⟩ := List.nodup_cons.mp distinct
      have atName : lastOf (name :: names) (run :: runs) name = run := by
        have absent : (names.zip runs).reverse.lookup name = none := by
          rw [List.lookup_eq_none_iff]
          rintro ⟨other, group⟩ member
          rw [List.mem_reverse] at member
          rw [bne_iff_ne]
          rintro rfl
          exact fresh (List.of_mem_zip member).1
        simp [lastOf, List.lookup_append, absent]
      have atOthers : ∀ other ∈ names,
          lastOf (name :: names) (run :: runs) other = lastOf names runs other := by
        intro other member
        have different : other ≠ name := fun same => fresh (same ▸ member)
        simp [lastOf, List.lookup_append, List.lookup_cons, beq_eq_false_iff_ne.mpr different]
      rw [List.map_cons, atName, List.map_congr_left atOthers,
        inductionHypothesis distinct (Nat.succ.inj enough)]

/-! ## Resolving a path of the only route -/

variable {H : Type}
variable (sorter : Sorter (DynamicRoute.moreSpecific : DynamicRoute H → DynamicRoute H → Bool))

/-- The table which holds one dynamic route. -/
def oneRoute (pattern : Text) (method : Verb) (handler : Option H) : RouteTable H :=
  let route : DynamicRoute H :=
    ⟨pattern, handler, (templateOf pattern).pieces, parameterNames pattern, method⟩
  ⟨∅, [route], [.dynamic route]⟩

/-- A pattern with a template is accepted, and the table then holds its route. -/
theorem addDynamicRoute_of_read {pattern : Text} {template : Template}
    (isRead : Template.read pattern = some template) (method : Verb) (handler : Option H) :
    RouteTable.empty.addDynamicRoute sorter pattern method handler =
      .ok (oneRoute pattern method handler) := by
  have isTemplate : templateOf pattern = template := by rw [templateOf, isRead, Option.getD_some]
  simp only [RouteTable.addDynamicRoute, parsePattern_of_read isRead, RouteTable.empty,
    List.nil_append, List.perm_singleton.mp (sorter.perm _), oneRoute, parameterNames, isTemplate]

/-- What a table with one dynamic route makes of a path: the route takes a
request of any method, so `resolve_route` wants it registered for any method. -/
theorem resolveRoute_oneRoute (pattern : Text) (method : Verb) (handler : Option H) (path : Text)
    (ctx : RequestContext) :
    (oneRoute pattern method handler).resolveRoute path ctx =
      match capture segmentChar (templateOf pattern).pieces (normalizePath path) with
      | some groups =>
          if method = .unknown then
            (handler,
              if (collectParams (parameterNames pattern) groups).keys.isEmpty then ctx
              else ⟨collectParams (parameterNames pattern) groups⟩)
          else (none, ctx)
      | none => (none, ctx) := by
  simp only [RouteTable.resolveRoute, RouteTable.resolveRouteWithMethod, oneRoute,
    AList.lookup_empty, RouteTable.scanDynamicRoutes, Regex.fullMatch]
  cases capture segmentChar (templateOf pattern).pieces (normalizePath path) with
  | none => rfl
  | some groups =>
      simp only [DynamicRoute.matchesMethod, Bool.or_self, beq_iff_eq]
      split <;> rfl

/-- The context of a match holds the last group of every name. -/
theorem lookup_pathParams {names groups : List Text} (enough : groups.length = names.length)
    (ctx : RequestContext) {name : Text} (isName : name ∈ names) :
    (if (collectParams names groups).keys.isEmpty then ctx
      else ⟨collectParams names groups⟩ : RequestContext).pathParams.lookup name =
      some (lastOf names groups name) := by
  have found := lookup_collectParams enough isName
  have member : name ∈ (collectParams names groups).keys := by
    rw [← AList.mem_keys, ← AList.lookup_isSome, found, Option.isSome_some]
  rw [if_neg]
  · exact found
  · rw [List.isEmpty_iff]
    exact List.ne_nil_of_mem member

/-- Resolving the path returns the handler and binds every parameter, to values
which substitute to the path. -/
def Finds (table : RouteTable H) (pattern : Text) (handler : H) (path : Text) : Prop :=
  ∀ ctx, (table.resolveRoute path ctx).1 = some handler ∧
    ∃ bound : Text → Text,
      (∀ name ∈ parameterNames pattern,
        (table.resolveRoute path ctx).2.pathParams.lookup name = some (bound name)) ∧
      substitute bound pattern = path

/-- A table with one dynamic route finds a path exactly when the route is for any
method, and the last groups of the names substitute to the path. -/
theorem finds_oneRoute_iff {pattern : Text} {method : Verb} {handler : H} {path : Text} :
    Finds (oneRoute pattern method (some handler)) pattern handler path ↔
      method = .unknown ∧ ∃ groups,
        capture segmentChar (templateOf pattern).pieces (normalizePath path) = some groups ∧
          substitute (lastOf (parameterNames pattern) groups) pattern = path := by
  constructor
  · intro finds
    obtain ⟨isHandler, bound, isBound, same⟩ := finds ⟨∅⟩
    rw [resolveRoute_oneRoute] at isHandler isBound
    cases captured : capture segmentChar (templateOf pattern).pieces (normalizePath path) with
    | none =>
        rw [captured] at isHandler
        cases isHandler
    | some groups =>
        have enough := Template.length_of_splits (capture_sound captured)
        simp only [captured] at isHandler isBound
        by_cases any : method = .unknown
        · rw [if_pos any] at isBound
          refine ⟨any, groups, rfl, ?_⟩
          rw [← same]
          refine Template.fill_congr fun name isName => ?_
          have isLast := lookup_pathParams enough ⟨∅⟩ isName
          exact Option.some.inj (isLast.symm.trans (isBound name isName))
        · rw [if_neg any] at isHandler
          cases isHandler
  · rintro ⟨any, groups, captured, same⟩ ctx
    have enough := Template.length_of_splits (capture_sound captured)
    rw [resolveRoute_oneRoute, captured]
    dsimp only
    rw [if_pos any]
    exact ⟨rfl, lastOf (parameterNames pattern) groups,
      fun name isName => lookup_pathParams enough ctx isName, same⟩

/-- A table with one dynamic route finds a path its pattern describes exactly
when the route is registered for any method, the pattern is in normal form, and
either no name occurs twice or the last runs of the longest-first split
substitute to the path again. -/
theorem finds_iff {pattern : Text} {method : Verb} {handler : H} {table : RouteTable H}
    (accepted : RouteTable.empty.addDynamicRoute sorter pattern method (some handler) = .ok table)
    (values : Text → Text)
    (segments : ∀ name ∈ parameterNames pattern, values name ≠ [] ∧ '/' ∉ values name) :
    Finds table pattern handler (substitute values pattern) ↔
      method = .unknown ∧ normalizePath pattern = pattern ∧
        ((parameterNames pattern).Nodup ∨
          ∃ runs, Longest segmentChar (templateOf pattern).pieces (substitute values pattern) runs ∧
            substitute (lastOf (parameterNames pattern) runs) pattern =
              substitute values pattern) := by
  obtain ⟨template, isRead⟩ : ∃ template, Template.read pattern = some template := by
    rw [RouteTable.addDynamicRoute] at accepted
    split at accepted
    · rename_i parsed
      exact parsePattern_ok parsed
    · cases accepted
  obtain rfl : oneRoute pattern method (some handler) = table := by
    rw [addDynamicRoute_of_read sorter isRead] at accepted
    exact Except.ok.inj accepted
  have isTemplate : templateOf pattern = template := by rw [templateOf, isRead, Option.getD_some]
  have splits : Splits segmentChar (templateOf pattern).pieces (substitute values pattern)
      ((parameterNames pattern).map values) := Template.splits_fill segments
  have normal : normalizePath (substitute values pattern) = substitute values pattern ↔
      normalizePath pattern = pattern := by
    rw [substitute, isTemplate]
    rw [parameterNames, isTemplate] at segments
    exact normalizePath_fill_iff isRead segments
  rw [finds_oneRoute_iff]
  constructor
  · rintro ⟨any, groups, captured, same⟩
    have isNormal := normalizePath_of_splits splits (capture_sound captured)
    rw [isNormal] at captured
    exact ⟨any, normal.mp isNormal, .inr ⟨groups, capture_longest captured, same⟩⟩
  · rintro ⟨any, isNormal, condition⟩
    obtain ⟨groups, captured, -⟩ := capture_complete splits
    rw [normal.mpr isNormal]
    refine ⟨any, groups, captured, ?_⟩
    rcases condition with distinct | ⟨runs, longest, same⟩
    · have groupSplits := capture_sound captured
      refine Template.fill_of_splits ?_
      rw [← parameterNames, map_lastOf distinct (Template.length_of_splits groupSplits)]
      exact groupSplits
    · rw [longest.unique (capture_longest captured)] at same
      exact same

/-- A user path, with its identifier. -/
theorem finds_user :
    Finds (oneRoute "/users/\x7bid\x7d".toList .unknown (some 7)) "/users/\x7bid\x7d".toList 7
      "/users/42".toList := by
  have accepted : RouteTable.empty.addDynamicRoute DynamicRoute.insertionSorter
      "/users/\x7bid\x7d".toList .unknown (some 7) = .ok (oneRoute _ _ _) :=
    addDynamicRoute_of_read _ rfl _ _
  exact (finds_iff DynamicRoute.insertionSorter accepted (fun _ => "42".toList) (by decide)).mpr
    ⟨rfl, by decide, .inl (by decide)⟩

/-- A pattern with a trailing slash does not find the path it describes. -/
theorem trailing_slash_not_found :
    ¬ ∀ (pattern : Text) (handler : Nat) (table : RouteTable Nat) (values : Text → Text),
      RouteTable.empty.addDynamicRoute DynamicRoute.insertionSorter pattern .unknown
        (some handler) = .ok table →
      (∀ name ∈ parameterNames pattern, values name ≠ [] ∧ '/' ∉ values name) →
      Finds table pattern handler (substitute values pattern) := by
  intro found
  have finds := found "/users/\x7bid\x7d/".toList 7 _ (fun _ => "42".toList)
    (addDynamicRoute_of_read _ rfl _ _) (by decide)
  have resolved := (finds ⟨∅⟩).1
  rw [resolveRoute_oneRoute] at resolved
  exact absurd resolved (by decide)

end Foxhttp.Router
