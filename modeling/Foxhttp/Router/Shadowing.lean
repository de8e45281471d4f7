import Foxhttp.Router.Binding
import Foxhttp.Router.Order

/-!
# Routes behind more general ones

When every path of one pattern is also a path of another, the first route is
reachable only if it stands before the second. The comparator counts segments
and parameters and then compares the texts of the patterns, so a pattern with a
literal inside a segment can stand behind the more general one.
-/

namespace Foxhttp.Router

open Foxhttp.Library Foxhttp.Library.Wildcard

/-! ## Patterns and their paths -/

/-- A path a pattern matches: the lookup matches the normal form of the path. -/
def Matches (pattern path : Text) : Prop :=
  ∃ regex names, parsePattern pattern = .ok (regex, names) ∧
    (regex.fullMatch (normalizePath path)).isSome = true

/-- Every path of the first pattern is a path of the second, but not conversely. -/
structure Narrower (p q : Text) : Prop where
  included : ∀ path, Matches p path → Matches q path
  strict : ∃ path, Matches q path ∧ ¬ Matches p path

/-- The number of static segments the comparator goes by. -/
def patternSpecificity (pattern : Text) : Nat :=
  countSegments pattern - (parameterNames pattern).length

/-- The order of patterns the comparator sorts by: more static segments, then
more segments, then the smaller text. -/
def Precedes (p q : Text) : Prop :=
  patternSpecificity q < patternSpecificity p ∨
    patternSpecificity p = patternSpecificity q ∧
      (countSegments q < countSegments p ∨ countSegments p = countSegments q ∧ p < q)

instance (p q : Text) : Decidable (Precedes p q) :=
  inferInstanceAs (Decidable (_ ∨ _))

/-- However the two patterns are registered, a path of the first which no third
route matches resolves to the handler of the first, for the methods it accepts. -/
def NotShadowed (p q : Text) : Prop :=
  ∀ (H : Type)
    (sorter : Sorter (DynamicRoute.moreSpecific : DynamicRoute H → DynamicRoute H → Bool))
    (history others : List (Registration H)) (methodP methodQ : Verb)
    (handlerP handlerQ : Option H),
    history.Perm (.dynamic p methodP handlerP :: .dynamic q methodQ handlerQ :: others) →
    ∀ (path : Text) (method : Verb) (ctx : RequestContext), Matches p path →
      (∀ route ∈ registered others, route.matchesPath (normalizePath path) = false) →
      methodP = .unknown ∨ methodP = method →
      ((RouteTable.registerAll sorter history).resolveRouteWithMethod path method ctx).handler =
        handlerP

variable {H : Type}

/-- The names of an accepted pattern are those of its template. -/
theorem names_of_parsePattern {pattern : Text} {regex : Regex} {names : List Text}
    (accepted : parsePattern pattern = .ok (regex, names)) : names = parameterNames pattern := by
  obtain ⟨template, isRead⟩ := parsePattern_ok accepted
  have isTemplate : templateOf pattern = template := by rw [templateOf, isRead, Option.getD_some]
  rw [parsePattern_of_read isRead] at accepted
  cases accepted
  rw [parameterNames, isTemplate]

/-- The route of an accepted pattern. -/
theorem route?_of_parsePattern {pattern : Text} {regex : Regex} {names : List Text}
    (accepted : parsePattern pattern = .ok (regex, names)) (method : Verb) (handler : Option H) :
    (Registration.dynamic pattern method handler).route? =
      some (.dynamic ⟨pattern, handler, regex, names, method⟩) := by
  simp only [Registration.route?, accepted]

theorem matches_iff {pattern : Text} {regex : Regex} {names : List Text}
    (accepted : parsePattern pattern = .ok (regex, names)) (path : Text) :
    Matches pattern path ↔ (regex.fullMatch (normalizePath path)).isSome = true := by
  constructor
  · rintro ⟨regex, names, again, found⟩
    rw [accepted] at again
    cases again
    exact found
  · intro found
    exact ⟨regex, names, accepted, found⟩

/-- The comparator compares the patterns of accepted routes. -/
theorem moreSpecific_iff_precedes {first second : DynamicRoute H}
    (firstNames : first.paramNames = parameterNames first.pattern)
    (secondNames : second.paramNames = parameterNames second.pattern) :
    first.moreSpecific second = true ↔ Precedes first.pattern second.pattern := by
  rw [DynamicRoute.moreSpecific_iff, Precedes, DynamicRoute.specificity, DynamicRoute.specificity,
    firstNames, secondNames]
  rfl

theorem Narrower.ne {p q : Text} (narrower : Narrower p q) : p ≠ q := by
  rintro rfl
  obtain ⟨path, found, unmatched⟩ := narrower.strict
  exact unmatched found

/-! ## Which of two routes governs -/

section Sorting

variable {sorter : Sorter (DynamicRoute.moreSpecific : DynamicRoute H → DynamicRoute H → Bool)}

/-- A governing route is registered and matches the path. -/
theorem Governs.registered {history : List (Registration H)} {key : Text} {route : Route H}
    (governs : Governs sorter history key route) :
    route ∈ registered history ∧ route.matchesPath key = true := by
  cases governs with
  | @static route latest =>
      have isKey := List.find?_some latest
      have member := List.mem_reverse.mp (List.mem_of_find?_eq_some latest)
      obtain ⟨stored, isStored, isStatic⟩ := List.mem_filterMap.mp member
      cases stored with
      | static other =>
          cases isStatic
          exact ⟨isStored, isKey⟩
      | dynamic other => cases isStatic
  | @dynamic earlier route later noStatic split found first =>
      have member : route ∈ (RouteTable.registerAll sorter history).dynamicRoutes := by
        rw [split]
        exact List.mem_append_right _ List.mem_cons_self
      have listed := (indexed_registerAll sorter history).dynamic.mem_iff.mp member
      obtain ⟨stored, isStored, isDynamic⟩ := List.mem_filterMap.mp listed
      cases stored with
      | static other => cases isDynamic
      | dynamic other =>
          cases isDynamic
          exact ⟨isStored, found⟩

/-- Of two matching dynamic routes the more specific one governs, when no other
route matches. -/
theorem governs_of_moreSpecific {history others : List (Registration H)} {key : Text}
    {call otherCall : Registration H} {first second : DynamicRoute H}
    (order : history.Perm (call :: otherCall :: others))
    (isRoute : call.route? = some (.dynamic first))
    (isOther : otherCall.route? = some (.dynamic second))
    (found : (Route.dynamic first).matchesPath key = true)
    (third : ∀ route ∈ registered others, route.matchesPath key = false)
    (before : first.moreSpecific second = true) :
    Governs sorter history key (.dynamic first) := by
  have members : ∀ route, route ∈ registered history ↔
      route = .dynamic first ∨ route = .dynamic second ∨ route ∈ registered others := by
    intro route
    rw [registered, (order.filterMap _).mem_iff, List.filterMap_cons_some isRoute,
      List.filterMap_cons_some isOther, List.mem_cons, List.mem_cons]
    rfl
  have isRegistered : .dynamic first ∈ registered history := (members _).mpr (.inl rfl)
  obtain ⟨governing, governs⟩ := governs_of_match sorter isRegistered found
  obtain ⟨listed, isMatch⟩ := governs.registered
  rcases (members governing).mp listed with rfl | rfl | other
  · exact governs
  · rw [governs.most_specific sorter isRegistered found] at before
    cases before
  · rw [third governing other] at isMatch
    cases isMatch

end Sorting

/-- A route behind a more general one does not get its paths. -/
theorem not_notShadowed {p q : Text} {regexP regexQ : Regex} {namesP namesQ : List Text}
    (acceptedP : parsePattern p = .ok (regexP, namesP))
    (acceptedQ : parsePattern q = .ok (regexQ, namesQ)) (narrower : Narrower p q)
    (behind : ¬ Precedes p q) {path : Text} (found : Matches p path) : ¬ NotShadowed p q := by
  intro notShadowed
  -- two any-method routes with handlers of their own tell which one is found
  let first : DynamicRoute Nat := ⟨p, some 0, regexP, namesP, .unknown⟩
  let second : DynamicRoute Nat := ⟨q, some 1, regexQ, namesQ, .unknown⟩
  have notBefore : first.moreSpecific second = false := by
    rw [← Bool.not_eq_true]
    intro before
    exact behind ((moreSpecific_iff_precedes (names_of_parsePattern acceptedP)
      (names_of_parsePattern acceptedQ)).mp before)
  have before : second.moreSpecific first = true := by
    rw [← Bool.not_eq_false]
    intro notAfter
    exact narrower.ne (DynamicRoute.pattern_eq_of_incomparable notAfter notBefore)
  have governs : Governs DynamicRoute.insertionSorter
      [.dynamic p .unknown (some 0), .dynamic q .unknown (some 1)] (normalizePath path)
      (.dynamic second) :=
    governs_of_moreSpecific (.swap _ _ _) (route?_of_parsePattern acceptedQ _ _)
      (route?_of_parsePattern acceptedP _ _)
      ((matches_iff acceptedQ path).mp (narrower.included path found)) (by simp [registered]) before
  have resolved := notShadowed Nat DynamicRoute.insertionSorter
    [.dynamic p .unknown (some 0), .dynamic q .unknown (some 1)] [] .unknown .unknown (some 0)
    (some 1) (.refl _) path .get ⟨∅⟩ found (by simp [registered]) (.inl rfl)
  have accepts : (Route.dynamic second).matchesMethod .get = true := rfl
  rw [handler_of_governs _ governs, if_pos accepts] at resolved
  cases resolved

/-- A route before a more general one gets its paths. -/
theorem notShadowed_of_precedes {p q : Text} {regexP regexQ : Regex} {namesP namesQ : List Text}
    (acceptedP : parsePattern p = .ok (regexP, namesP))
    (acceptedQ : parsePattern q = .ok (regexQ, namesQ)) (precedes : Precedes p q) :
    NotShadowed p q := by
  intro H sorter history others methodP methodQ handlerP handlerQ order path method ctx found
    third accepts
  have governs : Governs sorter history (normalizePath path)
      (.dynamic ⟨p, handlerP, regexP, namesP, methodP⟩) :=
    governs_of_moreSpecific order (route?_of_parsePattern acceptedP _ _)
      (route?_of_parsePattern acceptedQ _ _) ((matches_iff acceptedP path).mp found) third
      ((moreSpecific_iff_precedes (names_of_parsePattern acceptedP)
        (names_of_parsePattern acceptedQ)).mpr precedes)
  have isAccepted : (Route.dynamic
      ⟨p, handlerP, regexP, namesP, methodP⟩).matchesMethod method = true := by
    simpa [Route.matchesMethod, DynamicRoute.matchesMethod] using accepts
  rw [handler_of_governs _ governs, if_pos isAccepted]
  rfl

/-- A narrower route is reachable exactly when its pattern precedes the more
general one, or no path matches it. -/
theorem notShadowed_iff {p q : Text} {regexP regexQ : Regex} {namesP namesQ : List Text}
    (acceptedP : parsePattern p = .ok (regexP, namesP))
    (acceptedQ : parsePattern q = .ok (regexQ, namesQ)) (narrower : Narrower p q) :
    NotShadowed p q ↔ Precedes p q ∨ ∀ path, ¬ Matches p path := by
  constructor
  · intro notShadowed
    by_contra neither
    obtain ⟨behind, matched⟩ := not_or.mp neither
    obtain ⟨path, found⟩ := not_forall_not.mp matched
    exact not_notShadowed acceptedP acceptedQ narrower behind found notShadowed
  · rintro (precedes | unmatched)
    · exact notShadowed_of_precedes acceptedP acceptedQ precedes
    · intro H sorter history others methodP methodQ handlerP handlerQ order path method ctx found
      exact absurd found (unmatched path)

/-! ## Patterns with one parameter -/

/-- The paths of a pattern with one parameter. -/
theorem matches_parameter {pattern front name back : Text}
    (isRead : Template.read pattern =
      some (front.map Part.literal ++ .parameter name :: back.map Part.literal)) (path : Text) :
    Matches pattern path ↔
      ∃ run, run ≠ [] ∧ (∀ c ∈ run, segmentChar c = true) ∧
        normalizePath path = front ++ run ++ back := by
  have pieces : Template.pieces (front.map Part.literal ++ .parameter name ::
      back.map Part.literal) = front.map Piece.symbol ++ .hole :: back.map Piece.symbol := by
    simp [Template.pieces, Part.piece, Function.comp_def]
  rw [matches_iff (parsePattern_of_read isRead), Regex.fullMatch, isSome_capture_iff, pieces,
    splits_hole_iff]

/-- A suffix without a slash makes a pattern narrower: a path with a short run
in the place of the parameter shows that it is. -/
theorem narrower_of_suffix {p q front nameP nameQ back : Text}
    (readsP : Template.read p =
      some (front.map Part.literal ++ .parameter nameP :: back.map Part.literal))
    (readsQ : Template.read q = some (front.map Part.literal ++ [.parameter nameQ]))
    (segments : ∀ c ∈ back, segmentChar c = true) (path run : Text)
    (isPath : normalizePath path = front ++ run) (filled : run ≠ [])
    (segmentRun : ∀ c ∈ run, segmentChar c = true) (short : run.length ≤ back.length) :
    Narrower p q := by
  have matchesP := matches_parameter readsP
  have matchesQ := @matches_parameter q front nameQ [] readsQ
  refine ⟨fun path found => ?_, path, (matchesQ path).mpr ⟨run, filled, segmentRun, ?_⟩, ?_⟩
  · obtain ⟨run, filled, segmentRun, isPath⟩ := (matchesP path).mp found
    refine (matchesQ path).mpr ⟨run ++ back, by simp [filled], ?_, by simp [isPath]⟩
    intro c member
    exact (List.mem_append.mp member).elim (segmentRun c) (segments c)
  · rw [isPath, List.append_nil]
  · intro found
    obtain ⟨other, otherFilled, -, otherPath⟩ := (matchesP path).mp found
    rw [isPath, List.append_assoc, List.append_cancel_left_eq] at otherPath
    have longer := congrArg List.length otherPath
    rw [List.length_append] at longer
    have := List.length_pos_iff.mpr otherFilled
    omega

/-- A pattern for text files before one for all files. -/
theorem text_files_reachable :
    NotShadowed "/files/\x7bname\x7d.txt".toList "/files/\x7bother\x7d".toList :=
  (notShadowed_iff (parsePattern_of_read rfl) (parsePattern_of_read rfl)
    (@narrower_of_suffix _ _ "/files/".toList "name".toList "other".toList ".txt".toList rfl rfl
      (List.all_eq_true.mp rfl) "/files/a".toList ['a'] rfl (by simp) (List.all_eq_true.mp rfl)
      (by decide))).mpr
    (.inl (by decide))

/-- A pattern for text files behind one for all files: the text of the general
pattern is a part of the other one and sorts before it. -/
theorem text_files_shadowed :
    ¬ ∀ p q, (∃ parsed, parsePattern p = .ok parsed) → (∃ parsed, parsePattern q = .ok parsed) →
      Narrower p q → NotShadowed p q := by
  intro notShadowed
  have readsP : Template.read "/files/\x7bname\x7d.txt".toList =
      some ("/files/".toList.map Part.literal ++
        .parameter "name".toList :: ".txt".toList.map Part.literal) := rfl
  have readsQ : Template.read "/files/\x7bname\x7d".toList =
      some ("/files/".toList.map Part.literal ++ [.parameter "name".toList]) := rfl
  have acceptedP := parsePattern_of_read readsP
  have acceptedQ := parsePattern_of_read readsQ
  have narrower := narrower_of_suffix readsP readsQ (List.all_eq_true.mp rfl) "/files/a".toList
    ['a'] rfl (by simp) (List.all_eq_true.mp rfl) (by decide)
  have found : Matches "/files/\x7bname\x7d.txt".toList "/files/a.txt".toList :=
    (matches_parameter readsP _).mpr ⟨['a'], by simp, List.all_eq_true.mp rfl, by decide⟩
  exact not_notShadowed acceptedP acceptedQ narrower (by decide) found
    (notShadowed _ _ ⟨_, acceptedP⟩ ⟨_, acceptedQ⟩ narrower)

end Foxhttp.Router
