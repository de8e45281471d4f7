import Mathlib.Data.List.DropRight
import Mathlib.Logic.Relation
import Foxhttp.Router.Table

/-!
# Spellings of a path

A path may be written without its leading slash and with slashes at its end.
`normalizePath` takes one slash off the end, so a spelling with more of them is
left with a normal form of its own, and a static route registered under another
spelling is not found.
-/

namespace Foxhttp.Router

open Foxhttp.Library

/-! ## Spellings -/

/-- The second path is the first with a slash added. -/
inductive Respelling : Text → Text → Prop where
  | leading {path : Text} (missing : path.head? ≠ some '/') : Respelling path ('/' :: path)
  | trailing (path : Text) : Respelling path (path ++ ['/'])

/-- The paths differ in a missing leading slash and in the slashes at their ends. -/
def Respelled : Text → Text → Prop :=
  Relation.EqvGen Respelling

/-- The path with a leading slash. -/
def slashed (path : Text) : Text :=
  if path.head? = some '/' then path else '/' :: path

/-- The path without the slashes at its end. -/
def unslashed (path : Text) : Text :=
  path.rdropWhile (· == '/')

/-- The canonical spelling of a path. -/
def rooted (path : Text) : Text :=
  slashed (unslashed path)

/-- How many slashes the path has at its end, after the canonical spelling. -/
def trailingSlashes (path : Text) : Nat :=
  (slashed path).length - (rooted path).length

theorem head?_slashed (path : Text) : (slashed path).head? = some '/' := by
  rw [slashed]
  split
  · assumption
  · rfl

theorem getLast?_unslashed (path : Text) : (unslashed path).getLast? ≠ some '/' := by
  intro last
  have filled : unslashed path ≠ [] := by
    rintro empty
    rw [empty] at last
    cases last
  have stops := List.rdropWhile_last_not (· == '/') path filled
  rw [List.getLast?_eq_some_getLast filled] at last
  exact stops (beq_iff_eq.mpr (Option.some.inj last))

theorem canonical_rooted (path : Text) : Canonical (rooted path) := by
  refine ⟨head?_slashed _, fun last => ?_⟩
  rw [rooted, slashed] at last ⊢
  split at last
  · exact absurd last (getLast?_unslashed path)
  · rename_i missing
    rw [if_neg missing]
    cases isCore : unslashed path with
    | nil => rfl
    | cons c core =>
        rw [isCore, List.getLast?_cons_cons, ← isCore] at last
        exact absurd last (getLast?_unslashed path)

theorem append_slashes_succ (path : Text) (count : Nat) :
    path ++ List.replicate (count + 1) '/' = (path ++ List.replicate count '/') ++ ['/'] := by
  rw [List.replicate_succ', ← List.append_assoc]

/-- Slashes at the end are taken off a path which does not end with one. -/
theorem unslashed_append {core : Text} (stops : core.getLast? ≠ some '/') (count : Nat) :
    unslashed (core ++ List.replicate count '/') = core := by
  induction count with
  | zero =>
      rw [List.replicate_zero, List.append_nil, unslashed, List.rdropWhile_eq_self_iff]
      intro filled isSlash
      rw [List.getLast?_eq_some_getLast filled, beq_iff_eq.mp isSlash] at stops
      exact stops rfl
  | succ count inductionHypothesis =>
      rw [append_slashes_succ, unslashed, List.rdropWhile_concat_pos _ _ _ rfl]
      exact inductionHypothesis

theorem unslashed_split (path : Text) :
    ∃ count, path = unslashed path ++ List.replicate count '/' := by
  refine ⟨(path.rtakeWhile (· == '/')).length, ?_⟩
  have slashes : path.rtakeWhile (· == '/') =
      List.replicate (path.rtakeWhile (· == '/')).length '/' :=
    List.eq_replicate_iff.mpr ⟨rfl, fun c member => by simpa using List.mem_rtakeWhile_imp member⟩
  rw [unslashed, ← slashes, List.rdropWhile_append_rtakeWhile]

/-- A path with a leading slash is its canonical spelling and the slashes at its end. -/
theorem slashed_split (path : Text) :
    slashed path = rooted path ++ List.replicate (trailingSlashes path) '/' := by
  have split : ∃ count, slashed path = rooted path ++ List.replicate count '/' := by
    obtain ⟨count, split⟩ := unslashed_split path
    rw [rooted]
    generalize unslashed path = core at split
    subst split
    cases core with
    | nil =>
        cases count with
        | zero => exact ⟨0, rfl⟩
        | succ count => exact ⟨count, rfl⟩
    | cons c core =>
        refine ⟨count, ?_⟩
        rw [slashed, slashed, List.cons_append, List.head?_cons, List.head?_cons]
        split
        · rfl
        · rfl
  obtain ⟨count, split⟩ := split
  have isCount : trailingSlashes path = count := by
    rw [trailingSlashes, split, List.length_append, List.length_replicate, Nat.add_sub_cancel_left]
  rw [isCount, split]

/-- A path which is canonical up to the slashes at its end has the canonical part
as its canonical spelling. -/
theorem rooted_append {path : Text} (canonical : Canonical path) (count : Nat) :
    rooted (path ++ List.replicate count '/') = path := by
  by_cases last : path.getLast? = some '/'
  · have nothing : unslashed (List.replicate (count + 1) '/') = [] :=
      @unslashed_append [] (by simp) (count + 1)
    rw [canonical.2 last, List.singleton_append, ← List.replicate_succ, rooted, nothing]
    rfl
  · rw [rooted, unslashed_append last, slashed, if_pos canonical.1]

/-- A slash before a path which has none changes nothing. -/
theorem rooted_cons {path : Text} (missing : path.head? ≠ some '/') :
    rooted ('/' :: path) = rooted path := by
  have isSlashed : '/' :: path = slashed path := by rw [slashed, if_neg missing]
  rw [isSlashed, slashed_split, rooted_append (canonical_rooted path)]

theorem rooted_concat (path : Text) : rooted (path ++ ['/']) = rooted path := by
  rw [rooted, unslashed, List.rdropWhile_concat_pos _ _ _ rfl]
  rfl

/-- Spellings of one path have one canonical spelling. -/
theorem Respelled.rooted_eq {path other : Text} (respelled : Respelled path other) :
    rooted path = rooted other := by
  induction respelled with
  | rel path other step =>
      cases step with
      | leading missing => exact (rooted_cons missing).symm
      | trailing => exact (rooted_concat path).symm
  | refl => rfl
  | symm _ _ _ inductionHypothesis => exact inductionHypothesis.symm
  | trans _ _ _ _ _ first second => exact first.trans second

theorem respelled_append (path : Text) (count : Nat) :
    Respelled path (path ++ List.replicate count '/') := by
  induction count with
  | zero =>
      rw [List.replicate_zero, List.append_nil]
      exact .refl path
  | succ count inductionHypothesis =>
      rw [append_slashes_succ]
      exact .trans _ _ _ inductionHypothesis (.rel _ _ (.trailing _))

theorem respelled_slashed (path : Text) : Respelled path (slashed path) := by
  rw [slashed]
  split
  · exact .refl path
  · rename_i missing
    exact .rel _ _ (.leading missing)

/-- Every path is a spelling of its canonical spelling. -/
theorem respelled_rooted (path : Text) : Respelled path (rooted path) := by
  have longer := respelled_append (rooted path) (trailingSlashes path)
  rw [← slashed_split] at longer
  exact .trans _ _ _ (respelled_slashed path) (.symm _ _ longer)

theorem respelled_iff (path other : Text) : Respelled path other ↔ rooted path = rooted other := by
  constructor
  · exact Respelled.rooted_eq
  · intro same
    have back := respelled_rooted other
    rw [← same] at back
    exact .trans _ _ _ (respelled_rooted path) (.symm _ _ back)

instance (path other : Text) : Decidable (Respelled path other) :=
  decidable_of_iff _ (respelled_iff path other).symm

/-! ## Normal forms -/

instance (path : Text) : Decidable (Canonical path) :=
  inferInstanceAs (Decidable (_ ∧ (_ → _)))

/-- How many slashes `normalizePath` leaves at the end, after the canonical spelling. -/
def leftSlashes (path : Text) : Nat :=
  trailingSlashes path - 1

theorem normalizePath_slashed (path : Text) :
    normalizePath (slashed path) = normalizePath path := by
  cases path with
  | nil => rfl
  | cons c path =>
      rw [slashed]
      split
      · rfl
      · rename_i missing
        rw [normalizePath, normalizePath, if_neg missing]
        rfl

/-- More slashes at the end of a canonical path are not canonical. -/
theorem canonical_append_iff {path : Text} (canonical : Canonical path) (count : Nat) :
    Canonical (path ++ List.replicate count '/') ↔ count = 0 := by
  cases count with
  | zero => simpa using canonical
  | succ count =>
      refine iff_of_false (fun longer => ?_) (Nat.succ_ne_zero count)
      rw [append_slashes_succ] at longer
      have isRoot := longer.2 List.getLast?_concat
      have starts := canonical.1
      obtain ⟨rfl, -⟩ := List.append_eq_nil_iff.mp (List.append_left_eq_self.mp isRoot)
      cases starts

/-- `normalizePath` takes one slash off the end. -/
theorem normalizePath_eq (path : Text) :
    normalizePath path = rooted path ++ List.replicate (leftSlashes path) '/' := by
  have canonical := canonical_rooted path
  have counts := canonical_append_iff canonical (trailingSlashes path)
  rw [← slashed_split] at counts
  rw [← normalizePath_slashed, leftSlashes]
  rcases normalizePath_cases (head?_slashed path) with ⟨same, isCanonical⟩ | ⟨longer, not⟩
  · rw [same, slashed_split, counts.mp isCanonical]
  · obtain ⟨count, isCount⟩ := Nat.exists_eq_succ_of_ne_zero (not ∘ counts.mpr)
    have split := slashed_split path
    rw [isCount, append_slashes_succ] at split
    rw [isCount, Nat.succ_sub_one]
    exact (List.append_cancel_right (split.symm.trans longer)).symm

/-- The normal form is canonical, and it is its own normal form. -/
def Normalizes (path : Text) : Prop :=
  Canonical (normalizePath path) ∧ normalizePath (normalizePath path) = normalizePath path

theorem normalizes_iff_leftSlashes (path : Text) : Normalizes path ↔ leftSlashes path = 0 := by
  rw [Normalizes, normalizePath_eq_self_iff, and_self, normalizePath_eq,
    canonical_append_iff (canonical_rooted path)]

/-- The path does not end in two slashes, unless it is these two. -/
def Tidy (path : Text) : Prop :=
  ['/', '/'] <:+ path → path = ['/', '/']

instance (path : Text) : Decidable (Tidy path) :=
  inferInstanceAs (Decidable (_ → _))

theorem tidy_slashed_iff (path : Text) : Tidy (slashed path) ↔ Tidy path := by
  rw [slashed]
  split
  · rfl
  · rename_i missing
    constructor
    · intro tidy doubled
      have isRoot := tidy (doubled.trans (List.suffix_cons '/' path))
      rw [(List.cons_eq_cons.mp isRoot).2] at missing
      exact absurd rfl missing
    · intro tidy doubled
      rcases List.suffix_cons_iff.mp doubled with isRoot | later
      · exact isRoot.symm
      · rw [tidy later] at missing
        exact absurd rfl missing

/-- Two slashes end a path when the second follows a slash. -/
theorem doubled_concat_iff (path : Text) :
    ['/', '/'] <:+ path ++ ['/'] ↔ path.getLast? = some '/' := by
  rw [List.getLast?_eq_some_iff]
  constructor
  · rintro ⟨front, split⟩
    have lasts : (front ++ ['/']) ++ ['/'] = path ++ ['/'] := by
      rw [← split, List.append_assoc]
      rfl
    exact ⟨front, (List.append_cancel_right lasts).symm⟩
  · rintro ⟨front, rfl⟩
    exact ⟨front, (List.append_assoc front ['/'] ['/']).symm⟩

theorem Canonical.tidy {path : Text} (canonical : Canonical path) : Tidy path := by
  rintro ⟨front, rfl⟩
  have isRoot := canonical.2 (by simp)
  have lengths := congrArg List.length isRoot
  simp at lengths

theorem Canonical.tidy_concat {path : Text} (canonical : Canonical path) :
    Tidy (path ++ ['/']) := by
  intro doubled
  rw [canonical.2 ((doubled_concat_iff path).mp doubled)]
  rfl

/-- The tidy paths are those on which no slash is left. -/
theorem tidy_iff_leftSlashes (path : Text) : Tidy path ↔ leftSlashes path = 0 := by
  have canonical := canonical_rooted path
  rw [← tidy_slashed_iff, slashed_split, leftSlashes]
  cases trailingSlashes path with
  | zero => simpa using canonical.tidy
  | succ count =>
      cases count with
      | zero => simpa using canonical.tidy_concat
      | succ count =>
          refine iff_of_false (fun tidy => ?_) (Nat.succ_ne_zero count)
          rw [append_slashes_succ] at tidy
          have last : (rooted path ++ List.replicate (count + 1) '/').getLast? = some '/' := by
            rw [append_slashes_succ, List.getLast?_concat]
          have isRoot : rooted path ++ List.replicate (count + 1) '/' = ['/'] :=
            List.append_cancel_right (tidy ((doubled_concat_iff _).mpr last))
          have rootCanonical : Canonical ['/'] := ⟨rfl, fun _ => rfl⟩
          rw [← isRoot, canonical_append_iff canonical] at rootCanonical
          cases rootCanonical

/-! ## Static routes -/

/-- A static route registered under the first path is found under the second. -/
def AddressSameRoute (path other : Text) : Prop :=
  ∀ (H : Type) (table : RouteTable H) (method : Verb) (handler : H) (ctx : RequestContext),
    (table.addStaticRoute path method (some handler)).resolveRouteWithMethod other method ctx =
      ⟨some handler, [], ctx⟩

theorem addressSameRoute_iff (path other : Text) :
    AddressSameRoute path other ↔ normalizePath path = normalizePath other := by
  constructor
  · intro found
    by_contra different
    have missed : (RouteTable.empty.addStaticRoute path .get (some ())).resolveRouteWithMethod
        other .get ⟨∅⟩ = ⟨none, [], ⟨∅⟩⟩ := by
      rw [RouteTable.resolveRouteWithMethod, RouteTable.addStaticRoute]
      simp only
      rw [AList.lookup_insert_ne (Ne.symm different)]
      rfl
    rw [found] at missed
    cases missed
  · intro same H table method handler ctx
    rw [RouteTable.resolveRouteWithMethod, RouteTable.addStaticRoute]
    simp only
    rw [← same, AList.lookup_insert]
    simp [StaticRoute.matchesMethod]

/-- Spellings of one path address the same static route exactly when the same
number of slashes is left on both. -/
theorem addressSameRoute_iff_leftSlashes {path other : Text} (respelled : Respelled path other) :
    AddressSameRoute path other ↔ leftSlashes path = leftSlashes other := by
  rw [addressSameRoute_iff, normalizePath_eq, normalizePath_eq, respelled.rooted_eq,
    List.append_cancel_left_eq, List.replicate_left_inj]

/-- Spellings of one path have canonical normal forms, which stay as they are, and
address the same static route, exactly when both are tidy. -/
theorem normalizes_alike_iff {path other : Text} (respelled : Respelled path other) :
    Normalizes path ∧ Normalizes other ∧ AddressSameRoute path other ↔
      Tidy path ∧ Tidy other := by
  rw [addressSameRoute_iff_leftSlashes respelled, normalizes_iff_leftSlashes,
    normalizes_iff_leftSlashes, tidy_iff_leftSlashes, tidy_iff_leftSlashes]
  constructor
  · rintro ⟨first, second, -⟩
    exact ⟨first, second⟩
  · rintro ⟨first, second⟩
    exact ⟨first, second, first.trans second.symm⟩

/-- A missing leading slash and one slash at the end. -/
theorem normalizes_alike_users :
    Normalizes "users/".toList ∧ Normalizes "/users".toList ∧
      AddressSameRoute "users/".toList "/users".toList :=
  (normalizes_alike_iff (by decide)).mpr (by decide)

/-- A second slash at the end is left in the normal form, which has another normal
form, and the route is missed. -/
theorem second_slash_left :
    Respelled "/users".toList "/users//".toList ∧
      normalizePath "/users//".toList = "/users/".toList ∧
      normalizePath "/users/".toList = "/users".toList ∧
      ¬ AddressSameRoute "/users".toList "/users//".toList := by
  refine ⟨by decide, by decide, by decide, ?_⟩
  rw [addressSameRoute_iff]
  decide

end Foxhttp.Router
