import Foxhttp.Library.Text

/-!
# Request paths

The route table compares paths in a normal form: a leading slash, and no
trailing slash except for the root. `Canonical` says which paths
`normalizePath` leaves alone.
-/

namespace Foxhttp.Router

open Foxhttp.Library

/-- `strip_trailing_slash`. -/
def stripTrailingSlash (s : Text) : Text :=
  if 1 < s.length ∧ s.getLast? = some '/' then Text.substr s 0 (s.length - 1) else s

/-- `RouteTable::normalize_path`. -/
def normalizePath (path : Text) : Text :=
  if path.isEmpty then ['/']
  else stripTrailingSlash (if path.head? = some '/' then path else '/' :: path)

mutual

/-- The loop of `count_segments` which skips slashes. -/
def countSegments : Text → Nat
  | [] => 0
  | c :: rest => if c = '/' then countSegments rest else countSegmentsInside rest + 1

/-- The loop of `count_segments` which skips the rest of a segment. -/
def countSegmentsInside : Text → Nat
  | [] => 0
  | c :: rest => if c = '/' then countSegments rest else countSegmentsInside rest

end

/-- A leading slash, and no trailing slash except for the root. -/
def Canonical (path : Text) : Prop :=
  path.head? = some '/' ∧ (path.getLast? = some '/' → path = ['/'])

theorem stripTrailingSlash_cases (s : Text) :
    stripTrailingSlash s = s ∧ (s.getLast? = some '/' → s.length ≤ 1) ∨
      s = stripTrailingSlash s ++ ['/'] ∧ stripTrailingSlash s ≠ [] := by
  rw [stripTrailingSlash]
  split
  · rename_i trailing
    obtain ⟨long, last⟩ := trailing
    obtain ⟨front, rfl⟩ := List.getLast?_eq_some_iff.mp last
    have isFront : Text.substr (front ++ ['/']) 0 ((front ++ ['/']).length - 1) = front := by
      simp [Text.substr]
    rw [isFront]
    refine .inr ⟨rfl, fun empty => ?_⟩
    simp [empty] at long
  · rename_i kept
    exact .inl ⟨rfl, fun last => Nat.le_of_not_lt fun long => kept ⟨long, last⟩⟩

theorem head?_stripTrailingSlash {s : Text} (head : s.head? = some '/') :
    (stripTrailingSlash s).head? = some '/' := by
  rcases stripTrailingSlash_cases s with ⟨kept, -⟩ | ⟨split, filled⟩
  · rw [kept, head]
  · obtain ⟨first, front, isCons⟩ := List.exists_cons_of_ne_nil filled
    rw [isCons] at split ⊢
    rw [split] at head
    exact head

/-- A normalised path starts with a slash. -/
theorem head?_normalizePath (path : Text) : (normalizePath path).head? = some '/' := by
  rw [normalizePath]
  split
  · rfl
  · split
    · rename_i head
      exact head?_stripTrailingSlash head
    · exact head?_stripTrailingSlash rfl

/-- A path with a leading slash is its own normal form, or its normal form is
one slash short of it. -/
theorem normalizePath_cases {path : Text} (head : path.head? = some '/') :
    normalizePath path = path ∧ Canonical path ∨
      path = normalizePath path ++ ['/'] ∧ ¬ Canonical path := by
  have isStrip : normalizePath path = stripTrailingSlash path := by
    rw [normalizePath, if_neg, if_pos head]
    rintro empty
    rw [List.isEmpty_iff.mp empty] at head
    cases head
  rw [isStrip]
  rcases stripTrailingSlash_cases path with ⟨kept, short⟩ | ⟨split, filled⟩
  · refine .inl ⟨kept, head, fun last => ?_⟩
    match path, head, short last with
    | [first], head, _ =>
        cases head
        rfl
  · refine .inr ⟨split, fun canonical => ?_⟩
    have last : path.getLast? = some '/' := by rw [split, List.getLast?_concat]
    rw [canonical.2 last] at split filled
    exact filled (List.self_eq_append_left.mp split)

/-- The paths which `normalizePath` leaves alone. -/
theorem normalizePath_eq_self_iff (path : Text) : normalizePath path = path ↔ Canonical path := by
  constructor
  · intro same
    have head := head?_normalizePath path
    rw [same] at head
    rcases normalizePath_cases head with ⟨-, canonical⟩ | ⟨longer, -⟩
    · exact canonical
    · rw [same] at longer
      simp at longer
  · intro canonical
    rcases normalizePath_cases canonical.1 with ⟨same, -⟩ | ⟨-, not⟩
    · exact same
    · exact absurd canonical not

end Foxhttp.Router
