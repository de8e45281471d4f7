import Mathlib.Data.List.Basic

/-!
# The first of the best

A loop over candidates, some of which have a rating, keeps the one which is
rated above everything before it. It ends with the first of the candidates with
the highest rating, and there is one such candidate at most.
-/

namespace Foxhttp.Library

universe u

variable {α : Type u} (rating : α → Option Int)

/-- The loop: the best candidate so far, and its rating. -/
def keepBest : List α → Int → Option α → Option α
  | [], _, best => best
  | candidate :: rest, bestRating, best =>
      match rating candidate with
      | none => keepBest rest bestRating best
      | some value =>
          if bestRating < value then keepBest rest value (some candidate)
          else keepBest rest bestRating best

/-- No candidate is rated above `value`. -/
def AtMost (candidates : List α) (value : Int) : Prop :=
  ∀ candidate ∈ candidates, ∀ other, rating candidate = some other → other ≤ value

/-- A candidate rated `value`, which nothing before it reaches and nothing behind
it exceeds. -/
structure FirstBest (candidates : List α) (choice : α) (value : Int) : Prop where
  rated : rating choice = some value
  split : ∃ before after, candidates = before ++ choice :: after ∧
    AtMost rating before (value - 1) ∧ AtMost rating after value

variable {rating} {candidates rest : List α} {candidate choice other : α}
  {value bound otherValue : Int}

namespace AtMost

theorem cons (rated : rating candidate = some value) (below : value ≤ bound)
    (atMost : AtMost rating rest bound) : AtMost rating (candidate :: rest) bound := by
  intro other member otherValue isOther
  rcases List.mem_cons.mp member with rfl | later
  · cases rated.symm.trans isOther
    exact below
  · exact atMost other later otherValue isOther

theorem cons_unrated (unrated : rating candidate = none) (atMost : AtMost rating rest bound) :
    AtMost rating (candidate :: rest) bound := by
  intro other member otherValue isOther
  rcases List.mem_cons.mp member with rfl | later
  · cases unrated.symm.trans isOther
  · exact atMost other later otherValue isOther

end AtMost

namespace FirstBest

/-- A candidate in front which is not rated as high does not matter. -/
theorem cons (best : FirstBest rating rest choice value)
    (atMost : AtMost rating [candidate] (value - 1)) :
    FirstBest rating (candidate :: rest) choice value := by
  obtain ⟨before, after, rfl, earlier, later⟩ := best.split
  refine ⟨best.rated, candidate :: before, after, rfl, ?_, later⟩
  intro other member otherValue isOther
  rcases List.mem_cons.mp member with rfl | inBefore
  · exact atMost other (List.mem_singleton_self other) otherValue isOther
  · exact earlier other inBefore otherValue isOther

theorem mem (best : FirstBest rating candidates choice value) : choice ∈ candidates := by
  obtain ⟨before, after, rfl, -⟩ := best.split
  exact List.mem_append_right _ List.mem_cons_self

theorem atMost (best : FirstBest rating candidates choice value) :
    AtMost rating candidates value := by
  obtain ⟨before, after, rfl, earlier, later⟩ := best.split
  intro other member otherValue isOther
  rcases List.mem_append.mp member with inBefore | inRest
  · exact Int.le_trans (earlier other inBefore otherValue isOther)
      (Int.sub_le_self value (by decide))
  · rcases List.mem_cons.mp inRest with rfl | inAfter
    · cases best.rated.symm.trans isOther
      exact Int.le_refl value
    · exact later other inAfter otherValue isOther

/-- There is one first best candidate at most. -/
theorem unique (best : FirstBest rating candidates choice value)
    (also : FirstBest rating candidates other otherValue) : choice = other := by
  have same : value = otherValue :=
    Int.le_antisymm (also.atMost choice best.mem value best.rated)
      (best.atMost other also.mem otherValue also.rated)
  subst same
  obtain ⟨before, after, rfl, earlier, -⟩ := best.split
  obtain ⟨front, back, split, first, -⟩ := also.split
  rcases List.append_eq_append_iff.mp split with
    ⟨middle, isFront, isRest⟩ | ⟨middle, isBefore, isRest⟩
  · cases middle with
    | nil => exact (List.cons.inj isRest).1
    | cons head tail =>
        obtain ⟨rfl, -⟩ := List.cons.inj isRest
        have low := first choice (by simp [isFront]) value best.rated
        omega
  · cases middle with
    | nil => exact (List.cons.inj isRest).1.symm
    | cons head tail =>
        obtain ⟨rfl, -⟩ := List.cons.inj isRest
        have low := earlier other (by simp [isBefore]) value also.rated
        omega

end FirstBest

/-- The loop keeps what it has, or ends with the first of the best. -/
theorem keepBest_cases (candidates : List α) (bound : Int) (best : Option α) :
    (keepBest rating candidates bound best = best ∧ AtMost rating candidates bound) ∨
      ∃ choice value, keepBest rating candidates bound best = some choice ∧ bound < value ∧
        FirstBest rating candidates choice value := by
  induction candidates generalizing bound best with
  | nil => exact .inl ⟨rfl, nofun⟩
  | cons candidate rest inductionHypothesis =>
      rw [keepBest]
      cases rated : rating candidate with
      | none =>
          refine (inductionHypothesis bound best).imp
            (fun kept => ⟨kept.1, kept.2.cons_unrated rated⟩) ?_
          rintro ⟨choice, value, ends, above, first⟩
          exact ⟨choice, value, ends, above, first.cons (.cons_unrated rated nofun)⟩
      | some value =>
          by_cases better : bound < value
          · simp only [if_pos better]
            right
            rcases inductionHypothesis value (some candidate) with
              ⟨kept, atMost⟩ | ⟨choice, higher, ends, above, first⟩
            · exact ⟨candidate, value, kept, better, rated, [], rest, rfl, nofun, atMost⟩
            · exact ⟨choice, higher, ends, Int.lt_trans better above,
                first.cons (.cons rated (Int.le_sub_one_of_lt above) nofun)⟩
          · simp only [if_neg better]
            refine (inductionHypothesis bound best).imp
              (fun kept => ⟨kept.1, kept.2.cons rated (Int.not_lt.mp better)⟩) ?_
            rintro ⟨choice, higher, ends, above, first⟩
            have low : value ≤ higher - 1 := by omega
            exact ⟨choice, higher, ends, above, first.cons (.cons rated low nofun)⟩

/-- Started below every rating, the loop ends with the first of the best, and
with nothing when nothing is rated. -/
theorem keepBest_start (above : ∀ candidate ∈ candidates, ∀ value,
    rating candidate = some value → bound < value) :
    (keepBest rating candidates bound none = none ∧
        ∀ candidate ∈ candidates, rating candidate = none) ∨
      ∃ choice value, keepBest rating candidates bound none = some choice ∧
        FirstBest rating candidates choice value := by
  rcases keepBest_cases candidates bound none with ⟨kept, atMost⟩ | ⟨choice, value, ends, -, first⟩
  · refine .inl ⟨kept, fun candidate member => ?_⟩
    cases rated : rating candidate with
    | none => rfl
    | some value =>
        exact absurd (above candidate member value rated)
          (Int.not_lt.mpr (atMost candidate member value rated))
  · exact .inr ⟨choice, value, ends, first⟩

end Foxhttp.Library
