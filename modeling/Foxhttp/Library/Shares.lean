import Mathlib.Algebra.GroupWithZero.Nat

/-!
# Shares of a draw

A number below the sum of some weights falls to the first place whose weight,
with those before it, exceeds the number. The numbers which fall to a place are
as many as its weight, so the places share the numbers by their weights.
-/

namespace Foxhttp.Library

/-- The place to which a draw falls. -/
def shareOf : List Nat → Nat → Option Nat
  | [], _ => none
  | weight :: weights, draw =>
      if draw < weight then some 0 else (shareOf weights (draw - weight)).map (· + 1)

/-- A draw below the sum falls to a place with some weight. -/
theorem shareOf_of_lt {weights : List Nat} {draw : Nat} (below : draw < weights.sum) :
    ∃ place weight, shareOf weights draw = some place ∧ weights[place]? = some weight ∧
      0 < weight := by
  induction weights generalizing draw with
  | nil => cases below
  | cons weight weights inductionHypothesis =>
      rw [shareOf]
      by_cases here : draw < weight
      · exact ⟨0, weight, if_pos here, rfl, Nat.zero_lt_of_lt here⟩
      · rw [List.sum_cons] at below
        obtain ⟨place, other, falls, isOther, positive⟩ :=
          @inductionHypothesis (draw - weight) (by omega)
        exact ⟨place + 1, other, by rw [if_neg here, falls]; rfl, isOther, positive⟩

/-- As many draws below the sum fall to a place as it has weight. -/
theorem countP_shareOf {weights : List Nat} {place weight : Nat}
    (here : weights[place]? = some weight) :
    (List.range weights.sum).countP (fun draw => shareOf weights draw = some place) = weight := by
  induction weights generalizing place with
  | nil => cases here
  | cons first weights inductionHypothesis =>
      -- the draws below the first weight fall to the first place, the others behind it
      have front (draw : Nat) (member : draw ∈ List.range first) :
          shareOf (first :: weights) draw = some 0 := if_pos (List.mem_range.mp member)
      have back (draw : Nat) : shareOf (first :: weights) (first + draw) =
          (shareOf weights draw).map (· + 1) := by
        rw [shareOf, if_neg (Nat.not_lt.mpr (Nat.le_add_right first draw)), Nat.add_sub_cancel_left]
      rw [List.sum_cons, List.range_add, List.countP_append, List.countP_map]
      cases place with
      | zero =>
          cases here
          have all : (List.range weight).countP
              (fun draw => shareOf (weight :: weights) draw = some 0) = weight := by
            rw [List.countP_eq_length.mpr fun draw member => by simpa using front draw member,
              List.length_range]
          have none : (List.range weights.sum).countP
              ((fun draw => decide (shareOf (weight :: weights) draw = some 0)) ∘
                (weight + ·)) = 0 :=
            List.countP_eq_zero.mpr fun draw _ => by simp [back]
          rw [all, none, Nat.add_zero]
      | succ place =>
          have none : (List.range first).countP
              (fun draw => shareOf (first :: weights) draw = some (place + 1)) = 0 :=
            List.countP_eq_zero.mpr fun draw member => by simp [front draw member]
          have rest : (List.range weights.sum).countP
              ((fun draw => decide (shareOf (first :: weights) draw = some (place + 1))) ∘
                (first + ·)) = weight := by
            rw [← inductionHypothesis here]
            refine List.countP_congr fun draw _ => ?_
            simp [back]
          rw [none, rest, Nat.zero_add]

end Foxhttp.Library
