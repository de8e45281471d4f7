import Mathlib.Data.List.Perm.Subperm
import Mathlib.Data.List.Nodup
import Mathlib.Data.Nat.ModEq
import Mathlib.Logic.Relation

/-!
# Turns

A counter which wraps around, reduced by a number of places, goes over the places in
turns. Where it wraps in the middle of a round, the round is fair only when the
number of places divides the number of values of the counter. Raising the least of
some counts, one at a time, levels them.
-/

namespace Foxhttp.Library

/-! ## A counter which wraps around -/

/-- The place of a turn, from a counter with so many values. -/
def turnOf (values size start turn : Nat) : Nat :=
  (start + turn) % values % size

/-- The places of as many turns in a row as there are places. -/
def roundFrom (values size start : Nat) : List Nat :=
  (List.range size).map (turnOf values size start)

/-- A round takes every place once. -/
def Fair (size : Nat) (round : List Nat) : Prop :=
  round.Perm (List.range size)

/-- A round with no place twice is fair. -/
theorem fair_of_nodup {values size start : Nat}
    (nodup : (roundFrom values size start).Nodup) : Fair size (roundFrom values size start) := by
  have below : roundFrom values size start ⊆ List.range size := by
    intro place member
    obtain ⟨turn, isTurn, rfl⟩ := List.mem_map.mp member
    exact List.mem_range.mpr (Nat.mod_lt _ (Nat.zero_lt_of_lt (List.mem_range.mp isTurn)))
  refine (nodup.subperm below).perm_of_length_le ?_
  simp [roundFrom]

theorem fair_of_injOn {values size start : Nat}
    (distinct : ∀ first < size, ∀ second < size,
      turnOf values size start first = turnOf values size start second → first = second) :
    Fair size (roundFrom values size start) := by
  refine fair_of_nodup (List.Nodup.map_on ?_ List.nodup_range)
  intro first isFirst second isSecond
  exact distinct first (List.mem_range.mp isFirst) second (List.mem_range.mp isSecond)

/-- Turns of a fair round have places of their own. -/
theorem Fair.injOn {values size start first second : Nat}
    (fair : Fair size (roundFrom values size start)) (isFirst : first < size)
    (isSecond : second < size)
    (same : turnOf values size start first = turnOf values size start second) : first = second :=
  List.inj_on_of_nodup_map ((List.Perm.nodup_iff fair).mpr List.nodup_range)
    (List.mem_range.mpr isFirst) (List.mem_range.mpr isSecond) same

/-- Numbers which are closer than a modulus have different remainders. -/
theorem eq_of_mod_eq {size start first second : Nat} (isFirst : first < size)
    (isSecond : second < size) (same : (start + first) % size = (start + second) % size) :
    first = second := by
  have congruent : first ≡ second [MOD size] := Nat.ModEq.add_left_cancel' start same
  exact congruent.eq_of_lt_of_lt isFirst isSecond

/-- **A round is fair** exactly when the counter does not wrap in it, or the places
divide the values of the counter. -/
theorem fair_roundFrom_iff {values size start : Nat} (below : start < values) (some : 0 < size)
    (fits : size ≤ values) :
    Fair size (roundFrom values size start) ↔ start + size ≤ values ∨ size ∣ values := by
  constructor
  · intro fair
    by_contra neither
    obtain ⟨wraps, remains⟩ := not_or.mp neither
    -- `left` turns come before the counter wraps, and `rest` places are over.
    obtain ⟨left, isLeft⟩ := Nat.exists_eq_add_of_lt below
    have positive : 0 < values % size := Nat.pos_of_ne_zero fun isZero =>
      remains (Nat.dvd_of_mod_eq_zero isZero)
    have less : values % size < size := Nat.mod_lt _ some
    have whole : values % size + size * (values / size) = values := Nat.mod_add_div values size
    by_cases reaches : values % size ≤ left + 1
    · -- Place 0 comes again where the counter wraps.
      have before : turnOf values size start (left + 1 - values % size) = 0 := by
        have here : start + (left + 1 - values % size) = size * (values / size) := by omega
        rw [turnOf, here, Nat.mod_eq_of_lt (by omega : size * (values / size) < values),
          Nat.mul_mod_right]
      have after : turnOf values size start (left + 1) = 0 := by
        have here : start + (left + 1) = values := by omega
        rw [turnOf, here, Nat.mod_self, Nat.zero_mod]
      have same := fair.injOn (by omega) (by omega) (before.trans after.symm)
      omega
    · -- The place of the first turn comes again behind the wrap.
      have first : turnOf values size start 0 = values % size - (left + 1) := by
        have here : start + 0 = (values % size - (left + 1)) + size * (values / size) := by omega
        have inside : values % size - (left + 1) + size * (values / size) < values := by omega
        rw [turnOf, here, Nat.mod_eq_of_lt inside, Nat.add_mul_mod_self_left,
          Nat.mod_eq_of_lt (by omega)]
      have again : turnOf values size start (values % size) = values % size - (left + 1) := by
        have here : start + values % size = (values % size - (left + 1)) + values := by omega
        have inside : values % size - (left + 1) < values := by omega
        rw [turnOf, here, Nat.add_mod_right, Nat.mod_eq_of_lt inside,
          Nat.mod_eq_of_lt (by omega)]
      have same := fair.injOn some less (first.trans again.symm)
      omega
  · rintro (within | divides)
    · refine fair_of_injOn fun first isFirst second isSecond same => ?_
      rw [turnOf, turnOf, Nat.mod_eq_of_lt (by omega : start + first < values),
        Nat.mod_eq_of_lt (by omega : start + second < values)] at same
      exact eq_of_mod_eq isFirst isSecond same
    · refine fair_of_injOn fun first isFirst second isSecond same => ?_
      rw [turnOf, turnOf, Nat.mod_mod_of_dvd _ divides, Nat.mod_mod_of_dvd _ divides] at same
      exact eq_of_mod_eq isFirst isSecond same

/-! ## Raising the least -/

/-- One of the least counts is raised by one. -/
def Raises (before after : List Nat) : Prop :=
  ∃ index least, before[index]? = some least ∧ (∀ other ∈ before, least ≤ other) ∧
    after = before.set index (least + 1)

/-- **Raising the least levels the counts**: what has been raised at all is at most
one above any other count. -/
theorem levelled {start counts : List Nat} (raised : Relation.ReflTransGen Raises start counts)
    {i j first before other : Nat} (isFirst : counts[i]? = some first)
    (wasFirst : start[i]? = some before) (isOther : counts[j]? = some other) :
    first ≤ max before (other + 1) := by
  induction raised generalizing first other with
  | refl =>
      cases isFirst.symm.trans wasFirst
      exact Nat.le_max_left _ _
  | @tail counts raised _ step inductionHypothesis =>
      obtain ⟨index, least, isLeast, below, rfl⟩ := step
      have inside := (List.getElem?_eq_some_iff.mp isLeast).1
      rw [List.getElem?_set, if_pos inside] at isFirst isOther
      have otherBefore : ∃ earlier, counts[j]? = some earlier ∧ earlier ≤ other := by
        split at isOther
        · rename_i here
          cases isOther
          exact ⟨least, here ▸ isLeast, Nat.le_succ _⟩
        · exact ⟨other, isOther, Nat.le_refl _⟩
      obtain ⟨earlier, isEarlier, grows⟩ := otherBefore
      split at isFirst
      · rename_i here
        cases isFirst
        have atMost := below earlier (List.mem_of_getElem? isEarlier)
        omega
      · have known := inductionHypothesis isFirst isEarlier
        omega

end Foxhttp.Library
