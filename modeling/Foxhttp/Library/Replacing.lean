import Foxhttp.Library.Text

/-!
# Replacing in place

A loop looks for a needle from a cursor on, replaces what it finds and goes on
behind the replacement. It makes of a text what one pass over the text makes.
-/

namespace Foxhttp.Library.Text

/-- The loop, from a cursor. -/
def replaceFrom {needle : Text} (filled : needle ≠ []) (bytes text : Text) (cursor : Nat) : Text :=
  match _found : findText text needle cursor with
  | none => text
  | some pos =>
      replaceFrom filled bytes (replace text pos needle.length bytes) (pos + bytes.length)
termination_by text.length - cursor
decreasing_by
  obtain ⟨later, ⟨rest, here⟩, -⟩ := prefix_of_findText _found
  have size := congrArg List.length here
  have positive := List.length_pos_iff.mpr filled
  rw [List.length_append, List.length_drop] at size
  simp only [replace, List.length_append, List.length_take, List.length_drop]
  omega

/-- One pass. -/
def replaceAll {needle : Text} (filled : needle ≠ []) (bytes : Text) : Text → Text
  | [] => []
  | c :: rest =>
      if needle <+: c :: rest then
        bytes ++ replaceAll filled bytes ((c :: rest).drop needle.length)
      else c :: replaceAll filled bytes rest
termination_by text => text.length
decreasing_by
  · have positive := List.length_pos_iff.mpr filled
    rw [List.length_drop, List.length_cons]
    omega
  · exact Nat.lt_succ_self _

variable {needle : Text} {filled : needle ≠ []} {bytes : Text}

theorem replaceFrom_none {text : Text} {cursor : Nat}
    (absent : findText text needle cursor = none) :
    replaceFrom filled bytes text cursor = text := by
  rw [replaceFrom]
  split
  · rfl
  · rename_i found
    rw [absent] at found
    cases found

theorem replaceFrom_some {text : Text} {cursor pos : Nat}
    (found : findText text needle cursor = some pos) :
    replaceFrom filled bytes text cursor =
      replaceFrom filled bytes (replace text pos needle.length bytes) (pos + bytes.length) := by
  rw [replaceFrom]
  split
  · rename_i absent
    rw [found] at absent
    cases absent
  · rename_i other foundOther
    rw [found] at foundOther
    cases foundOther
    rfl

@[simp] theorem replaceAll_nil : replaceAll filled bytes [] = [] := by
  rw [replaceAll]

theorem replaceAll_needle (rest : Text) :
    replaceAll filled bytes (needle ++ rest) = bytes ++ replaceAll filled bytes rest := by
  cases split : needle ++ rest with
  | nil => exact absurd (List.append_eq_nil_iff.mp split).1 filled
  | cons c tail =>
      rw [replaceAll, ← split, if_pos (List.prefix_append needle rest), List.drop_left]

theorem replaceAll_cons {c : Char} {rest : Text} (other : ¬ needle <+: c :: rest) :
    replaceAll filled bytes (c :: rest) = c :: replaceAll filled bytes rest := by
  rw [replaceAll, if_neg other]

/-- A front in which the needle does not start stays. -/
theorem replaceAll_skip {front text : Text}
    (absent : ∀ start < front.length, ¬ needle <+: (front ++ text).drop start) :
    replaceAll filled bytes (front ++ text) = front ++ replaceAll filled bytes text := by
  induction front with
  | nil => rfl
  | cons c front inductionHypothesis =>
      have here : ¬ needle <+: c :: (front ++ text) := absent 0 (Nat.zero_lt_succ _)
      rw [List.cons_append, replaceAll_cons here, inductionHypothesis, List.cons_append]
      exact fun start inside => absent (start + 1) (Nat.succ_lt_succ inside)

/-- A text without the needle stays. -/
theorem replaceAll_self {text : Text} (absent : ¬ needle <:+: text) :
    replaceAll filled bytes text = text := by
  have nowhere : ∀ start < text.length, ¬ needle <+: (text ++ []).drop start := by
    intro start _ here
    rw [List.append_nil] at here
    exact absent (here.isInfix.trans (List.drop_suffix start text).isInfix)
  have skipped := @replaceAll_skip needle filled bytes text [] nowhere
  rwa [List.append_nil, replaceAll_nil, List.append_nil] at skipped

/-- The loop makes one pass over what lies behind the cursor. -/
theorem replaceFrom_eq (front text : Text) :
    replaceFrom filled bytes (front ++ text) front.length =
      front ++ replaceAll filled bytes text := by
  induction size : text.length using Nat.strongRecOn generalizing front text with
  | ind long inductionHypothesis =>
    have search := findText_drop (front ++ text) needle front.length
    rw [List.drop_left] at search
    cases found : findText text needle 0 with
    | none =>
        rw [found, Option.map_none] at search
        have absent : ¬ needle <:+: text := findText_eq_none_iff.mp found
        rw [replaceFrom_none search, replaceAll_self absent]
    | some offset =>
        obtain ⟨-, ⟨rest, here⟩, first⟩ := prefix_of_findText found
        have bound := findText_bound filled found
        have positive := List.length_pos_iff.mpr filled
        have split : text.take offset ++ (needle ++ rest) = text := by
          rw [here, List.take_append_drop]
        have offsetIs : (text.take offset).length = offset :=
          List.length_take_of_le (by omega)
        have skipped := @replaceAll_skip needle filled bytes (text.take offset) (needle ++ rest)
          fun start inside => by
            rw [split]
            exact first start (Nat.zero_le _) (by omega)
        have replaced : replace (front ++ text) (front.length + offset) needle.length bytes =
            (front ++ text.take offset ++ bytes) ++ rest := by
          have behind : (front ++ text).drop (front.length + offset + needle.length) = rest := by
            rw [← List.drop_drop, ← List.drop_drop, List.drop_left, ← here, List.drop_left]
          rw [replace, behind, List.take_length_add_append]
        have cursor : (front ++ text.take offset ++ bytes).length =
            front.length + offset + bytes.length := by
          rw [List.length_append, List.length_append, offsetIs]
        have shorter : rest.length < long := by
          have sizes := congrArg List.length split
          simp only [List.length_append] at sizes
          omega
        rw [found, Option.map_some] at search
        rw [split, replaceAll_needle] at skipped
        rw [replaceFrom_some search, replaced, ← cursor,
          inductionHypothesis rest.length shorter _ rest rfl, skipped]
        simp only [List.append_assoc]

end Foxhttp.Library.Text
