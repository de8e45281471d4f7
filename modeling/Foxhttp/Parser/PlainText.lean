import Foxhttp.Library.Utf8

/-!
# The encoding check of the plain-text parser

`is_valid_utf8` steps through a text unit by unit. A step reads the first byte
and the continuation bytes it announces, and nothing else decides: which number
the unit spells is not looked at.
-/

namespace Foxhttp.Parser.PlainText

open Foxhttp.Library

/-- `(bytes[position] & 0xC0) != 0x80` at one position after the other, up to
the first where it holds; nothing where a position is past the end. -/
def anyStray (bytes : List UInt8) : List Nat → Option Bool
  | [] => some false
  | position :: rest => do
      let byte ← bytes[position]?
      if byte &&& 0xC0 != 0x80 then some true else anyStray bytes rest

/-- One turn of the loop of `is_valid_utf8`: the next `i`, or none for `return
false`; nothing where it reads past the end. -/
def turn (bytes : List UInt8) (i : Nat) : Option (Option Nat) := do
  let byte ← bytes[i]?
  if byte < 0x80 then some (some (i + 1))
  else if byte &&& 0xE0 = 0xC0 then
    if i + 1 ≥ bytes.length then some none
    else
      let stray ← anyStray bytes [i + 1]
      some (if stray then none else some (i + 2))
  else if byte &&& 0xF0 = 0xE0 then
    if i + 2 ≥ bytes.length then some none
    else
      let stray ← anyStray bytes [i + 1, i + 2]
      some (if stray then none else some (i + 3))
  else if byte &&& 0xF8 = 0xF0 then
    if i + 3 ≥ bytes.length then some none
    else
      let stray ← anyStray bytes [i + 1, i + 2, i + 3]
      some (if stray then none else some (i + 4))
  else some none

/-! ## One turn -/

theorem anyStray_range (bytes : List UInt8) (start count : Nat)
    (inside : start + count ≤ bytes.length) :
    anyStray bytes (List.range' start count) =
      some (!((bytes.drop start).take count).all Utf8.isTail) := by
  induction count generalizing start with
  | zero => simp [anyStray]
  | succ count inductionHypothesis =>
      have here : start < bytes.length := by omega
      have rest := inductionHypothesis (start + 1) (by omega)
      rw [List.range'_succ, anyStray, List.getElem?_eq_getElem here, Option.bind_eq_bind,
        Option.bind_some, List.drop_eq_getElem_cons here, List.take_succ_cons, List.all_cons, rest]
      by_cases tail : bytes[start] &&& 0xC0 = 0x80 <;> simp [Utf8.isTail, tail]

/-- The branch of a first byte which announces `count` continuation bytes. -/
theorem announcing (bytes : List UInt8) (i count : Nat) :
    (if i + count ≥ bytes.length then some none
      else (anyStray bytes (List.range' (i + 1) count)).bind fun stray =>
        some (if stray = true then none else some (i + (count + 1)))) =
      some (if count + 1 ≠ 0 ∧ i + (count + 1) ≤ bytes.length ∧
          ((bytes.drop (i + 1)).take (count + 1 - 1)).all Utf8.isTail = true
        then some (i + (count + 1)) else none) := by
  split
  · rename_i short
    rw [if_neg (by omega)]
  · rename_i room
    have fits : i + (count + 1) ≤ bytes.length := by omega
    rw [anyStray_range bytes (i + 1) count (by omega), Option.bind_some, Nat.add_sub_cancel]
    cases ((bytes.drop (i + 1)).take count).all Utf8.isTail <;> simp [fits]

/-- A turn reads within the text, and steps over a unit if one stands there. -/
theorem turn_eq {bytes : List UInt8} {i : Nat} (inside : i < bytes.length) :
    turn bytes i = some
      (if Utf8.announced bytes[i] ≠ 0 ∧ i + Utf8.announced bytes[i] ≤ bytes.length ∧
          ((bytes.drop (i + 1)).take (Utf8.announced bytes[i] - 1)).all Utf8.isTail = true
        then some (i + Utf8.announced bytes[i]) else none) := by
  rw [turn, List.getElem?_eq_getElem inside, Option.bind_eq_bind, Option.bind_some]
  simp only [Utf8.announced]
  split
  · have fits : i + 1 ≤ bytes.length := inside
    simp [fits]
  split
  · exact announcing bytes i 1
  split
  · exact announcing bytes i 2
  split
  · exact announcing bytes i 3
  · simp

/-- Whether a unit stands at a position. -/
theorem unit_at {bytes : List UInt8} {i : Nat} (inside : i < bytes.length) :
    (∃ unit rest, Utf8.IsUnit unit ∧ bytes.drop i = unit ++ rest) ↔
      Utf8.announced bytes[i] ≠ 0 ∧ i + Utf8.announced bytes[i] ≤ bytes.length ∧
        ((bytes.drop (i + 1)).take (Utf8.announced bytes[i] - 1)).all Utf8.isTail = true := by
  constructor
  · rintro ⟨unit, rest, isUnit, here⟩
    cases unit with
    | nil => exact isUnit.elim
    | cons lead tails =>
        obtain ⟨length, tail⟩ := isUnit
        rw [List.drop_eq_getElem_cons inside, List.cons_append] at here
        obtain ⟨rfl, after⟩ := List.cons.inj here
        have lengths := congrArg List.length after
        rw [List.length_drop, List.length_append] at lengths
        rw [length, after, Nat.add_sub_cancel, List.take_left]
        exact ⟨Nat.succ_ne_zero _, by omega, List.all_eq_true.mpr tail⟩
  · rintro ⟨leads, fits, tails⟩
    refine ⟨bytes[i] :: (bytes.drop (i + 1)).take (Utf8.announced bytes[i] - 1),
      (bytes.drop (i + 1)).drop (Utf8.announced bytes[i] - 1), ⟨?_, ?_⟩, ?_⟩
    · rw [List.length_take, List.length_drop]
      omega
    · exact List.all_eq_true.mp tails
    · rw [List.cons_append, List.take_append_drop, List.drop_eq_getElem_cons inside]

/-- A turn goes on by the unit it finds. -/
theorem turn_unit {bytes unit rest : List UInt8} {i : Nat} (isUnit : Utf8.IsUnit unit)
    (here : bytes.drop i = unit ++ rest) : turn bytes i = some (some (i + unit.length)) := by
  have inside : i < bytes.length := by
    refine Nat.lt_of_not_le fun beyond => isUnit.ne_nil ?_
    rw [List.drop_eq_nil_of_le beyond] at here
    exact (List.append_eq_nil_iff.mp here.symm).1
  rw [turn_eq inside, if_pos ((unit_at inside).mp ⟨unit, rest, isUnit, here⟩)]
  cases unit with
  | nil => exact isUnit.elim
  | cons lead tails =>
      rw [List.drop_eq_getElem_cons inside, List.cons_append] at here
      rw [(List.cons.inj here).1, isUnit.1, List.length_cons]

theorem turn_no_unit {bytes : List UInt8} {i : Nat} (inside : i < bytes.length)
    (none : ¬ ∃ unit rest, Utf8.IsUnit unit ∧ bytes.drop i = unit ++ rest) :
    turn bytes i = some .none := by
  rw [turn_eq inside, if_neg fun unit => none ((unit_at inside).mpr unit)]

theorem turn_advances {bytes : List UInt8} {i next : Nat} (inside : i < bytes.length)
    (continues : turn bytes i = some (some next)) : i < next := by
  rw [turn_eq inside] at continues
  split at continues
  · rename_i leads
    cases continues
    omega
  · cases continues

/-! ## The loop -/

/-- The loop of `is_valid_utf8` from `i`; nothing where it reads past the end. -/
def isValidUtf8From (bytes : List UInt8) (i : Nat) : Option Bool :=
  if _inside : i < bytes.length then
    match _continues : turn bytes i with
    | none => none
    | some none => some false
    | some (some next) => isValidUtf8From bytes next
  else some true
termination_by bytes.length - i
decreasing_by
  have := turn_advances _inside _continues
  omega

/-- `is_valid_utf8`. -/
def isValidUtf8 (bytes : List UInt8) : Option Bool :=
  isValidUtf8From bytes 0

theorem isValidUtf8From_eq {bytes : List UInt8} {i : Nat} (inside : i < bytes.length) :
    isValidUtf8From bytes i =
      (turn bytes i).bind fun outcome => outcome.elim (some false) (isValidUtf8From bytes) := by
  rw [isValidUtf8From, dif_pos inside]
  split <;> simp [*]

/-- The loop never reads past the end, and returns true exactly when what is
left splits into units. -/
theorem isValidUtf8From_spec (bytes : List UInt8) (i : Nat) (within : i ≤ bytes.length) :
    ∃ verdict, isValidUtf8From bytes i = some verdict ∧
      (verdict = true ↔ ∃ units, Utf8.Splits (bytes.drop i) units) := by
  by_cases inside : i < bytes.length
  · by_cases found : ∃ unit rest, Utf8.IsUnit unit ∧ bytes.drop i = unit ++ rest
    · obtain ⟨unit, rest, isUnit, here⟩ := found
      have after : bytes.drop (i + unit.length) = rest := by
        rw [← List.drop_drop, here, List.drop_left]
      have lengths := congrArg List.length here
      rw [List.length_drop, List.length_append] at lengths
      have shorter : bytes.length - (i + unit.length) < bytes.length - i := by
        have := List.length_pos_iff.mpr isUnit.ne_nil
        omega
      obtain ⟨verdict, returned, meaning⟩ :=
        isValidUtf8From_spec bytes (i + unit.length) (by omega)
      refine ⟨verdict, ?_, ?_⟩
      · rw [isValidUtf8From_eq inside, turn_unit isUnit here, Option.bind_some, Option.elim_some,
          returned]
      · rw [meaning, here, after, Utf8.exists_splits_append isUnit]
    · refine ⟨false, ?_, ?_⟩
      · rw [isValidUtf8From_eq inside, turn_no_unit inside found, Option.bind_some,
          Option.elim_none]
      · have none : ¬ ∃ units, Utf8.Splits (bytes.drop i) units := fun ⟨units, splits⟩ =>
          found (splits.first (by simpa using inside))
        simp [none]
  · refine ⟨true, by rw [isValidUtf8From, dif_neg inside], fun _ => ⟨[], ?_, ?_⟩, fun _ => rfl⟩
    · rw [List.drop_eq_nil_of_le (by omega), List.flatten_nil]
    · exact List.forall_mem_nil _
termination_by bytes.length - i

/-- `is_valid_utf8` returns true exactly for the texts which split into units. -/
theorem isValidUtf8_spec (bytes : List UInt8) :
    ∃ verdict, isValidUtf8 bytes = some verdict ∧
      (verdict = true ↔ ∃ units, Utf8.Splits bytes units) :=
  isValidUtf8From_spec bytes 0 (Nat.zero_le _)

/-- **What is accepted is well-formed UTF-8** exactly for the texts which do not
split into units, or split into units none of which is overlong, a surrogate or
above U+10FFFF. No text is read past its end. -/
theorem isValidUtf8_iff (bytes : List UInt8) :
    (∃ verdict, isValidUtf8 bytes = some verdict ∧ (verdict = true ↔ Utf8.WellFormed bytes)) ↔
      ∀ units, Utf8.Splits bytes units → ∀ unit ∈ units, ¬ Utf8.Forbidden unit := by
  obtain ⟨verdict, returned, meaning⟩ := isValidUtf8_spec bytes
  rw [Utf8.wellFormed_iff, returned]
  constructor
  · rintro ⟨same, isSame, right⟩ units splits
    rw [Option.some.inj isSame] at meaning
    obtain ⟨others, splitsOther, allowed⟩ := right.mp (meaning.mpr ⟨units, splits⟩)
    rw [splits.unique splitsOther]
    exact allowed
  · intro allowed
    refine ⟨verdict, rfl, meaning.trans ?_⟩
    exact ⟨fun ⟨units, splits⟩ => ⟨units, splits, allowed units splits⟩,
      fun ⟨units, splits, _⟩ => ⟨units, splits⟩⟩

/-- The overlong form of NUL is accepted. -/
theorem overlong_accepted :
    ¬ ∀ bytes : List UInt8, isValidUtf8 bytes = some true ↔ Utf8.WellFormed bytes := by
  intro acceptsExactly
  have isUnit : Utf8.IsUnit [0xC0, 0x80] := ⟨rfl, List.forall_mem_singleton.mpr rfl⟩
  have splits : Utf8.Splits [0xC0, 0x80] [[0xC0, 0x80]] :=
    ⟨rfl, List.forall_mem_singleton.mpr isUnit⟩
  obtain ⟨verdict, returned, meaning⟩ := isValidUtf8_spec [0xC0, 0x80]
  rw [meaning.mpr ⟨_, splits⟩] at returned
  obtain ⟨units, splitsOther, allowed⟩ := Utf8.wellFormed_iff.mp ((acceptsExactly _).mp returned)
  rw [← splits.unique splitsOther] at allowed
  exact allowed _ List.mem_cons_self (.overlong (by decide))

end Foxhttp.Parser.PlainText
