import Mathlib.Data.List.Flatten

/-!
# UTF-8

A text in UTF-8 (RFC 3629) is the encoding of a list of characters, that is of
Unicode scalar values. Its bytes also split into units, each a first byte and
the continuation bytes it announces. Not every list of units is such a text:
a unit may be overlong, or stand for a surrogate or a number above U+10FFFF.
-/

namespace Foxhttp.Library.Utf8

/-- Well-formed UTF-8: the bytes of a list of characters. -/
def WellFormed (bytes : List UInt8) : Prop :=
  ∃ chars : List Char, bytes = chars.flatMap String.utf8EncodeChar

/-! ## Units -/

/-- A continuation byte. -/
def isTail (byte : UInt8) : Bool :=
  byte &&& 0xC0 == 0x80

/-- The length of the unit a byte begins, zero if it begins none. -/
def announced (lead : UInt8) : Nat :=
  if lead < 0x80 then 1
  else if lead &&& 0xE0 = 0xC0 then 2
  else if lead &&& 0xF0 = 0xE0 then 3
  else if lead &&& 0xF8 = 0xF0 then 4
  else 0

/-- A first byte and the continuation bytes it announces. -/
def IsUnit : List UInt8 → Prop
  | [] => False
  | lead :: tails => announced lead = tails.length + 1 ∧ ∀ byte ∈ tails, isTail byte = true

/-- The number which the bytes of a unit spell. -/
def codePoint : List UInt8 → Nat
  | [a] => a.toNat
  | [a, b] => a.toNat % 32 * 64 + b.toNat % 64
  | [a, b, c] => a.toNat % 16 * 4096 + b.toNat % 64 * 64 + c.toNat % 64
  | [a, b, c, d] =>
      a.toNat % 8 * 262144 + b.toNat % 64 * 4096 + c.toNat % 64 * 64 + d.toNat % 64
  | _ => 0

/-- The least number which needs a unit of this length. -/
def leastPoint : Nat → Nat
  | 2 => 0x80
  | 3 => 0x800
  | 4 => 0x10000
  | _ => 0

/-- What a unit spells without being the encoding of a character. -/
inductive Forbidden (unit : List UInt8) : Prop
  | overlong (short : codePoint unit < leastPoint unit.length)
  | surrogate (above : 0xD800 ≤ codePoint unit) (below : codePoint unit ≤ 0xDFFF)
  | beyond (large : 0x10FFFF < codePoint unit)

/-- A way to split bytes into units. -/
structure Splits (bytes : List UInt8) (units : List (List UInt8)) : Prop where
  whole : bytes = units.flatten
  each : ∀ unit ∈ units, IsUnit unit

theorem IsUnit.ne_nil {unit : List UInt8} (isUnit : IsUnit unit) : unit ≠ [] := by
  rintro rfl
  exact isUnit

/-- The first byte determines where a unit ends. -/
theorem IsUnit.unique {unit other rest otherRest : List UInt8} (isUnit : IsUnit unit)
    (isOther : IsUnit other) (same : unit ++ rest = other ++ otherRest) :
    unit = other ∧ rest = otherRest := by
  cases unit with
  | nil => exact isUnit.elim
  | cons lead tails =>
      cases other with
      | nil => exact isOther.elim
      | cons otherLead otherTails =>
          obtain ⟨rfl, -⟩ := List.cons.inj same
          exact List.append_inj same (by simpa using isUnit.1.symm.trans isOther.1)

theorem Splits.cons {unit rest : List UInt8} {units : List (List UInt8)} (isUnit : IsUnit unit)
    (splits : Splits rest units) : Splits (unit ++ rest) (unit :: units) where
  whole := by rw [List.flatten_cons, splits.whole]
  each := List.forall_mem_cons.mpr ⟨isUnit, splits.each⟩

/-- There is at most one way to split bytes into units. -/
theorem Splits.unique {bytes : List UInt8} {units others : List (List UInt8)}
    (splits : Splits bytes units) (splitsOther : Splits bytes others) : units = others := by
  induction units generalizing bytes others with
  | nil =>
      cases others with
      | nil => rfl
      | cons other others =>
          have empty : (other :: others).flatten = [] := splitsOther.whole.symm.trans splits.whole
          rw [List.flatten_cons, List.append_eq_nil_iff] at empty
          exact absurd empty.1 (splitsOther.each other List.mem_cons_self).ne_nil
  | cons unit units inductionHypothesis =>
      obtain ⟨isUnit, rest⟩ := List.forall_mem_cons.mp splits.each
      cases others with
      | nil =>
          have empty : (unit :: units).flatten = [] := splits.whole.symm.trans splitsOther.whole
          rw [List.flatten_cons, List.append_eq_nil_iff] at empty
          exact absurd empty.1 isUnit.ne_nil
      | cons other others =>
          obtain ⟨isOther, otherRest⟩ := List.forall_mem_cons.mp splitsOther.each
          have same := splits.whole.symm.trans splitsOther.whole
          rw [List.flatten_cons, List.flatten_cons] at same
          obtain ⟨rfl, flat⟩ := isUnit.unique isOther same
          rw [inductionHypothesis ⟨rfl, rest⟩ ⟨flat, otherRest⟩]

theorem exists_splits_append {unit rest : List UInt8} (isUnit : IsUnit unit) :
    (∃ units, Splits (unit ++ rest) units) ↔ ∃ units, Splits rest units := by
  constructor
  · rintro ⟨units, splits⟩
    cases units with
    | nil => exact absurd (List.append_eq_nil_iff.mp splits.whole).1 isUnit.ne_nil
    | cons first units =>
        obtain ⟨isFirst, each⟩ := List.forall_mem_cons.mp splits.each
        obtain ⟨rfl, same⟩ := isUnit.unique isFirst (splits.whole.trans List.flatten_cons)
        exact ⟨units, same, each⟩
  · rintro ⟨units, splits⟩
    exact ⟨unit :: units, splits.cons isUnit⟩

theorem Splits.first {bytes : List UInt8} {units : List (List UInt8)} (splits : Splits bytes units)
    (more : bytes ≠ []) : ∃ unit rest, IsUnit unit ∧ bytes = unit ++ rest := by
  cases units with
  | nil => exact absurd splits.whole more
  | cons unit units =>
      exact ⟨unit, units.flatten, splits.each unit List.mem_cons_self,
        splits.whole.trans List.flatten_cons⟩

/-! ## Units and characters -/

theorem byte_ranges (n : Nat) (byte : n < 256) :
    (n &&& 0xC0 = 0x80 ↔ 0x80 ≤ n ∧ n < 0xC0) ∧ (n &&& 0xE0 = 0xC0 ↔ 0xC0 ≤ n ∧ n < 0xE0) ∧
      (n &&& 0xF0 = 0xE0 ↔ 0xE0 ≤ n ∧ n < 0xF0) ∧ (n &&& 0xF8 = 0xF0 ↔ 0xF0 ≤ n ∧ n < 0xF8) := by
  revert n
  decide +kernel

theorem isTail_iff (byte : UInt8) : isTail byte = true ↔ 0x80 ≤ byte.toNat ∧ byte.toNat < 0xC0 := by
  rw [← (byte_ranges byte.toNat byte.toNat_lt).1, isTail, beq_iff_eq, ← UInt8.toNat_inj,
    UInt8.toNat_and]
  rfl

theorem announced_eq (lead : UInt8) :
    announced lead = if lead.toNat < 0x80 then 1 else if lead.toNat < 0xC0 then 0
      else if lead.toNat < 0xE0 then 2 else if lead.toNat < 0xF0 then 3
      else if lead.toNat < 0xF8 then 4 else 0 := by
  obtain ⟨-, two, three, four⟩ := byte_ranges lead.toNat lead.toNat_lt
  have isTwo : lead &&& 0xE0 = 0xC0 ↔ 0xC0 ≤ lead.toNat ∧ lead.toNat < 0xE0 := by
    rw [← two, ← UInt8.toNat_inj, UInt8.toNat_and]
    rfl
  have isThree : lead &&& 0xF0 = 0xE0 ↔ 0xE0 ≤ lead.toNat ∧ lead.toNat < 0xF0 := by
    rw [← three, ← UInt8.toNat_inj, UInt8.toNat_and]
    rfl
  have isFour : lead &&& 0xF8 = 0xF0 ↔ 0xF0 ≤ lead.toNat ∧ lead.toNat < 0xF8 := by
    rw [← four, ← UInt8.toNat_inj, UInt8.toNat_and]
    rfl
  have isOne : lead < 0x80 ↔ lead.toNat < 0x80 := UInt8.lt_iff_toNat_lt
  simp only [announced, isOne, isTwo, isThree, isFour]
  grind

/-- The four shapes of a unit. -/
theorem IsUnit.shape {unit : List UInt8} (isUnit : IsUnit unit) :
    (∃ a, unit = [a] ∧ a.toNat < 0x80) ∨
    (∃ a b, unit = [a, b] ∧ 0xC0 ≤ a.toNat ∧ a.toNat < 0xE0 ∧ isTail b = true) ∨
    (∃ a b c, unit = [a, b, c] ∧ 0xE0 ≤ a.toNat ∧ a.toNat < 0xF0 ∧
      isTail b = true ∧ isTail c = true) ∨
    (∃ a b c d, unit = [a, b, c, d] ∧ 0xF0 ≤ a.toNat ∧ a.toNat < 0xF8 ∧
      isTail b = true ∧ isTail c = true ∧ isTail d = true) := by
  cases unit with
  | nil => exact isUnit.elim
  | cons lead tails =>
      obtain ⟨length, tail⟩ := isUnit
      rw [announced_eq] at length
      match tails with
      | [] => exact .inl ⟨lead, rfl, by simp only [List.length_nil] at length; grind⟩
      | [b] =>
          simp only [List.length_cons, List.length_nil] at length
          exact .inr (.inl ⟨lead, b, rfl, by grind, by grind, by grind⟩)
      | [b, c] =>
          simp only [List.length_cons, List.length_nil] at length
          exact .inr (.inr (.inl ⟨lead, b, c, rfl, by grind, by grind, by grind, by grind⟩))
      | [b, c, d] =>
          simp only [List.length_cons, List.length_nil] at length
          exact .inr (.inr (.inr
            ⟨lead, b, c, d, rfl, by grind, by grind, by grind, by grind, by grind⟩))
      | b :: c :: d :: e :: rest =>
          simp only [List.length_cons] at length
          grind

theorem char_valid (c : Char) :
    c.toNat < 0xD800 ∨ 0xDFFF < c.toNat ∧ c.toNat < 0x110000 :=
  c.valid

/-- The encoding of the character with this number. -/
def encodePoint (n : Nat) : List UInt8 :=
  if n ≤ 0x7F then [.ofNat n]
  else if n ≤ 0x7FF then [.ofNat (n / 64 % 0x20 + 0xC0), .ofNat (n % 0x40 + 0x80)]
  else if n ≤ 0xFFFF then
    [.ofNat (n / 4096 % 0x10 + 0xE0), .ofNat (n / 64 % 0x40 + 0x80), .ofNat (n % 0x40 + 0x80)]
  else
    [.ofNat (n / 262144 % 0x08 + 0xF0), .ofNat (n / 4096 % 0x40 + 0x80),
      .ofNat (n / 64 % 0x40 + 0x80), .ofNat (n % 0x40 + 0x80)]

theorem encodeChar_eq (c : Char) : String.utf8EncodeChar c = encodePoint c.toNat :=
  rfl

theorem ofNat_toNat_of_lt {n : Nat} (small : n < 256) : (UInt8.ofNat n).toNat = n := by
  rw [UInt8.toNat_ofNat']
  exact Nat.mod_eq_of_lt small

/-- The encoding of a character is a unit which spells its number, and no
shorter unit would. -/
theorem encodePoint_spec {n : Nat} (bound : n < 0x110000) : IsUnit (encodePoint n) ∧
    codePoint (encodePoint n) = n ∧ leastPoint (encodePoint n).length ≤ n := by
  rw [encodePoint]
  split
  · have a := ofNat_toNat_of_lt (show n < 256 by omega)
    refine ⟨⟨?_, by simp⟩, a, Nat.zero_le n⟩
    rw [announced_eq, a]
    simp only [List.length_nil]
    grind
  split
  · have a := ofNat_toNat_of_lt (show n / 64 % 32 + 192 < 256 by omega)
    have b := ofNat_toNat_of_lt (show n % 64 + 128 < 256 by omega)
    refine ⟨⟨?_, ?_⟩, ?_, ?_⟩
    · rw [announced_eq, a]
      simp only [List.length_cons, List.length_nil]
      grind
    · simp only [List.mem_singleton, forall_eq, isTail_iff, b]
      omega
    · simp only [codePoint, a, b]
      omega
    · simp only [List.length_cons, List.length_nil, leastPoint]
      omega
  split
  · have a := ofNat_toNat_of_lt (show n / 4096 % 16 + 224 < 256 by omega)
    have b := ofNat_toNat_of_lt (show n / 64 % 64 + 128 < 256 by omega)
    have c := ofNat_toNat_of_lt (show n % 64 + 128 < 256 by omega)
    refine ⟨⟨?_, ?_⟩, ?_, ?_⟩
    · rw [announced_eq, a]
      simp only [List.length_cons, List.length_nil]
      grind
    · simp only [List.mem_cons, List.not_mem_nil, or_false, forall_eq_or_imp, forall_eq,
        isTail_iff, b, c]
      omega
    · simp only [codePoint, a, b, c]
      omega
    · simp only [List.length_cons, List.length_nil, leastPoint]
      omega
  · have a := ofNat_toNat_of_lt (show n / 262144 % 8 + 240 < 256 by omega)
    have b := ofNat_toNat_of_lt (show n / 4096 % 64 + 128 < 256 by omega)
    have c := ofNat_toNat_of_lt (show n / 64 % 64 + 128 < 256 by omega)
    have d := ofNat_toNat_of_lt (show n % 64 + 128 < 256 by omega)
    refine ⟨⟨?_, ?_⟩, ?_, ?_⟩
    · rw [announced_eq, a]
      simp only [List.length_cons, List.length_nil]
      grind
    · simp only [List.mem_cons, List.not_mem_nil, or_false, forall_eq_or_imp, forall_eq,
        isTail_iff, b, c, d]
      omega
    · simp only [codePoint, a, b, c, d]
      omega
    · simp only [List.length_cons, List.length_nil, leastPoint]
      omega

theorem encodeChar_spec (c : Char) : IsUnit (String.utf8EncodeChar c) ∧
    ¬ Forbidden (String.utf8EncodeChar c) := by
  have valid := char_valid c
  obtain ⟨isUnit, point, least⟩ := encodePoint_spec (show c.toNat < 0x110000 by omega)
  rw [encodeChar_eq]
  refine ⟨isUnit, fun forbidden => ?_⟩
  cases forbidden with
  | overlong short => omega
  | surrogate above below => omega
  | beyond large => omega

theorem eq_ofNat {byte : UInt8} {n : Nat} (same : byte.toNat = n) : byte = .ofNat n := by
  rw [← same, UInt8.ofNat_toNat]

/-- A unit no longer than its number needs is the encoding of the number. -/
theorem IsUnit.eq_encodePoint {unit : List UInt8} (isUnit : IsUnit unit)
    (long : leastPoint unit.length ≤ codePoint unit) : unit = encodePoint (codePoint unit) := by
  rcases isUnit.shape with ⟨a, rfl, first⟩ | ⟨a, b, rfl, first, last, tail⟩ |
    ⟨a, b, c, rfl, first, last, tail⟩ | ⟨a, b, c, d, rfl, first, last, tail⟩
  all_goals
    simp only [isTail_iff, codePoint, leastPoint, List.length_cons, List.length_nil] at *
    rw [encodePoint]
  · rw [if_pos (by omega), ← eq_ofNat rfl]
  · rw [if_neg (by omega), if_pos (by omega), ← @eq_ofNat a _ (by omega),
      ← @eq_ofNat b _ (by omega)]
  · rw [if_neg (by omega), if_neg (by omega), if_pos (by omega), ← @eq_ofNat a _ (by omega),
      ← @eq_ofNat b _ (by omega), ← @eq_ofNat c _ (by omega)]
  · rw [if_neg (by omega), if_neg (by omega), if_neg (by omega), ← @eq_ofNat a _ (by omega),
      ← @eq_ofNat b _ (by omega), ← @eq_ofNat c _ (by omega), ← @eq_ofNat d _ (by omega)]

/-- The units which encode characters. -/
theorem IsUnit.encodes_iff {unit : List UInt8} (isUnit : IsUnit unit) :
    (∃ c : Char, unit = String.utf8EncodeChar c) ↔ ¬ Forbidden unit := by
  constructor
  · rintro ⟨c, rfl⟩
    exact (encodeChar_spec c).2
  · intro allowed
    have long : leastPoint unit.length ≤ codePoint unit :=
      Nat.le_of_not_lt fun short => allowed (.overlong short)
    have small : codePoint unit ≤ 0x10FFFF :=
      Nat.le_of_not_lt fun large => allowed (.beyond large)
    have valid : (codePoint unit).isValidChar := by
      by_cases below : codePoint unit < 0xD800
      · exact .inl below
      · refine .inr ⟨?_, by omega⟩
        exact Nat.lt_of_not_le fun high => allowed (.surrogate (by omega) high)
    exact ⟨Char.ofNatAux (codePoint unit) valid, isUnit.eq_encodePoint long⟩

/-- Well-formed texts are the texts of units none of which is forbidden. -/
theorem wellFormed_iff {bytes : List UInt8} :
    WellFormed bytes ↔ ∃ units, Splits bytes units ∧ ∀ unit ∈ units, ¬ Forbidden unit := by
  constructor
  · rintro ⟨chars, rfl⟩
    refine ⟨chars.map String.utf8EncodeChar, ⟨rfl, ?_⟩, ?_⟩
    · exact List.forall_mem_map.mpr fun c _ => (encodeChar_spec c).1
    · exact List.forall_mem_map.mpr fun c _ => (encodeChar_spec c).2
  · rintro ⟨units, ⟨rfl, each⟩, allowed⟩
    induction units with
    | nil => exact ⟨[], rfl⟩
    | cons unit units inductionHypothesis =>
        obtain ⟨isUnit, rest⟩ := List.forall_mem_cons.mp each
        obtain ⟨isAllowed, restAllowed⟩ := List.forall_mem_cons.mp allowed
        obtain ⟨c, rfl⟩ := isUnit.encodes_iff.mpr isAllowed
        obtain ⟨chars, same⟩ := inductionHypothesis restAllowed rest
        exact ⟨c :: chars, by rw [List.flatten_cons, List.flatMap_cons, same]⟩

end Foxhttp.Library.Utf8
