import Mathlib.Data.List.Infix
import Foxhttp.Library.UrlEncoded

/-!
# Lenient percent decoding

`percentDecode` takes a percent sign with two hexadecimal digits behind it for a
byte and no other percent sign. A decoder which reads the two characters with a
number parser agrees with it on a text exactly when the parser reads nothing
else behind the percent signs of the text.
-/

namespace Foxhttp.Library.UrlEncoded

/-- Two hexadecimal digits behind a percent sign are a byte, a plus sign is a
space, and every other byte stands for itself. -/
def percentDecode : Text → Text
  | '%' :: first :: second :: rest =>
      match digitValue first, digitValue second with
      | some high, some low => Char.ofNat (16 * high + low) :: percentDecode rest
      | _, _ => '%' :: percentDecode (first :: second :: rest)
  | '+' :: rest => ' ' :: percentDecode rest
  | c :: rest => c :: percentDecode rest
  | [] => []

/-- A reader of two characters which reads two digits right, and a percent sign
out of nothing else. -/
structure ReadsBytes (read : Text → Option Int) : Prop where
  digits : ∀ {first second high low}, digitValue first = some high →
    digitValue second = some low → read [first, second] = some ((16 * high + low : Nat) : Int)
  otherwise : ∀ {first second value}, read [first, second] = some value →
    (digitValue first = none ∨ digitValue second = none) → toByte value ≠ '%'

/-- The reader reads two characters which are not both digits. -/
def Misreads (read : Text → Option Int) (first second : Char) : Prop :=
  (read [first, second]).isSome ∧ (digitValue first = none ∨ digitValue second = none)

/-- What every two characters behind a percent sign have. -/
def Escapes (text : Text) (property : Char → Char → Prop) : Prop :=
  ∀ first second, ['%', first, second] <:+: text → property first second

namespace Escapes

variable {property : Char → Char → Prop} {c first second : Char} {rest : Text}

theorem cons_iff (notPercent : c ≠ '%') :
    Escapes (c :: rest) property ↔ Escapes rest property := by
  have same : ∀ first second, ['%', first, second] <:+: c :: rest ↔
      ['%', first, second] <:+: rest := by
    intro first second
    rw [List.infix_cons_iff, List.cons_prefix_cons]
    exact or_iff_right fun front => notPercent front.1.symm
  simp only [Escapes, same]

theorem percent_iff : Escapes ('%' :: first :: second :: rest) property ↔
    property first second ∧ Escapes (first :: second :: rest) property := by
  constructor
  · intro all
    exact ⟨all first second ⟨[], rest, rfl⟩, fun a b inner =>
      all a b (inner.trans (List.suffix_cons ..).isInfix)⟩
  · rintro ⟨here, later⟩ a b inner
    rcases List.infix_cons_iff.mp inner with front | inner
    · rw [List.cons_prefix_cons, List.cons_prefix_cons, List.cons_prefix_cons] at front
      obtain ⟨-, rfl, rfl, -⟩ := front
      exact here
    · exact later a b inner

/-- A text of fewer than three characters has no escape. -/
theorem of_short {text : Text} (short : text.length < 3) : Escapes text property := by
  intro a b inner
  exact absurd inner.length_le (Nat.not_le_of_lt short)

end Escapes

/-! ## Digits -/

theorem digitValue_range {c : Char} {value : Nat} (isDigit : digitValue c = some value) :
    value < 16 := by
  have bounds (low high : Char) (between : low ≤ c ∧ c ≤ high) :
      c.toNat - low.toNat ≤ high.toNat - low.toNat :=
    Nat.sub_le_sub_right between.2 low.toNat
  rw [digitValue] at isDigit
  split at isDigit
  · rename_i between
    cases isDigit
    exact Nat.lt_of_le_of_lt (bounds _ _ between) (by decide)
  · split at isDigit
    · rename_i between
      cases isDigit
      exact Nat.add_lt_add_right (Nat.lt_of_le_of_lt (bounds _ _ between) (by decide)) 10
    · split at isDigit
      · rename_i between
        cases isDigit
        exact Nat.add_lt_add_right (Nat.lt_of_le_of_lt (bounds _ _ between) (by decide)) 10
      · cases isDigit

theorem ne_percent {c : Char} {value : Nat} (isDigit : digitValue c = some value) : c ≠ '%' := by
  rintro rfl
  cases isDigit

/-- Of two characters which are not two digits, one is no digit. -/
theorem missing_digit {first second : Char}
    (notDigits : ∀ high low, digitValue first = some high → digitValue second = some low → False) :
    digitValue first = none ∨ digitValue second = none := by
  cases isHigh : digitValue first with
  | none => exact .inl rfl
  | some high =>
      cases isLow : digitValue second with
      | none => exact .inr rfl
      | some low => exact (notDigits high low isHigh isLow).elim

/-- A percent sign without two digits stays. -/
theorem percentDecode_kept {first second : Char}
    (noDigit : digitValue first = none ∨ digitValue second = none) (rest : Text) :
    percentDecode ('%' :: first :: second :: rest) =
      '%' :: percentDecode (first :: second :: rest) := by
  rw [percentDecode]
  split
  · rename_i high low isHigh isLow
    rw [isHigh, isLow] at noDigit
    rcases noDigit with noHigh | noLow
    · cases noHigh
    · cases noLow
  · rfl

/-! ## Where a lenient decoder agrees -/

section Decoders

variable {read : Text → Option Int}

theorem decodeWith_unread {first second : Char} (unread : read [first, second] = none)
    (rest : Text) : decodeWith read ('%' :: first :: second :: rest) =
      '%' :: decodeWith read (first :: second :: rest) := by
  rw [decodeWith, if_pos rfl]
  simp only [unread]

theorem decodeWith_plus (rest : Text) :
    decodeWith read ('+' :: rest) = ' ' :: decodeWith read rest := by
  rw [decodeWith.eq_def]
  rfl

theorem decodeWith_short {rest : Text} (short : rest.length < 2) :
    decodeWith read ('%' :: rest) = '%' :: decodeWith read rest := by
  rcases rest with _ | ⟨c, _ | ⟨other, later⟩⟩
  · simp [decodeWith]
  · simp [decodeWith]
  · exact absurd short (by simp)

/-- **A lenient decoder decodes** a text right exactly when its reader misreads no
two characters behind a percent sign of it. -/
theorem decodeWith_eq_iff (readsBytes : ReadsBytes read) (text : Text) :
    decodeWith read text = percentDecode text ↔
      Escapes text fun first second => ¬ Misreads read first second := by
  induction text using percentDecode.induct with
  | case1 first second rest high low isLow isHigh inductionHypothesis =>
      have isByte : 16 * high + low < 256 := by
        have highRange := digitValue_range isHigh
        have lowRange := digitValue_range isLow
        omega
      have decoded := decodeWith_percent (readsBytes.digits isHigh isLow) rest
      have strict : ¬ Misreads read first second := by
        rintro ⟨-, noHigh | noLow⟩
        · rw [isHigh] at noHigh
          cases noHigh
        · rw [isLow] at noLow
          cases noLow
      rw [decoded, percentDecode, isHigh, isLow, toByte_natCast isByte, List.cons_inj_right,
        inductionHypothesis, Escapes.percent_iff, Escapes.cons_iff (ne_percent isHigh),
        Escapes.cons_iff (ne_percent isLow), and_iff_right strict]
  | case2 first second rest notDigits inductionHypothesis =>
      have noDigit := missing_digit fun high low isHigh isLow => notDigits high low isHigh isLow
      rw [percentDecode_kept noDigit, Escapes.percent_iff]
      cases isRead : read [first, second] with
      | none =>
          have unread : ¬ Misreads read first second := by
            rw [Misreads, isRead]
            exact fun misread => absurd misread.1 (by decide)
          rw [decodeWith_unread isRead, List.cons_inj_right, inductionHypothesis,
            and_iff_right unread]
      | some value =>
          rw [decodeWith_percent isRead]
          refine iff_of_false (fun same => ?_) fun all => all.1 ⟨by rw [isRead]; rfl, noDigit⟩
          exact readsBytes.otherwise isRead noDigit (List.cons.inj same).1
  | case3 rest inductionHypothesis =>
      rw [decodeWith_plus, percentDecode, List.cons_inj_right, inductionHypothesis,
        Escapes.cons_iff (by decide)]
  | case4 c rest notEscape notPlus inductionHypothesis =>
      rw [percentDecode.eq_3 c rest notEscape notPlus]
      by_cases isPercent : c = '%'
      · subst isPercent
        have short : rest.length < 2 := by
          rcases rest with _ | ⟨first, _ | ⟨second, later⟩⟩
          · exact Nat.zero_lt_two
          · exact Nat.one_lt_two
          · exact (notEscape first second later rfl rfl).elim
        rw [decodeWith_short short, List.cons_inj_right, inductionHypothesis]
        exact iff_of_true (Escapes.of_short (by omega))
          (Escapes.of_short (Nat.succ_lt_succ short))
      · rw [decodeWith_plain isPercent notPlus, List.cons_inj_right, inductionHypothesis,
          Escapes.cons_iff isPercent]
  | case5 => exact iff_of_true rfl (Escapes.of_short (by decide))

end Decoders

/-! ## The readers on two characters -/

section Readers

variable {first second : Char}

/-- A digit with something else behind it, or a blank or a sign with a digit
behind it. -/
def Misread (first second : Char) : Prop :=
  ((digitValue first).isSome ∧ digitValue second = none) ∨
    ((isSpace first = true ∨ first = '+' ∨ first = '-') ∧ (digitValue second).isSome)

/-- A number of one digit, with the sign which precedes it, is not the code of a
percent sign. -/
theorem toByte_ne_percent : ∀ value : Nat, value < 16 →
    toByte (value : Int) ≠ '%' ∧ toByte (-(value : Int)) ≠ '%' := by
  decide

/-- Of two characters which are not both digits, one digit at most is read. -/
theorem readPair_range {value : Int} (isRead : readPair first second = some value)
    (noDigit : digitValue first = none ∨ digitValue second = none) :
    ∃ digit < 16, value = (digit : Nat) ∨ value = -(digit : Nat) := by
  rw [readPair] at isRead
  split at isRead
  · rename_i isHigh isLow
    rw [isHigh, isLow] at noDigit
    simp at noDigit
  · rename_i digit isHigh isLow
    cases isRead
    exact ⟨digit, digitValue_range isHigh, .inl rfl⟩
  · split at isRead
    · obtain ⟨digit, isLow, rfl⟩ := Option.map_eq_some_iff.mp isRead
      exact ⟨digit, digitValue_range isLow, .inl rfl⟩
    · split at isRead
      · obtain ⟨digit, isLow, rfl⟩ := Option.map_eq_some_iff.mp isRead
        exact ⟨digit, digitValue_range isLow, .inr rfl⟩
      · cases isRead

theorem readPair_isSome : (readPair first second).isSome = true ∧
    (digitValue first = none ∨ digitValue second = none) ↔ Misread first second := by
  rw [readPair, Misread]
  cases isHigh : digitValue first with
  | some high =>
      have notSign : ¬ (isSpace first = true ∨ first = '+' ∨ first = '-') := by
        obtain ⟨filled, notMinus, notPlus⟩ := digitValue_filled isHigh
        simp [filled, notMinus, notPlus]
      cases isLow : digitValue second with
      | some low => simp [notSign]
      | none => simp
  | none =>
      cases isLow : digitValue second with
      | none => simp
      | some low =>
          by_cases plus : isSpace first = true ∨ first = '+'
          · simp [plus, ← or_assoc]
          · by_cases isMinus : first = '-'
            · subst isMinus
              simp [isSpace]
            · simp [plus, isMinus]

theorem readsBytes_stoi16 : ReadsBytes stoi16 where
  digits isHigh isLow := by
    rw [stoi16_pair, readPair, isHigh, isLow]
  otherwise isRead noDigit := by
    rw [stoi16_pair] at isRead
    obtain ⟨digit, small, rfl | rfl⟩ := readPair_range isRead noDigit
    · exact (toByte_ne_percent digit small).1
    · exact (toByte_ne_percent digit small).2

theorem readsBytes_extractHex : ReadsBytes extractHex where
  digits isHigh isLow := extractHex_digits isHigh isLow
  otherwise {first second value} isRead noDigit := by
    rw [extractHex_pair] at isRead
    split at isRead
    · cases isRead
    · obtain ⟨digit, small, rfl | rfl⟩ := readPair_range isRead noDigit
      · exact (toByte_ne_percent digit small).1
      · exact (toByte_ne_percent digit small).2

theorem misreads_stoi16 : Misreads stoi16 first second ↔ Misread first second := by
  rw [Misreads, stoi16_pair, readPair_isSome]

theorem misreads_extractHex : Misreads extractHex first second ↔
    Misread first second ∧ ¬ (first = '0' ∧ (second = 'x' ∨ second = 'X')) := by
  rw [Misreads, extractHex_pair]
  split
  · rename_i base
    exact iff_of_false (fun misread => absurd misread.1 (by decide)) fun misread => misread.2 base
  · rename_i noBase
    rw [readPair_isSome, and_iff_left noBase]

end Readers

end Foxhttp.Library.UrlEncoded
