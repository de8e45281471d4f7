import Foxhttp.Library.Text

/-!
# URL encoding

Percent encoding writes a byte as two hexadecimal digits. The decoders differ in
how they read the two characters behind a percent sign only, so one loop serves
them all, and it reads back what was written with any reader which understands
two digits. Names and values joined with `=` and `&` come apart again, since
their encodings have neither.
-/

namespace Foxhttp.Library.UrlEncoded

/-! ## Hexadecimal digits -/

/-- `std::isspace` in the C locale. -/
def isSpace (c : Char) : Bool :=
  c == ' ' || c == '\t' || c == '\n' || c == '\x0b' || c == '\x0c' || c == '\r'

/-- The value of a hexadecimal digit. -/
def digitValue (c : Char) : Option Nat :=
  if '0' ≤ c ∧ c ≤ '9' then some (c.toNat - '0'.toNat)
  else if 'a' ≤ c ∧ c ≤ 'f' then some (c.toNat - 'a'.toNat + 10)
  else if 'A' ≤ c ∧ c ≤ 'F' then some (c.toNat - 'A'.toNat + 10)
  else none

/-- The number the digits at the front of a text make, when there are any. -/
def leadingHex (text : Text) : Option Nat :=
  match text.takeWhile fun c => (digitValue c).isSome with
  | [] => none
  | digits => some ((digits.filterMap digitValue).foldl (fun number digit => 16 * number + digit) 0)

/-- The sign at the front of a text. -/
def splitSign : Text → Int × Text
  | '-' :: rest => (-1, rest)
  | '+' :: rest => (1, rest)
  | text => (1, text)

/-- Whether a text starts with `0x`. -/
def hasBasePrefix : Text → Bool
  | '0' :: x :: _ => x == 'x' || x == 'X'
  | _ => false

/-- `std::stoi(text, nullptr, 16)`, for a text too short to overflow: nothing
when it throws. The zero of a bare `0x` is a number. -/
def stoi16 (text : Text) : Option Int :=
  let signed := splitSign (text.dropWhile isSpace)
  let digits :=
    if hasBasePrefix signed.2 && (leadingHex (signed.2.drop 2)).isSome then signed.2.drop 2
    else signed.2
  (leadingHex digits).map fun number => signed.1 * number

/-- `stream >> std::hex >> number`, for a text too short to overflow: nothing
when the stream fails. A `0x` is passed over and wants digits behind it. -/
def extractHex (text : Text) : Option Int :=
  let signed := splitSign (text.dropWhile isSpace)
  let digits := if hasBasePrefix signed.2 then signed.2.drop 2 else signed.2
  (leadingHex digits).map fun number => signed.1 * number

/-! ## Two characters -/

section Pairs

variable {first second : Char}

/-- A blank is no digit. -/
theorem digitValue_blank {c : Char} (blank : isSpace c = true) : digitValue c = none := by
  have listed : c ∈ " \t\n\x0b\x0c\r".toList := by simpa [isSpace, or_assoc] using blank
  have none : (" \t\n\x0b\x0c\r".toList.all fun c => (digitValue c).isNone) = true := by decide
  exact Option.isNone_iff_eq_none.mp (List.all_eq_true.mp none c listed)

/-- What is read off two characters. -/
def readPair (first second : Char) : Option Int :=
  match digitValue first, digitValue second with
  | some high, some low => some ((16 * high + low : Nat) : Int)
  | some value, none => some value
  | none, low =>
      if isSpace first = true ∨ first = '+' then low.map fun value : Nat => (value : Int)
      else if first = '-' then low.map fun value : Nat => -(value : Int)
      else none

theorem splitSign_plain {c : Char} (notMinus : c ≠ '-') (notPlus : c ≠ '+') (rest : Text) :
    splitSign (c :: rest) = (1, c :: rest) := by
  unfold splitSign
  split
  · rename_i isMinus
    exact absurd (List.cons.inj isMinus).1 notMinus
  · rename_i isPlus
    exact absurd (List.cons.inj isPlus).1 notPlus
  · rfl

theorem digitValue_filled {c : Char} {value : Nat} (isDigit : digitValue c = some value) :
    isSpace c = false ∧ c ≠ '-' ∧ c ≠ '+' := by
  refine ⟨?_, ?_, ?_⟩
  · cases blank : isSpace c with
    | false => rfl
    | true =>
        rw [digitValue_blank blank] at isDigit
        cases isDigit
  · rintro rfl
    cases isDigit
  · rintro rfl
    cases isDigit

theorem leadingHex_cons_none (noDigit : digitValue first = none) (rest : Text) :
    leadingHex (first :: rest) = none := by
  simp [leadingHex, noDigit]

theorem leadingHex_one (c : Char) : leadingHex [c] = digitValue c := by
  cases isDigit : digitValue c with
  | none => exact leadingHex_cons_none isDigit []
  | some value => simp [leadingHex, isDigit]

theorem leadingHex_two {high : Nat} (isHigh : digitValue first = some high) :
    leadingHex [first, second] =
      some ((digitValue second).elim high fun low => 16 * high + low) := by
  cases isLow : digitValue second with
  | none => simp [leadingHex, isHigh, isLow]
  | some low => simp [leadingHex, isHigh, isLow]

theorem hasBasePrefix_one (c : Char) : hasBasePrefix [c] = false := by
  unfold hasBasePrefix
  split
  · rename_i isPrefix
    cases isPrefix
  · rfl

theorem hasBasePrefix_pair : hasBasePrefix [first, second] = true ↔
    first = '0' ∧ (second = 'x' ∨ second = 'X') := by
  unfold hasBasePrefix
  split
  · rename_i isPrefix
    cases isPrefix
    simp
  · rename_i noPrefix
    exact iff_of_false (by decide) fun base => noPrefix second [] (by rw [base.1])

/-- The number in a text: its sign and the text of its digits. -/
structure Numeral (text : Text) (base : Prop) (value : Option Int) : Prop where
  short : (splitSign text).2.length ≤ 2
  prefixed : hasBasePrefix (splitSign text).2 = true ↔ base
  read : (leadingHex (splitSign text).2).map (fun number : Nat => (splitSign text).1 * number) =
    value

theorem numeral_one (c : Char) :
    Numeral [c] False ((digitValue c).map fun value : Nat => (value : Int)) := by
  by_cases isMinus : c = '-'
  · subst isMinus
    exact ⟨by decide, by decide, rfl⟩
  · by_cases isPlus : c = '+'
    · subst isPlus
      exact ⟨by decide, by decide, rfl⟩
    · have plain := splitSign_plain isMinus isPlus []
      exact ⟨by simp [plain], by simp [plain, hasBasePrefix_one], by simp [plain, leadingHex_one]⟩

/-- The number in two characters. -/
theorem numeral_pair (first second : Char) :
    Numeral ([first, second].dropWhile isSpace) (first = '0' ∧ (second = 'x' ∨ second = 'X'))
      (readPair first second) := by
  by_cases blank : isSpace first = true
  · have noDigit : digitValue first = none :=
      digitValue_blank blank
    have notZero : ¬ (first = '0' ∧ (second = 'x' ∨ second = 'X')) := by
      rintro ⟨rfl, -⟩
      cases noDigit
    have value : readPair first second =
        (digitValue second).map fun value : Nat => (value : Int) := by
      simp [readPair, noDigit, blank]
    rw [List.dropWhile_cons_of_pos blank, value, eq_false notZero]
    by_cases blankToo : isSpace second = true
    · have noDigitToo : digitValue second = none :=
        digitValue_blank blankToo
      rw [List.dropWhile_cons_of_pos blankToo, noDigitToo]
      exact ⟨by decide, by decide, rfl⟩
    · rw [List.dropWhile_cons_of_neg blankToo]
      exact numeral_one second
  · rw [List.dropWhile_cons_of_neg blank]
    by_cases isMinus : first = '-'
    · subst isMinus
      have value : readPair '-' second =
          (digitValue second).map fun value : Nat => -(value : Int) := rfl
      refine ⟨Nat.le_succ 1, ?_, ?_⟩
      · rw [splitSign, hasBasePrefix_one]
        exact iff_of_false Bool.false_ne_true fun base => absurd base.1 (by decide)
      · rw [splitSign, leadingHex_one, value]
        simp
    · by_cases isPlus : first = '+'
      · subst isPlus
        have value : readPair '+' second =
            (digitValue second).map fun value : Nat => (value : Int) := rfl
        refine ⟨Nat.le_succ 1, ?_, ?_⟩
        · rw [splitSign, hasBasePrefix_one]
          exact iff_of_false Bool.false_ne_true fun base => absurd base.1 (by decide)
        · rw [splitSign, leadingHex_one, value]
          simp
      · have plain := splitSign_plain isMinus isPlus [second]
        refine ⟨by simp [plain], by simp [plain, hasBasePrefix_pair], ?_⟩
        rw [plain]
        cases isHigh : digitValue first with
        | none =>
            rw [leadingHex_cons_none isHigh]
            simp [readPair, isHigh, blank, isMinus, isPlus]
        | some high =>
            rw [leadingHex_two isHigh]
            cases isLow : digitValue second with
            | none => simp [readPair, isHigh, isLow]
            | some low => simp [readPair, isHigh, isLow]

theorem stoi16_pair (first second : Char) : stoi16 [first, second] = readPair first second := by
  have numeral := numeral_pair first second
  have rest : ((splitSign ([first, second].dropWhile isSpace)).2.drop 2) = [] :=
    List.drop_eq_nil_of_le numeral.short
  have noMore : (leadingHex []).isSome = false := rfl
  simp only [stoi16, rest, noMore, Bool.and_false, Bool.false_eq_true, if_false]
  rw [← numeral.read]
  cases leadingHex (splitSign ([first, second].dropWhile isSpace)).2 with
  | none => rfl
  | some number => rfl

theorem extractHex_pair (first second : Char) : extractHex [first, second] =
    if first = '0' ∧ (second = 'x' ∨ second = 'X') then none else readPair first second := by
  have numeral := numeral_pair first second
  have rest : ((splitSign ([first, second].dropWhile isSpace)).2.drop 2) = [] :=
    List.drop_eq_nil_of_le numeral.short
  simp only [extractHex, rest]
  split
  · rename_i isPrefix
    rw [if_pos (numeral.prefixed.mp isPrefix)]
    rfl
  · rename_i noPrefix
    rw [if_neg fun base => noPrefix (numeral.prefixed.mpr base), ← numeral.read]
    cases leadingHex (splitSign ([first, second].dropWhile isSpace)).2 with
    | none => rfl
    | some number => rfl

/-- No digit is the letter of a base. -/
theorem extractHex_digits {high low : Nat} (isHigh : digitValue first = some high)
    (isLow : digitValue second = some low) :
    extractHex [first, second] = some ((16 * high + low : Nat) : Int) := by
  have noBase : ¬ (first = '0' ∧ (second = 'x' ∨ second = 'X')) := by
    rintro ⟨-, rfl | rfl⟩ <;> cases isLow
  rw [extractHex_pair, if_neg noBase, readPair, isHigh, isLow]

end Pairs

/-! ## The codec -/

/-- `static_cast<char>(value)`. -/
def toByte (value : Int) : Char :=
  Char.ofNat (value % 256).toNat

theorem toByte_natCast {value : Nat} (isByte : value < 256) :
    toByte (value : Int) = Char.ofNat value := by
  rw [toByte, Int.emod_eq_of_lt (by omega) (by omega), Int.toNat_natCast]

/-- Decode, with a reader for the two characters behind a percent sign. -/
def decodeWith (read : Text → Option Int) : Text → Text
  | [] => []
  | c :: rest =>
      if c = '%' then
        match rest with
        | first :: second :: later =>
            match read [first, second] with
            | some value => toByte value :: decodeWith read later
            | none => '%' :: decodeWith read (first :: second :: later)
        | short => '%' :: decodeWith read short
      else if c = '+' then ' ' :: decodeWith read rest
      else c :: decodeWith read rest

/-- A digit of `0123456789ABCDEF`. -/
def upperDigit (value : Nat) : Char :=
  "0123456789ABCDEF".toList.getD value '0'

/-- The bytes which stand for themselves. -/
def isUnreserved (c : Char) : Bool :=
  c.isAlphanum || c == '-' || c == '_' || c == '.' || c == '~'

/-- One byte, encoded. -/
def encodeByte (c : Char) : Text :=
  if isUnreserved c then [c]
  else ['%', upperDigit (c.toNat / 16), upperDigit (c.toNat % 16)]

/-- Encode every byte which does not stand for itself. -/
def encode (text : Text) : Text :=
  text.flatMap encodeByte

/-! ## Decoding what was encoded -/

/-- A reader which understands two upper case digits. -/
def ReadsDigits (read : Text → Option Int) : Prop :=
  ∀ high < 16, ∀ low < 16, read [upperDigit high, upperDigit low] = some (16 * high + low : Nat)

theorem digitValue_upperDigit : ∀ value < 16, digitValue (upperDigit value) = some value := by
  decide

theorem readsDigits_stoi16 : ReadsDigits stoi16 := by
  intro high isHigh low isLow
  rw [stoi16_pair, readPair, digitValue_upperDigit high isHigh, digitValue_upperDigit low isLow]
  rfl

theorem readsDigits_extractHex : ReadsDigits extractHex := by
  intro high isHigh low isLow
  rw [extractHex_digits (digitValue_upperDigit high isHigh) (digitValue_upperDigit low isLow)]
  rfl

theorem decodeWith_plain {c : Char} (notPercent : c ≠ '%') (notPlus : c ≠ '+')
    (read : Text → Option Int) (rest : Text) :
    decodeWith read (c :: rest) = c :: decodeWith read rest := by
  rw [decodeWith.eq_def]
  simp only [notPercent, notPlus, if_false]

theorem decodeWith_percent {read : Text → Option Int} {first second : Char} {value : Int}
    (isRead : read [first, second] = some value) (rest : Text) :
    decodeWith read ('%' :: first :: second :: rest) = toByte value :: decodeWith read rest := by
  rw [decodeWith, if_pos rfl]
  simp only [isRead]

/-- Decoding makes no text longer. -/
theorem length_decodeWith_le (read : Text → Option Int) (text : Text) :
    (decodeWith read text).length ≤ text.length := by
  fun_induction decodeWith read text with
  | case1 => exact Nat.le_refl _
  | case2 first second later value isRead inductionHypothesis => grind
  | case3 first second later notRead inductionHypothesis => grind
  | case4 short notTwo inductionHypothesis => grind
  | case5 rest notPercent inductionHypothesis => grind
  | case6 c rest notPercent notPlus inductionHypothesis => grind

/-- The digits of a byte give the byte. -/
theorem toByte_digits {c : Char} (isByte : c.toNat < 256) :
    toByte ((16 * (c.toNat / 16) + c.toNat % 16 : Nat) : Int) = c := by
  have same : 16 * (c.toNat / 16) + c.toNat % 16 = c.toNat := by omega
  rw [same, toByte_natCast isByte, Char.ofNat_toNat]

theorem isUnreserved_plain {c : Char} (unreserved : isUnreserved c = true) :
    c ≠ '%' ∧ c ≠ '+' := by
  constructor
  · rintro rfl
    exact absurd unreserved (by decide)
  · rintro rfl
    exact absurd unreserved (by decide)

/-- Decoding takes the encoding of a byte string back. -/
theorem decodeWith_encode {read : Text → Option Int} (readsDigits : ReadsDigits read)
    {text : Text} (bytes : ∀ c ∈ text, c.toNat < 256) : decodeWith read (encode text) = text := by
  induction text with
  | nil => rfl
  | cons c text inductionHypothesis =>
      obtain ⟨isByte, later⟩ := List.forall_mem_cons.mp bytes
      rw [encode, List.flatMap_cons, ← encode, encodeByte]
      split
      · rename_i unreserved
        obtain ⟨notPercent, notPlus⟩ := isUnreserved_plain unreserved
        rw [List.singleton_append, decodeWith_plain notPercent notPlus, inductionHypothesis later]
      · have isRead := readsDigits (c.toNat / 16) (by omega) (c.toNat % 16) (by omega)
        rw [List.cons_append, List.cons_append, List.singleton_append, decodeWith_percent isRead,
          toByte_digits isByte, inductionHypothesis later]

/-! ## Pairs -/

/-- An encoding has bytes which stand for themselves, and percent signs. -/
theorem mem_encode {c : Char} {text : Text} (bytes : ∀ c ∈ text, c.toNat < 256)
    (member : c ∈ encode text) : isUnreserved c = true ∨ c = '%' := by
  obtain ⟨source, isSource, written⟩ := List.mem_flatMap.mp member
  have isByte := bytes source isSource
  have digits : ∀ value < 16, isUnreserved (upperDigit value) = true := by decide
  rw [encodeByte] at written
  split at written
  · rename_i unreserved
    obtain rfl := List.mem_singleton.mp written
    exact .inl unreserved
  · simp only [List.mem_cons, List.not_mem_nil, or_false] at written
    rcases written with rfl | rfl | rfl
    · exact .inr rfl
    · exact .inl (digits _ (by omega))
    · exact .inl (digits _ (by omega))

theorem not_mem_encode {c : Char} (reserved : isUnreserved c = false) (notPercent : c ≠ '%')
    {text : Text} (bytes : ∀ c ∈ text, c.toNat < 256) : c ∉ encode text := by
  intro member
  rcases mem_encode bytes member with unreserved | isPercent
  · rw [reserved] at unreserved
    cases unreserved
  · exact notPercent isPercent

/-- A name and a value, both encoded. -/
def encodePair (pair : Text × Text) : Text :=
  encode pair.1 ++ '=' :: encode pair.2

/-- Encoded pairs, joined. -/
def encodePairs (pairs : List (Text × Text)) : Text :=
  ['&'].intercalate (pairs.map encodePair)

/-- A pair of byte strings. -/
def BytePair (pair : Text × Text) : Prop :=
  (∀ c ∈ pair.1, c.toNat < 256) ∧ ∀ c ∈ pair.2, c.toNat < 256

/-- Joined pairs come apart at the ampersands. -/
theorem getLines_encodePairs {pairs : List (Text × Text)} (bytes : ∀ pair ∈ pairs, BytePair pair) :
    Text.getLines '&' (encodePairs pairs) = pairs.map encodePair := by
  refine Text.getLines_intercalate fun line member => ?_
  obtain ⟨pair, isPair, rfl⟩ := List.mem_map.mp member
  obtain ⟨nameBytes, valueBytes⟩ := bytes pair isPair
  refine ⟨by simp [encodePair], ?_⟩
  rw [encodePair, List.mem_append, List.mem_cons, not_or, not_or]
  exact ⟨not_mem_encode (by decide) (by decide) nameBytes, by decide,
    not_mem_encode (by decide) (by decide) valueBytes⟩

/-- No encoded pair is empty, so none is dropped with the empty pieces. -/
theorem filled_encodePairs {pairs : List (Text × Text)} (bytes : ∀ pair ∈ pairs, BytePair pair) :
    ((Text.getLines '&' (encodePairs pairs)).filter fun pair => !pair.isEmpty) =
      pairs.map encodePair := by
  rw [getLines_encodePairs bytes, List.filter_eq_self]
  intro line member
  obtain ⟨pair, -, rfl⟩ := List.mem_map.mp member
  simp [encodePair]

/-- A pair comes apart at its equals sign. -/
theorem find_encodePair {pair : Text × Text} (bytes : BytePair pair) :
    Text.find (encodePair pair) '=' 0 = some (encode pair.1).length :=
  Text.find_self (not_mem_encode (by decide) (by decide) bytes.1) _

end Foxhttp.Library.UrlEncoded
