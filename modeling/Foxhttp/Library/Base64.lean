import Foxhttp.Library.UrlEncoded

/-!
# Base64

Three bytes make four characters of six bits each, and padding fills the last
group. A decoder with an accumulator of 32 bits shifts six bits in for each
character and takes a byte out as soon as there are eight. It never masks the
accumulator, which overflows; but what it takes out depends on the last twelve
bits only, so whatever was left in front does no harm.
-/

namespace Foxhttp.Library.Base64

open UrlEncoded (toByte toByte_natCast)

/-! ## The encoding -/

/-- The alphabet of base64. -/
def alphabet : Text :=
  "ABCDEFGHIJKLMNOPQRSTUVWXYZabcdefghijklmnopqrstuvwxyz0123456789+/".toList

/-- The character for six bits. -/
def digit (sextet : Nat) : Char :=
  alphabet.getD sextet 'A'

/-- The groups of four characters which encode a text, the last one padded. -/
def quads : Text → List Text
  | [] => []
  | [a] => [[digit (a.toNat / 4), digit (a.toNat % 4 * 16), '=', '=']]
  | [a, b] =>
      [[digit (a.toNat / 4), digit (a.toNat % 4 * 16 + b.toNat / 16),
        digit (b.toNat % 16 * 4), '=']]
  | a :: b :: c :: rest =>
      [digit (a.toNat / 4), digit (a.toNat % 4 * 16 + b.toNat / 16),
        digit (b.toNat % 16 * 4 + c.toNat / 64), digit (c.toNat % 64)] :: quads rest

/-- The base64 encoding of a text, with its padding. -/
def encode (text : Text) : Text :=
  (quads text).flatten

theorem length_quads (text : Text) : (quads text).length = (text.length + 2) / 3 := by
  induction text using quads.induct with
  | case1 => rfl
  | case2 a => simp [quads]
  | case3 a b => simp [quads]
  | case4 a b c rest inductionHypothesis =>
      rw [quads, List.length_cons, inductionHypothesis]
      simp only [List.length_cons]
      omega

/-! ## The decoder -/

/-- What a decoder makes of a character: six bits, nothing, or the end. -/
inductive Reading where
  | bits (sextet : Nat)
  | skip
  | stop
  deriving DecidableEq

/-- A value of the type `int`, modulo 2^32. -/
def wrapInt (value : Int) : Int :=
  (value + 0x80000000) % 0x100000000 - 0x80000000

/-- The loop of a decoder, with its accumulator `val` and the number `valb` of bits
in it beyond the eight which make a byte. -/
def decodeLoop (read : Char → Reading) (val valb : Int) : Text → Text
  | [] => []
  | c :: rest =>
      match read c with
      | .stop => []
      | .skip => decodeLoop read val valb rest
      | .bits sextet =>
          let val := wrapInt (val * 64 + sextet)
          let valb := valb + 6
          if 0 ≤ valb then toByte (val >>> valb.toNat) :: decodeLoop read val (valb - 8) rest
          else decodeLoop read val valb rest

/-- A decoder which knows the alphabet and ends at the padding. -/
structure Reads (read : Char → Reading) : Prop where
  digits : ∀ sextet < 64, read (digit sextet) = .bits sextet
  padding : read '=' = .stop

/-! ## Decoding what was encoded -/

section Decoding

variable {read : Char → Reading}

theorem decodeLoop_stop {c : Char} (stops : read c = .stop) (val valb : Int) (rest : Text) :
    decodeLoop read val valb (c :: rest) = [] := by
  rw [decodeLoop, stops]

/-- Six bits more, which do not make a byte yet. -/
theorem decodeLoop_gather {sextet : Nat} (reads : Reads read) (isSextet : sextet < 64)
    {valb : Int} (few : valb + 6 < 0) (val : Int) (rest : Text) :
    decodeLoop read val valb (digit sextet :: rest) =
      decodeLoop read (wrapInt (val * 64 + sextet)) (valb + 6) rest := by
  rw [decodeLoop, reads.digits sextet isSextet]
  exact if_neg (Int.not_le.mpr few)

/-- Six bits more, and a byte is complete. -/
theorem decodeLoop_emit {sextet : Nat} (reads : Reads read) (isSextet : sextet < 64)
    {valb : Int} (enough : 0 ≤ valb + 6) (val : Int) (rest : Text) :
    decodeLoop read val valb (digit sextet :: rest) =
      toByte (wrapInt (val * 64 + sextet) >>> (valb + 6).toNat) ::
        decodeLoop read (wrapInt (val * 64 + sextet)) (valb + 6 - 8) rest := by
  rw [decodeLoop, reads.digits sextet isSextet]
  exact if_pos enough

theorem toByte_eq {c : Char} {value : Int} (isByte : value % 256 = (c.toNat : Int)) :
    toByte value = c := by
  rw [toByte, isByte, Int.toNat_natCast, Char.ofNat_toNat]

/-- The first two characters of a group give its first byte. -/
theorem decodeLoop_first {a : Char} (reads : Reads read) (isByte : a.toNat < 256) {low : Nat}
    (isLow : low < 16) (val : Int) (rest : Text) :
    ∃ after, decodeLoop read val (-8) (digit (a.toNat / 4) :: digit (a.toNat % 4 * 16 + low) ::
      rest) = a :: decodeLoop read after (-4) rest ∧ after % 16 = (low : Int) := by
  refine ⟨wrapInt (wrapInt (val * 64 + (a.toNat / 4 : Nat)) * 64 + (a.toNat % 4 * 16 + low : Nat)),
    ?_, ?_⟩
  · rw [decodeLoop_gather reads (by omega) (by decide),
      decodeLoop_emit reads (by omega) (by decide)]
    refine congrArg (List.cons · _) (toByte_eq ?_)
    simp only [wrapInt, Int.shiftRight_eq_div_pow, Int.reduceAdd, Int.reduceNeg,
      Int.reduceToNat, Nat.reducePow]
    omega
  · simp only [wrapInt]
    omega

/-- The third character completes the second byte. -/
theorem decodeLoop_second {b : Char} (reads : Reads read) (isByte : b.toNat < 256) {low : Nat}
    (isLow : low < 4) {val : Int} (begun : val % 16 = (b.toNat / 16 : Nat)) (rest : Text) :
    ∃ after, decodeLoop read val (-4) (digit (b.toNat % 16 * 4 + low) :: rest) =
      b :: decodeLoop read after (-6) rest ∧ after % 4 = (low : Int) := by
  refine ⟨wrapInt (val * 64 + (b.toNat % 16 * 4 + low : Nat)), ?_, ?_⟩
  · rw [decodeLoop_emit reads (by omega) (by decide)]
    refine congrArg (List.cons · _) (toByte_eq ?_)
    simp only [wrapInt, Int.shiftRight_eq_div_pow, Int.reduceAdd, Int.reduceNeg,
      Int.reduceToNat, Nat.reducePow]
    omega
  · simp only [wrapInt]
    omega

/-- The fourth character completes the third byte. -/
theorem decodeLoop_third {c : Char} (reads : Reads read) (isByte : c.toNat < 256) {val : Int}
    (begun : val % 4 = (c.toNat / 64 : Nat)) (rest : Text) :
    ∃ after, decodeLoop read val (-6) (digit (c.toNat % 64) :: rest) =
      c :: decodeLoop read after (-8) rest := by
  refine ⟨wrapInt (val * 64 + (c.toNat % 64 : Nat)), ?_⟩
  rw [decodeLoop_emit reads (by omega) (by decide)]
  refine congrArg (List.cons · _) (toByte_eq ?_)
  simp only [wrapInt, Int.shiftRight_eq_div_pow, Int.reduceAdd, Int.reduceNeg, Int.toNat_zero,
    Nat.reducePow]
  omega

/-- A full group gives its three bytes and leaves the decoder between two groups,
whatever is in the accumulator. -/
theorem decodeLoop_quad {a b c : Char} (reads : Reads read) (aByte : a.toNat < 256)
    (bByte : b.toNat < 256) (cByte : c.toNat < 256) (val : Int) (rest : Text) :
    ∃ after, decodeLoop read val (-8) (digit (a.toNat / 4) ::
      digit (a.toNat % 4 * 16 + b.toNat / 16) :: digit (b.toNat % 16 * 4 + c.toNat / 64) ::
        digit (c.toNat % 64) :: rest) = a :: b :: c :: decodeLoop read after (-8) rest := by
  have highOfSecond : b.toNat / 16 < 16 := by omega
  have highOfThird : c.toNat / 64 < 4 := by omega
  obtain ⟨one, first, oneIs⟩ := decodeLoop_first reads aByte highOfSecond val
    (digit (b.toNat % 16 * 4 + c.toNat / 64) :: digit (c.toNat % 64) :: rest)
  obtain ⟨two, second, twoIs⟩ := decodeLoop_second reads bByte highOfThird oneIs
    (digit (c.toNat % 64) :: rest)
  obtain ⟨three, third⟩ := decodeLoop_third reads cByte twoIs rest
  exact ⟨three, by rw [first, second, third]⟩

/-- The first groups of an encoding, up to where the decoder ends, give the bytes
they stand for. -/
theorem decodeLoop_quads (reads : Reads read) {tail : Text}
    (ends : ∀ val, decodeLoop read val (-8) tail = []) {text : Text} {front back : List Text}
    (bytes : ∀ c ∈ text, c.toNat < 256) (split : quads text = front ++ back) (val : Int) :
    decodeLoop read val (-8) (front.flatten ++ tail) = text.take (3 * front.length) := by
  -- One group at a time; no group in front leaves the tail only.
  induction text using quads.induct generalizing front val with
  | case1 =>
      obtain ⟨rfl, -⟩ := List.nil_eq_append_iff.mp split
      exact ends val
  | case2 a =>
      rw [quads, List.singleton_eq_append_iff] at split
      rcases split with ⟨rfl, -⟩ | ⟨rfl, -⟩
      · exact ends val
      · obtain ⟨after, first, -⟩ := decodeLoop_first reads (bytes a (by simp)) (by decide : 0 < 16)
          val ('=' :: '=' :: tail)
        exact first.trans (congrArg _ (decodeLoop_stop reads.padding _ _ _))
  | case3 a b =>
      rw [quads, List.singleton_eq_append_iff] at split
      rcases split with ⟨rfl, -⟩ | ⟨rfl, -⟩
      · exact ends val
      · have bByte := bytes b (by simp)
        have highOfSecond : b.toNat / 16 < 16 := by omega
        obtain ⟨one, first, oneIs⟩ := decodeLoop_first reads (bytes a (by simp)) highOfSecond val
          (digit (b.toNat % 16 * 4) :: '=' :: tail)
        obtain ⟨two, second, -⟩ := decodeLoop_second reads bByte (by decide : 0 < 4) oneIs
          ('=' :: tail)
        refine first.trans (congrArg _ (second.trans (congrArg _ ?_)))
        exact decodeLoop_stop reads.padding _ _ _
  | case4 a b c rest inductionHypothesis =>
      cases front with
      | nil => exact ends val
      | cons quad front =>
          rw [quads, List.cons_append, List.cons.injEq] at split
          obtain ⟨rfl, split⟩ := split
          have later : ∀ d ∈ rest, d.toNat < 256 := fun d member => bytes d (by simp [member])
          obtain ⟨after, decoded⟩ := decodeLoop_quad reads (bytes a (by simp))
            (bytes b (by simp)) (bytes c (by simp)) val (front.flatten ++ tail)
          have restDecoded := inductionHypothesis later split after
          rw [List.flatten_cons, List.append_assoc, List.length_cons, Nat.mul_succ]
          refine decoded.trans ?_
          rw [restDecoded]
          rfl

/-- A decoder undoes the encoding. -/
theorem decodeLoop_encode (reads : Reads read) {text : Text} (bytes : ∀ c ∈ text, c.toNat < 256)
    (val : Int) : decodeLoop read val (-8) (encode text) = text := by
  have ends : ∀ val, decodeLoop read val (-8) [] = [] := fun _ => rfl
  have decoded := decodeLoop_quads reads ends bytes (List.append_nil _).symm val
  rw [List.append_nil, length_quads] at decoded
  rw [encode, decoded]
  exact List.take_of_length_le (by omega)

end Decoding

end Foxhttp.Library.Base64
