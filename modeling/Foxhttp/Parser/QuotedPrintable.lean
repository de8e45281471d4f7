import Foxhttp.Library.PercentDecoding
import Foxhttp.Library.QuotedPrintable
import Foxhttp.Parser.MultipartDecoding

/-!
# Quoted-printable content of a multipart field

The decoder knows escapes, and an equals sign at the very end of the content. A
soft line break is an equals sign in front of a line end: its characters are no
digits, so all three of them stay in the decoded content.
-/

namespace Foxhttp.Parser.MultipartParser

open Library Library.UrlEncoded Library.QuotedPrintable

/-- `::isxdigit`. -/
def isxdigit (c : Char) : Bool :=
  (digitValue c).isSome

/-- The loop of `quoted_printable_decode`. Two digits are a number, so `std::stoi`
does not throw. -/
def quotedPrintableDecode : Text → Text
  | '=' :: first :: second :: rest =>
      if [first, second].all isxdigit then
        toByte ((stoi16 [first, second]).getD 0) :: quotedPrintableDecode rest
      else '=' :: quotedPrintableDecode (first :: second :: rest)
  | ['='] => []
  | c :: rest => c :: quotedPrintableDecode rest
  | [] => []

/-- What comes out for a token. -/
def decodedToken : Token → Text
  | .softBreak => ['=', '\r', '\n']
  | token => token.bytes

theorem quotedPrintableDecode_plain {c : Char} (plain : c ≠ '=') (rest : Text) :
    quotedPrintableDecode (c :: rest) = c :: quotedPrintableDecode rest := by
  rw [quotedPrintableDecode]
  · rintro first second rest rfl
    exact absurd rfl plain
  · rintro rfl
    exact absurd rfl plain

theorem quotedPrintableDecode_escape {first second : Char} {high low : Nat}
    (isHigh : digitValue first = some high) (isLow : digitValue second = some low) (rest : Text) :
    quotedPrintableDecode ('=' :: first :: second :: rest) =
      Char.ofNat (16 * high + low) :: quotedPrintableDecode rest := by
  have digits : [first, second].all isxdigit = true := by simp [isxdigit, isHigh, isLow]
  have small : 16 * high + low < 256 := by
    have highSmall := digitValue_range isHigh
    have lowSmall := digitValue_range isLow
    omega
  rw [quotedPrintableDecode, if_pos digits, stoi16_pair, readPair, isHigh, isLow,
    Option.getD_some, toByte_natCast small]

/-- Every token but a soft line break comes out as what it stands for. -/
theorem quotedPrintableDecode_render (tokens : List Token) :
    quotedPrintableDecode (render tokens) = tokens.flatMap decodedToken := by
  induction tokens with
  | nil => rfl
  | cons token tokens inductionHypothesis =>
      rw [render, List.flatMap_cons, List.flatMap_cons, ← inductionHypothesis, ← render]
      cases token with
      | literal c valid => exact quotedPrintableDecode_plain (isLiteral_ne valid) _
      | escape first second high low isHigh isLow =>
          exact quotedPrintableDecode_escape isHigh isLow _
      | lineEnd => rfl
      | softBreak => rfl

/-- Each soft line break leaves three characters more than it stands for. -/
theorem length_decodedTokens (tokens : List Token) :
    (tokens.flatMap decodedToken).length = (bytes tokens).length + 3 * tokens.count .softBreak := by
  induction tokens with
  | nil => rfl
  | cons token tokens inductionHypothesis =>
      rw [List.flatMap_cons, bytes, List.flatMap_cons, ← bytes, List.length_append,
        List.length_append, inductionHypothesis, List.count_cons]
      cases token with
      | softBreak =>
          simp only [decodedToken, Token.bytes, List.length_cons, List.length_nil, beq_self_eq_true,
            if_true]
          omega
      | _ =>
          simp only [decodedToken, reduceCtorEq, beq_iff_eq, if_false]
          omega

/-- **Quoted-printable decode undoes encode exactly** for the encodings without a
soft line break. -/
theorem quotedPrintableDecode_render_iff (tokens : List Token) :
    quotedPrintableDecode (render tokens) = bytes tokens ↔ .softBreak ∉ tokens := by
  rw [quotedPrintableDecode_render]
  constructor
  · intro same
    have lengths := length_decodedTokens tokens
    rw [same] at lengths
    exact List.count_eq_zero.mp (by omega)
  · intro unbroken
    refine List.flatMap_congr fun token member => ?_
    cases token with
    | softBreak => exact absurd member unbroken
    | _ => rfl

/-- Two lines of one word: the decoder keeps the break between them. -/
theorem soft_break_kept :
    ¬ ∀ tokens : List Token, Legal tokens →
      quotedPrintableDecode (render tokens) = bytes tokens := by
  intro decodesRendered
  have decoded := decodesRendered [.literal 'a' rfl, .softBreak, .literal 'b' rfl] rfl
  rw [quotedPrintableDecode_render] at decoded
  exact absurd decoded (by decide)

end Foxhttp.Parser.MultipartParser
