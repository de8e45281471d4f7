import Mathlib.Data.List.TakeDrop
import Foxhttp.Library.Base64

/-!
# Base64 content of a multipart field

A field with the transfer encoding base64 has lines of at most 76 characters.
The decoder ends at the first character which is not in the alphabet, and the
first line break is one: of an encoding of several lines only the first is
decoded, and what the others carry is lost.
-/

namespace Foxhttp.Parser.MultipartParser

open Library Library.Base64

/-- The alphabet, each character at its value. -/
def chars : Text :=
  "ABCDEFGHIJKLMNOPQRSTUVWXYZabcdefghijklmnopqrstuvwxyz0123456789+/".toList

/-- What a character is to the decoder: `char_to_index` has it, or the loop ends. -/
def charToIndex (c : Char) : Reading :=
  match chars.idxOf? c with
  | some index => .bits index
  | none => .stop

/-- `base64_decode`. -/
def base64Decode (encoded : Text) : Text :=
  decodeLoop charToIndex 0 (-8) encoded

/-- The two characters between the lines of an encoding. -/
def lineBreak : Text :=
  ['\r', '\n']

/-- The lines which write an encoding down, each of at most 76 characters, broken
between groups of four characters. -/
structure MimeLines (text : Text) (lines : List (List Text)) : Prop where
  encodes : lines.flatten = quads text
  short : ∀ line ∈ lines, line.length ≤ 19

/-- An encoding as it stands in the body. -/
def mimeText (lines : List (List Text)) : Text :=
  lineBreak.intercalate (lines.map List.flatten)

theorem reads_charToIndex : Reads charToIndex where
  digits := by decide +kernel
  padding := rfl

/-- The decoder ends where a line does. -/
theorem decodeLoop_behind (lines : List (List Text)) : ∃ tail,
    mimeText lines = (lines.headD []).flatten ++ tail ∧
      ∀ val, decodeLoop charToIndex val (-8) tail = [] := by
  match lines with
  | [] => exact ⟨[], rfl, fun _ => rfl⟩
  | [line] =>
      refine ⟨[], ?_, fun _ => rfl⟩
      simp [mimeText]
  | line :: second :: later =>
      refine ⟨lineBreak ++ mimeText (second :: later), ?_,
        fun val => decodeLoop_stop (by decide) val (-8) _⟩
      simp [mimeText, List.intercalate]

/-- What comes out are the bytes of the first line. -/
theorem base64Decode_mimeText {text : Text} (bytes : ∀ c ∈ text, c.toNat < 256)
    {lines : List (List Text)} (written : MimeLines text lines) :
    base64Decode (mimeText lines) = text.take (3 * (lines.headD []).length) := by
  obtain ⟨tail, isText, ends⟩ := decodeLoop_behind lines
  have split : quads text = lines.headD [] ++ lines.tail.flatten := by
    rw [← written.encodes]
    cases lines with
    | nil => rfl
    | cons line later => rfl
  rw [base64Decode, isText]
  exact decodeLoop_quads reads_charToIndex ends bytes split 0

/-- The decoder gives the bytes back exactly when nothing of their encoding stands
behind the first line. -/
theorem base64Decode_mimeText_iff {text : Text} (bytes : ∀ c ∈ text, c.toNat < 256)
    {lines : List (List Text)} (written : MimeLines text lines) :
    base64Decode (mimeText lines) = text ↔ ∀ line ∈ lines.tail, line = [] := by
  have total : (lines.headD []).length + lines.tail.flatten.length = (text.length + 2) / 3 := by
    rw [← length_quads, ← written.encodes]
    cases lines with
    | nil => rfl
    | cons line later => rw [List.flatten_cons, List.length_append]; rfl
  calc base64Decode (mimeText lines) = text
      ↔ text.length ≤ 3 * (lines.headD []).length := by
        rw [base64Decode_mimeText bytes written, List.take_eq_self_iff]
    _ ↔ lines.tail.flatten.length = 0 := by omega
    _ ↔ ∀ line ∈ lines.tail, line = [] := by
        rw [List.length_eq_zero_iff, List.flatten_eq_nil_iff]

/-- One line, and the line break behind it. -/
theorem base64Decode_mimeText_oneLine :
    (MimeLines "Man".toList [["TWFu".toList], []] ∧
      (base64Decode "TWFu\r\n".toList = "Man".toList ↔
        ∀ line ∈ ([[]] : List (List Text)), line = [])) := by
  have written : MimeLines "Man".toList [["TWFu".toList], []] := ⟨rfl, by decide⟩
  exact ⟨written, base64Decode_mimeText_iff (by simp) written⟩

/-- Sixty bytes fill a line and need four characters more. -/
theorem second_line_lost :
    MimeLines (List.replicate 60 'M') [List.replicate 19 "TU1N".toList, ["TU1N".toList]] ∧
      base64Decode (mimeText [List.replicate 19 "TU1N".toList, ["TU1N".toList]]) =
        List.replicate 57 'M' ∧
      base64Decode (mimeText [List.replicate 19 "TU1N".toList, ["TU1N".toList]]) ≠
        List.replicate 60 'M' := by
  have written :
      MimeLines (List.replicate 60 'M') [List.replicate 19 "TU1N".toList, ["TU1N".toList]] :=
    ⟨rfl, by decide⟩
  have decoded := (base64Decode_mimeText (by simp) written).trans
    (by decide : _ = List.replicate 57 'M')
  exact ⟨written, decoded, fun all => absurd (decoded.symm.trans all) (by decide)⟩

end Foxhttp.Parser.MultipartParser
