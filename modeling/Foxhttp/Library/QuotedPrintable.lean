import Foxhttp.Library.UrlEncoded

/-!
# Quoted-printable

An encoding is a sequence of tokens: characters which stand for themselves,
bytes as two hexadecimal digits, line ends of the text, and soft line breaks,
which stand for nothing. A byte string has many encodings; `Legal` says which of
them keep the rules of RFC 2045 for lines.
-/

namespace Foxhttp.Library.QuotedPrintable

open UrlEncoded (digitValue)

/-- A blank or a tab. -/
def isBlank (c : Char) : Bool :=
  c == ' ' || c == '\t'

/-- The characters which may stand for themselves. -/
def isLiteral (c : Char) : Bool :=
  ('!' ≤ c && c ≤ '~' && c != '=') || isBlank c

/-- A token of an encoding. -/
inductive Token where
  | literal (c : Char) (valid : isLiteral c = true)
  | escape (first second : Char) (high low : Nat) (isHigh : digitValue first = some high)
      (isLow : digitValue second = some low)
  | lineEnd
  | softBreak
deriving DecidableEq

/-- The characters of a token. -/
def Token.render : Token → Text
  | literal c _ => [c]
  | escape first second _ _ _ _ => ['=', first, second]
  | lineEnd => ['\r', '\n']
  | softBreak => ['=', '\r', '\n']

/-- The bytes a token stands for. -/
def Token.bytes : Token → Text
  | literal c _ => [c]
  | escape _ _ high low _ _ => [Char.ofNat (16 * high + low)]
  | lineEnd => ['\r', '\n']
  | softBreak => []

/-- The text of an encoding. -/
def render (tokens : List Token) : Text :=
  tokens.flatMap Token.render

/-- The bytes which were encoded. -/
def bytes (tokens : List Token) : Text :=
  tokens.flatMap Token.bytes

/-- The rules for lines, from a column on: no line has more than 76 characters,
and none ends in a blank. -/
def legalFrom (column : Nat) (blank : Bool) : List Token → Bool
  | [] => column ≤ 76 && !blank
  | .literal c _ :: rest => legalFrom (column + 1) (isBlank c) rest
  | .escape _ _ _ _ _ _ :: rest => legalFrom (column + 3) false rest
  | .lineEnd :: rest => column ≤ 76 && !blank && legalFrom 0 false rest
  | .softBreak :: rest => column + 1 ≤ 76 && legalFrom 0 false rest

/-- An encoding by the rules of RFC 2045. -/
def Legal (tokens : List Token) : Prop :=
  legalFrom 0 false tokens = true

instance (tokens : List Token) : Decidable (Legal tokens) :=
  inferInstanceAs (Decidable (_ = true))

/-- A sign of an escape stands for itself nowhere. -/
theorem isLiteral_ne {c : Char} (valid : isLiteral c = true) : c ≠ '=' := by
  rintro rfl
  cases valid

end Foxhttp.Library.QuotedPrintable
