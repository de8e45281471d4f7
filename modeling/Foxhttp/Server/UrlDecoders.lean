import Foxhttp.Library.PercentDecoding
import Foxhttp.Parser.Form
import Foxhttp.Server.QueryParameters

/-!
# Do both URL decoders decode?

`FormParserImpl::url_decode` and the `url_decode` of the request context hand
the two characters behind a percent sign to a number parser and look only at
whether it found a number. A number of one digit is enough for both, so what is
not an escape may be taken for one.
-/

namespace Foxhttp.Server

open Foxhttp.Library Foxhttp.Library.UrlEncoded
open Foxhttp.Parser (FormParser.urlDecode)

/-- The request context decodes a text right exactly when no two characters
behind a percent sign of it are misread. -/
theorem urlDecode_eq_iff (s : Text) :
    urlDecode s = percentDecode s ↔
      Escapes s fun first second => ¬ Misread first second := by
  rw [urlDecode]
  simpa only [misreads_stoi16] using decodeWith_eq_iff readsBytes_stoi16 s

/-- The form parser reads no bare `0x` either. -/
theorem formUrlDecode_eq_iff (s : Text) :
    FormParser.urlDecode s = percentDecode s ↔
      Escapes s fun first second =>
        Misread first second → first = '0' ∧ (second = 'x' ∨ second = 'X') := by
  rw [FormParser.urlDecode]
  simpa only [misreads_extractHex, not_and_not_right] using
    decodeWith_eq_iff readsBytes_extractHex s

/-- **Both decoders meet the reference** on a text exactly when no percent sign
of it is followed by a digit and something else, or by a blank or a sign and a
digit. -/
theorem decoders_eq_iff (s : Text) :
    (FormParser.urlDecode s = percentDecode s ∧ urlDecode s = percentDecode s) ↔
      ∀ first second, ['%', first, second] <:+: s → ¬ Misread first second := by
  rw [formUrlDecode_eq_iff, urlDecode_eq_iff]
  refine ⟨fun both => both.2, fun strict => ⟨?_, strict⟩⟩
  exact fun first second inner misread => (strict first second inner misread).elim

/-- One digit behind a percent sign swallows what follows it. -/
theorem one_digit_decoded :
    ¬ ∀ s : Text, FormParser.urlDecode s = percentDecode s ∧ urlDecode s = percentDecode s := by
  intro decodersAgree
  have decoded := (decodersAgree "%1g".toList).2
  revert decoded
  decide

end Foxhttp.Server
