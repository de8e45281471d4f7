import Foxhttp.Middleware.Negotiation

/-!
# Does the label fit the bytes?

`compress_response` names the coding it has chosen. What it sends is left to the
compressors, and these fall back: Brotli on gzip where it is not built in or
fails, and deflate on what there is when zlib fails. The label does not follow.
-/

namespace Foxhttp.Middleware

open Foxhttp.Library

/-- How the zlib filter ends: with the whole stream, with an error when it has
given a part, or with an error when it is made. -/
inductive Deflation where
  | whole (stream : Text)
  | broken (part : Text)
  | refused
  deriving DecidableEq, Repr

/-- The codecs a build has: gzip, which throws, raw zlib, and Brotli, which only
builds with `USING_BROTLI` have. -/
structure Compressors where
  gzip : Text → Except Text Text
  zlib : Text → Deflation
  brotli : Option (Text → Option Text)

/-- The statements of `compress_response` behind the compressors. -/
def CompressionMiddleware.label (res : HttpResponse) (type : CompressionType)
    (compressed : Text) : HttpResponse :=
  let encoded := res.set "Content-Encoding".toList type.encodingName
  ({ encoded with body := compressed } : HttpResponse).set "Content-Length".toList
    (Nat.toDigits 10 compressed.length)

namespace Compressors

variable (compressors : Compressors) (quality : Text → Option Int)

/-- `compress_gzip`. -/
def compressGzip (input : Text) : Except Text Text :=
  compressors.gzip input

/-- `compress_deflate`. An error within `operator<<` does not leave it. -/
def compressDeflate (input : Text) : Text :=
  match compressors.zlib input with
  | .whole stream => stream
  | .broken part => part
  | .refused => input

/-- `compress_brotli`. -/
def compressBrotli (input : Text) : Except Text Text :=
  match compressors.brotli with
  | none => compressors.compressGzip input
  | some encode =>
      match encode input with
      | none => compressors.compressGzip input
      | some encoded => .ok encoded

/-- The compressor of a coding. -/
def compress (type : CompressionType) (input : Text) : Except Text Text :=
  match type with
  | .gzip => compressors.compressGzip input
  | .deflate => .ok (compressors.compressDeflate input)
  | .br => compressors.compressBrotli input

/-- The codecs where no compressor throws. -/
def codecs : Codecs where
  compress type input := (compressors.compress type input).toOption.getD input
  quality := quality

/-- `compress_response`; an exception leaves the response as it is. -/
def compressResponse (mw : CompressionMiddleware) (request : HttpRequest) (res : HttpResponse) :
    Except Text HttpResponse :=
  match CompressionMiddleware.bestType (compressors.codecs quality)
      (request.header "Accept-Encoding".toList) mw.supportedTypes (-1) none with
  | none => .ok res
  | some type => (compressors.compress type res.body).map (CompressionMiddleware.label res type)

/-- What both overloads do after `next()`. -/
def finish (mw : CompressionMiddleware) (request : HttpRequest) (res : HttpResponse) :
    Except Text HttpResponse :=
  if mw.shouldCompress request res then compressors.compressResponse quality mw request res
  else .ok res

variable {compressors quality} {mw : CompressionMiddleware} {request : HttpRequest}
  {res out : HttpResponse}

theorem compressResponse_ok
    (ends : compressors.compressResponse quality mw request res = .ok out) :
    mw.compressResponse (compressors.codecs quality) request res = out := by
  rw [compressResponse] at ends
  rw [CompressionMiddleware.compressResponse]
  cases chosen : CompressionMiddleware.bestType (compressors.codecs quality)
      (request.header "Accept-Encoding".toList) mw.supportedTypes (-1) none with
  | none =>
      rw [chosen] at ends
      cases ends
      rfl
  | some type =>
      rw [chosen] at ends
      cases made : compressors.compress type res.body with
      | error what =>
          simp only [made] at ends
          cases ends
      | ok compressed =>
          simp only [made] at ends
          cases ends
          simp only [codecs, made, Except.toOption, Option.getD_some]
          rfl

/-- Where no compressor throws, the response is that of the middleware with these codecs. -/
theorem finish_ok (ends : compressors.finish quality mw request res = .ok out) :
    mw.finish (compressors.codecs quality) request res = out := by
  rw [finish] at ends
  rw [CompressionMiddleware.finish]
  split at ends
  · rename_i compresses
    rw [if_pos compresses]
    exact compressResponse_ok ends
  · rename_i leaves
    rw [if_neg leaves]
    exact Except.ok.inj ends

end Compressors

/-- The decoders of a client. -/
abbrev Decoders := CompressionType → Text → Option Text

/-- Each decoder takes back what its codec gives. A deflate stream which breaks
off is none, and the Brotli decoder does not take gzip for Brotli. -/
structure CodecsCorrect (compressors : Compressors) (decode : Decoders) : Prop where
  gzip : ∀ text stream, compressors.gzip text = .ok stream → decode .gzip stream = some text
  zlib : ∀ text stream, compressors.zlib text = .whole stream →
    decode .deflate stream = some text
  brotli : ∀ encode text stream, compressors.brotli = some encode → encode text = some stream →
    decode .br stream = some text
  broken : ∀ text part, compressors.zlib text = .broken part → decode .deflate part ≠ some text
  apart : ∀ text stream, compressors.gzip text = .ok stream → decode .br stream ≠ some text

/-- An encoded response has the coding it names and the length it says, and a
response which is not encoded is left as it is. -/
def TellsTruth (decode : Decoders) (res : HttpResponse) : Except Text HttpResponse → Prop
  | .error _ => True
  | .ok out => out = res ∨ ∃ type : CompressionType,
      out.fields.find "Content-Encoding".toList = some type.encodingName ∧
      decode type out.body = some res.body ∧
      out.fields.find "Content-Length".toList = some (Nat.toDigits 10 out.body.length)

/-- A compressor does not fall back on something else. Where zlib is refused
the text itself may be taken for its stream. -/
def Compressors.StandsBy (compressors : Compressors) (decode : Decoders) (type : CompressionType)
    (text : Text) : Prop :=
  match type with
  | .gzip => True
  | .deflate => (∃ stream, compressors.zlib text = .whole stream) ∨
      compressors.zlib text = .refused ∧ decode .deflate text = some text
  | .br => (∃ encode stream, compressors.brotli = some encode ∧ encode text = some stream) ∨
      ∃ what, compressors.gzip text = .error what

/-- The priority of a coding in `Accept-Encoding`: that of the first q-value
behind its name, where that occurs. -/
def CompressionMiddleware.priority (codecs : Codecs) (acceptEncoding : Text)
    (type : CompressionType) : Option Int :=
  (Text.fromFirst acceptEncoding type.encodingName).map (priorityOf codecs)

variable {compressors : Compressors} {decode : Decoders}

/-- A compressor gives a stream of its text exactly when it stands by its coding. -/
theorem compressed_iff (correct : CodecsCorrect compressors decode) (type : CompressionType)
    (text : Text) :
    (∀ compressed, compressors.compress type text = .ok compressed →
        decode type compressed = some text) ↔
      compressors.StandsBy decode type text := by
  cases type with
  | gzip => exact iff_of_true (correct.gzip text) trivial
  | deflate =>
      simp only [Compressors.compress, Except.ok.injEq, forall_eq', Compressors.StandsBy,
        Compressors.compressDeflate]
      cases ends : compressors.zlib text with
      | whole stream => exact iff_of_true (correct.zlib text stream ends) (.inl ⟨stream, rfl⟩)
      | broken part =>
          refine iff_of_false (correct.broken text part ends) ?_
          rintro (⟨stream, absurdity⟩ | ⟨absurdity, -⟩) <;> cases absurdity
      | refused => simp
  | br =>
      -- the gzip stream of a fallback is not one of Brotli
      have fallback : (∀ compressed, compressors.gzip text = .ok compressed →
          decode .br compressed = some text) ↔ ∃ what, compressors.gzip text = .error what := by
        cases ends : compressors.gzip text with
        | error what => exact iff_of_true (fun _ absurdity => by cases absurdity) ⟨what, rfl⟩
        | ok stream =>
            refine iff_of_false
              (fun decodes => correct.apart text stream ends (decodes stream rfl)) ?_
            rintro ⟨what, absurdity⟩
            cases absurdity
      simp only [Compressors.compress, Compressors.StandsBy, Compressors.compressBrotli,
        Compressors.compressGzip]
      cases built : compressors.brotli with
      | none => simpa using fallback
      | some encode =>
          cases ends : encode text with
          | none => simpa [ends] using fallback
          | some stream =>
              refine iff_of_true ?_ (.inl ⟨encode, stream, rfl, ends⟩)
              intro compressed same
              simp only [ends] at same
              cases same
              exact correct.brotli encode text stream built ends

/-- A response is encoded by the compressor of the first coding with the
highest priority. -/
theorem compressResponse_cases (compressors : Compressors) (quality : Text → Option Int)
    (mw : CompressionMiddleware) (request : HttpRequest) (res : HttpResponse) :
    (compressors.compressResponse quality mw request res = .ok res ∧
        AtMost (CompressionMiddleware.priority (compressors.codecs quality)
          (request.header "Accept-Encoding".toList)) mw.supportedTypes (-1)) ∨
      ∃ type priority, -1 < priority ∧
        FirstBest (CompressionMiddleware.priority (compressors.codecs quality)
          (request.header "Accept-Encoding".toList)) mw.supportedTypes type priority ∧
        compressors.compressResponse quality mw request res =
          (compressors.compress type res.body).map (CompressionMiddleware.label res type) := by
  have chosen := CompressionMiddleware.bestType_eq (compressors.codecs quality)
    (request.header "Accept-Encoding".toList) mw.supportedTypes (-1) none
  rcases @keepBest_cases _ (CompressionMiddleware.priority (compressors.codecs quality)
      (request.header "Accept-Encoding".toList)) mw.supportedTypes (-1) none with
    ⟨kept, atMost⟩ | ⟨type, priority, ends, above, first⟩
  · refine .inl ⟨?_, atMost⟩
    rw [Compressors.compressResponse, chosen.trans kept]
  · refine .inr ⟨type, priority, above, first, ?_⟩
    rw [Compressors.compressResponse, chosen.trans ends]

theorem find_label (res : HttpResponse) (type : CompressionType) (compressed : Text) :
    (CompressionMiddleware.label res type compressed).fields.find "Content-Encoding".toList =
        some type.encodingName ∧
      (CompressionMiddleware.label res type compressed).fields.find "Content-Length".toList =
        some (Nat.toDigits 10 compressed.length) := by
  refine ⟨?_, Fields.find_set _ _ _⟩
  exact (Fields.find_set_other _ _ (by decide)).trans (Fields.find_set _ _ _)

/-- A label tells the truth about what is decoded to the text. -/
theorem tellsTruth_label_iff {res : HttpResponse}
    (unencoded : res.fields.find "Content-Encoding".toList = none) (type : CompressionType)
    (outcome : Except Text Text) :
    TellsTruth decode res (outcome.map (CompressionMiddleware.label res type)) ↔
      ∀ compressed, outcome = .ok compressed → decode type compressed = some res.body := by
  cases outcome with
  | error what => exact iff_of_true trivial fun _ absurdity => by cases absurdity
  | ok compressed =>
      obtain ⟨named, length⟩ := find_label res type compressed
      simp only [Except.map, TellsTruth, Except.ok.injEq, forall_eq']
      constructor
      · rintro (same | ⟨other, isOther, decoded, -⟩)
        · rw [same, unencoded] at named
          cases named
        · rw [named] at isOther
          obtain rfl := encodingName_injective (Option.some.inj isOther)
          exact decoded
      · intro decoded
        exact .inr ⟨type, named, decoded, length⟩

/-- **Content-Encoding tells the truth** exactly when the compressor of the coding
which is chosen, the first of those with the highest priority, stands by it. -/
theorem tells_truth_iff (correct : CodecsCorrect compressors decode)
    (quality : Text → Option Int) (mw : CompressionMiddleware) (request : HttpRequest)
    (res : HttpResponse) :
    TellsTruth decode res (compressors.finish quality mw request res) ↔
      (mw.shouldCompress request res = true → ∀ type priority, -1 < priority →
        FirstBest (CompressionMiddleware.priority (compressors.codecs quality)
          (request.header "Accept-Encoding".toList)) mw.supportedTypes type priority →
        compressors.StandsBy decode type res.body) := by
  rw [Compressors.finish]
  split
  · rename_i compresses
    have unencoded : res.fields.find "Content-Encoding".toList = none := by
      rw [CompressionMiddleware.shouldCompress] at compresses
      split at compresses
      · cases compresses
      · rename_i absent
        exact Option.not_isSome_iff_eq_none.mp absent
    rcases compressResponse_cases compressors quality mw request res with
      ⟨isLeft, atMost⟩ | ⟨type, priority, above, first, encodes⟩
    · rw [isLeft]
      refine iff_of_true (.inl rfl) fun _ type priority above first => ?_
      exact absurd above (Int.not_lt.mpr (atMost type first.mem priority first.rated))
    · rw [encodes, tellsTruth_label_iff unencoded, compressed_iff correct]
      constructor
      · intro stands _ other otherPriority _ also
        obtain rfl := first.unique also
        exact stands
      · intro stands
        exact stands compresses type priority above first
  · rename_i leaves
    exact iff_of_true (.inl rfl) fun compresses => absurd compresses leaves

/-! ## The response of one letter -/

/-- A stream of bytes. -/
def streamOf (values : List Nat) : Text :=
  values.map Char.ofNat

/-- The gzip stream of the letter a. -/
def letterGzip : Text :=
  streamOf [0x1f, 0x8b, 8, 0, 0, 0, 0, 0, 2, 0xff, 0x4b, 4, 0, 0x43, 0xbe, 0xb7, 0xe8, 1, 0, 0, 0]

/-- The raw deflate stream of the letter a. -/
def letterDeflate : Text :=
  streamOf [0x4b, 4, 0]

/-- Compressors of the letter a, in a build without Brotli. -/
def letterCompressors : Compressors where
  gzip text := if text = ['a'] then .ok letterGzip else .error "gzip error".toList
  zlib text := if text = ['a'] then .whole letterDeflate else .refused
  brotli := none

def letterDecoders : Decoders
  | .gzip => fun stream => if stream = letterGzip then some ['a'] else none
  | .deflate => fun stream => if stream = letterDeflate then some ['a'] else none
  | .br => fun _ => none

theorem letterCodecs_correct : CodecsCorrect letterCompressors letterDecoders where
  gzip text stream isStream := by
    simp only [letterCompressors] at isStream
    split at isStream
    · rename_i isLetter
      cases isStream
      rw [isLetter]
      decide
    · cases isStream
  zlib text stream isStream := by
    simp only [letterCompressors] at isStream
    split at isStream
    · rename_i isLetter
      cases isStream
      rw [isLetter]
      decide
    · cases isStream
  brotli encode text stream built := by cases built
  broken text part isPart := by
    simp only [letterCompressors] at isPart
    split at isPart <;> cases isPart
  apart text stream _ decoded := by cases decoded

/-- A request which accepts a coding. -/
def accepting (type : CompressionType) : HttpRequest :=
  ⟨.get, [("Accept-Encoding".toList, type.encodingName)], []⟩

/-- Without Brotli, gzip and deflate tell the truth. -/
theorem tells_truth_deflate :
    TellsTruth letterDecoders ⟨200, [], ['a']⟩
      (letterCompressors.finish leadingThousandths ⟨0, [.gzip, .deflate]⟩ (accepting .deflate)
        ⟨200, [], ['a']⟩) := by
  refine (tells_truth_iff letterCodecs_correct leadingThousandths ⟨0, [.gzip, .deflate]⟩
    (accepting .deflate) ⟨200, [], ['a']⟩).mpr fun _ type priority _ first => ?_
  rcases List.mem_cons.mp first.mem with rfl | later
  · trivial
  · cases List.mem_singleton.mp later
    exact .inl ⟨letterDeflate, rfl⟩

/-- Without Brotli, `br` names a gzip stream. -/
theorem br_names_gzip :
    ¬ ∀ (compressors : Compressors) (decode : Decoders) (quality : Text → Option Int)
      (mw : CompressionMiddleware) (request : HttpRequest) (res : HttpResponse),
      CodecsCorrect compressors decode →
        TellsTruth decode res (compressors.finish quality mw request res) := by
  intro tellsTruth
  have isGzip : letterCompressors.finish leadingThousandths ⟨0, [.br]⟩ (accepting .br)
      ⟨200, [], ['a']⟩ = .ok (CompressionMiddleware.label ⟨200, [], ['a']⟩ .br letterGzip) := by
    rfl
  have told := tellsTruth letterCompressors letterDecoders leadingThousandths ⟨0, [.br]⟩
    (accepting .br) ⟨200, [], ['a']⟩ letterCodecs_correct
  rw [isGzip] at told
  have decoded := (tellsTruth_label_iff rfl .br (.ok letterGzip)).mp told letterGzip rfl
  cases decoded

end Foxhttp.Middleware
