import Mathlib.Data.List.Infix
import Foxhttp.Library.Preference
import Foxhttp.Middleware.BuiltIn

/-!
# Does the compression honour the client?

`compress_response` looks for the name of a coding anywhere in `Accept-Encoding`
and takes the first q-value behind it for its own. A coding without a q-value
has the one of a later coding, or a thousandth where none follows, a q-value of
zero is a priority like any other, and a name inside another name counts.
-/

namespace Foxhttp.Middleware

open Foxhttp.Library

/-- A q-value: a digit and at most three decimals, one at most. -/
structure QValue where
  whole : Fin 2
  decimals : List (Fin 10)
  short : decimals.length ≤ 3
  atMostOne : whole = 1 → ∀ digit ∈ decimals, digit = 0

namespace QValue

def render (q : QValue) : Text :=
  q.whole.val.digitChar ::
    if q.decimals = [] then [] else '.' :: q.decimals.map fun digit => digit.val.digitChar

/-- What decimals add, where the first is worth `scale`. -/
def fraction : Nat → List (Fin 10) → Nat
  | _, [] => 0
  | scale, digit :: rest => scale * digit + fraction (scale / 10) rest

def thousandths (q : QValue) : Nat :=
  1000 * q.whole + fraction 100 q.decimals

end QValue

/-- The characters of a token. -/
def isTokenChar (c : Char) : Bool :=
  c.isAlphanum || "!#$%&'*+-.^_|~".toList.contains c || c == Char.ofNat 0x60

/-- A coding of an `Accept-Encoding`, with its q-value where it has one. -/
structure AcceptedCoding where
  coding : Text
  quality : Option QValue
  isToken : coding ≠ [] ∧ coding.all isTokenChar = true

namespace AcceptedCoding

def parameter (accepted : AcceptedCoding) : Text :=
  accepted.quality.elim [] fun q => ";q=".toList ++ q.render

def render (accepted : AcceptedCoding) : Text :=
  accepted.coding ++ accepted.parameter

/-- The q-value in thousandths, which is one where there is none. -/
def weight (accepted : AcceptedCoding) : Nat :=
  accepted.quality.elim 1000 QValue.thousandths

end AcceptedCoding

/-- An `Accept-Encoding` of distinct codings. -/
structure AcceptEncoding where
  codings : List AcceptedCoding
  distinct : (codings.map AcceptedCoding.coding).Nodup

/-- Codings, each behind a separator. -/
def following (codings : List AcceptedCoding) : Text :=
  codings.flatMap fun accepted => ", ".toList ++ accepted.render

/-- The first q-value which some of the codings have, in thousandths, or else one
thousandth. -/
def explicit (codings : List AcceptedCoding) : Nat :=
  (codings.findSome? AcceptedCoding.quality).elim 1 QValue.thousandths

/-- That of the first q-value from where the name of a coding first occurs. -/
def borrowedFrom (type : CompressionType) : List AcceptedCoding → Option Int
  | [] => none
  | accepted :: rest =>
      if type.encodingName <:+: accepted.coding then some (explicit (accepted :: rest))
      else borrowedFrom type rest

namespace AcceptEncoding

/-- The field value. -/
def render (accept : AcceptEncoding) : Text :=
  match accept.codings with
  | [] => []
  | first :: rest => first.render ++ following rest

variable (accept : AcceptEncoding) (supported : List CompressionType)

/-- A coding which is supported and listed, with its weight. -/
def Listed (type : CompressionType) (weight : Nat) : Prop :=
  type ∈ supported ∧
    ∃ accepted ∈ accept.codings, accepted.coding = type.encodingName ∧ accepted.weight = weight

/-- A coding with the largest weight of those supported and listed, and that not
zero. -/
def Best (type : CompressionType) : Prop :=
  ∃ weight, 0 < weight ∧ accept.Listed supported type weight ∧
    ∀ other otherWeight, accept.Listed supported other otherWeight → otherWeight ≤ weight

/-- A response is encoded with a best coding, or left as it is where every coding
which is supported and listed is refused. -/
def Honours (res encoded : HttpResponse) : Prop :=
  match encoded.fields.find "Content-Encoding".toList with
  | some name => ∃ type, name = type.encodingName ∧ accept.Best supported type
  | none => encoded = res ∧ ∀ type weight, accept.Listed supported type weight → weight = 0

/-- The priority which a coding has in the field. -/
def borrowed (type : CompressionType) : Option Int :=
  borrowedFrom type accept.codings

/-- No supported name occurs, or a best coding is the first of those with the
highest borrowed priority. -/
def Undisturbed : Prop :=
  (∀ type ∈ supported, accept.borrowed type = none) ∨
    ∃ type priority, accept.Best supported type ∧
      FirstBest accept.borrowed supported type priority

end AcceptEncoding

/-- `std::stof` and the conversion to thousandths read a q-value which a comma or
nothing follows exactly. -/
def ReadsQValues (quality : Text → Option Int) : Prop :=
  ∀ (q : QValue) (rest : Text), (rest = [] ∨ rest.head? = some ',') →
    quality (q.render ++ rest) = some (q.thousandths : Int)

/-! ## Characters -/

/-- No equals sign stands in a coding. -/
theorem AcceptedCoding.unequal (accepted : AcceptedCoding) : '=' ∉ accepted.coding := by
  intro member
  have isToken := List.all_eq_true.mp accepted.isToken.2 '=' member
  revert isToken
  decide

theorem QValue.mem_render {q : QValue} {c : Char} (member : c ∈ q.render) :
    c ∈ ".0123456789".toList := by
  have digits : ∀ digit : Fin 10, digit.val.digitChar ∈ ".0123456789".toList := by decide
  have wholes : ∀ digit : Fin 2, digit.val.digitChar ∈ ".0123456789".toList := by decide
  rw [QValue.render] at member
  rcases List.mem_cons.mp member with rfl | inDecimals
  · exact wholes q.whole
  · split at inDecimals
    · cases inDecimals
    · rcases List.mem_cons.mp inDecimals with rfl | isDigit
      · decide
      · obtain ⟨digit, -, rfl⟩ := List.mem_map.mp isDigit
        exact digits digit

theorem AcceptedCoding.mem_parameter {accepted : AcceptedCoding} {c : Char}
    (member : c ∈ accepted.parameter) : c ∈ ";q=.0123456789".toList := by
  rw [AcceptedCoding.parameter] at member
  cases isQuality : accepted.quality with
  | none =>
      rw [isQuality] at member
      cases member
  | some q =>
      rw [isQuality] at member
      rcases List.mem_append.mp member with inMark | inValue
      · exact List.mem_append_left ".0123456789".toList inMark
      · exact List.mem_append_right ";q=".toList (QValue.mem_render inValue)

/-- A name has no character which stands outside the names of a field. -/
theorem encodingName_plain (type : CompressionType) :
    type.encodingName ≠ [] ∧ ∀ c ∈ type.encodingName, c ∉ ", ;q=.0123456789".toList := by
  have named : type.encodingName ≠ [] ∧ (type.encodingName.all fun c =>
      !", ;q=.0123456789".toList.contains c) = true := by
    cases type with
    | gzip => decide
    | deflate => decide
    | br => decide
  refine ⟨named.1, fun c member => ?_⟩
  simpa using List.all_eq_true.mp named.2 c member

theorem head_following {codings : List AcceptedCoding} {c : Char}
    (isHead : (following codings).head? = some c) : c = ',' := by
  cases codings with
  | nil => cases isHead
  | cons accepted rest =>
      rw [following, List.flatMap_cons] at isHead
      exact (Option.some.inj isHead).symm

theorem head_rest {accepted : AcceptedCoding} {codings : List AcceptedCoding} {c : Char}
    (isHead : (accepted.parameter ++ following codings).head? = some c) : c = ';' ∨ c = ',' := by
  rw [AcceptedCoding.parameter] at isHead
  cases isQuality : accepted.quality with
  | none =>
      rw [isQuality] at isHead
      exact .inr (head_following isHead)
  | some q =>
      rw [isQuality] at isHead
      exact .inl (Option.some.inj isHead).symm

theorem following_cons (accepted : AcceptedCoding) (rest : List AcceptedCoding) :
    following (accepted :: rest) =
      ", ".toList ++ (accepted.coding ++ (accepted.parameter ++ following rest)) := by
  rw [following, List.flatMap_cons, ← following, AcceptedCoding.render, List.append_assoc,
    List.append_assoc]

namespace CompressionMiddleware

/-! ## Priorities -/

/-- The priority in the text from where a name occurs. -/
def priorityOf (codecs : Codecs) (later : Text) : Int :=
  match Text.fromFirst later "q=".toList with
  | none => 1
  | some value => (codecs.quality ((value.takeWhile (· != ';')).drop 2)).getD 1

theorem priorityAt_eq (codecs : Codecs) (text : Text) (pos : Nat) :
    priorityAt codecs text pos = priorityOf codecs (text.drop pos) := by
  rw [priorityAt, priorityOf, Text.findText_drop, Text.fromFirst]
  cases Text.findText (text.drop pos) "q=".toList 0 with
  | none => rfl
  | some offset =>
      simp only [Option.map_some, List.drop_drop]
      rw [Text.takeWhile_eq_elim_find]
      cases Text.find text ';' (pos + offset) with
      | none => simp only [Option.elim_none, List.drop_drop]
      | some stop => simp only [Option.elim_some, Text.substr, List.drop_take, List.drop_drop]

/-- The loop keeps the first of the best. -/
theorem bestType_eq (codecs : Codecs) (text : Text) (types : List CompressionType) (bound : Int)
    (best : Option CompressionType) :
    bestType codecs text types bound best =
      keepBest (fun type => (Text.fromFirst text type.encodingName).map (priorityOf codecs)) types
        bound best := by
  induction types generalizing bound best with
  | nil => rfl
  | cons type types inductionHypothesis =>
      rw [bestType, keepBest, Text.fromFirst]
      cases Text.findText text type.encodingName 0 with
      | none => exact inductionHypothesis bound best
      | some pos =>
          simp only [Option.map_some, priorityAt_eq, inductionHypothesis]

/-- What has no equals sign in front of a parameter does not matter. -/
theorem priorityOf_skip (codecs : Codecs) {front later : Text} (unequal : '=' ∉ front)
    (boundary : ∀ c, later.head? = some c → c = ';' ∨ c = ',') :
    priorityOf codecs (front ++ later) = priorityOf codecs later := by
  have absent : ∀ start < front.length, ¬ "q=".toList <+: (front ++ later).drop start := by
    intro start inside starts
    rw [List.drop_append_of_le_length (Nat.le_of_lt inside)] at starts
    have inFront := Text.prefix_of_boundary starts fun c isHead => by
      rcases boundary c isHead with rfl | rfl <;> decide
    exact unequal (List.mem_of_mem_drop (inFront.subset (by decide)))
  rw [priorityOf, Text.fromFirst_skip absent, ← priorityOf]

theorem priorityOf_quality {codecs : Codecs} (reads : ReadsQValues codecs.quality) (q : QValue)
    {later : Text} (boundary : ∀ c, later.head? = some c → c = ',') :
    priorityOf codecs (";q=".toList ++ q.render ++ later) = q.thousandths := by
  have marked : Text.fromFirst (";q=".toList ++ q.render ++ later) "q=".toList =
      some ("q=".toList ++ q.render ++ later) := by
    calc Text.fromFirst (";q=".toList ++ q.render ++ later) "q=".toList
      _ = Text.fromFirst ([';'] ++ ("q=".toList ++ (q.render ++ later))) "q=".toList := by simp
      _ = Text.fromFirst ("q=".toList ++ (q.render ++ later)) "q=".toList :=
        Text.fromFirst_skip fun start inside => Text.not_prefix_drop (by decide) inside
      _ = some ("q=".toList ++ q.render ++ later) := by
        rw [Text.fromFirst_self, List.append_assoc]
  have value : ∀ c ∈ "q=".toList ++ q.render, (c != ';') = true := by
    have mark : ("q=".toList.all fun c => c != ';') = true := by decide
    intro c member
    rcases List.mem_append.mp member with inMark | inValue
    · exact List.all_eq_true.mp mark c inMark
    · refine bne_iff_ne.mpr ?_
      rintro rfl
      exact absurd (QValue.mem_render inValue) (by decide)
  have ends : later.takeWhile (· != ';') = [] ∨ (later.takeWhile (· != ';')).head? = some ',' := by
    cases later with
    | nil => exact .inl rfl
    | cons c later =>
        obtain rfl := boundary c rfl
        exact .inr rfl
  rw [priorityOf, marked]
  simp only [List.takeWhile_append_of_pos value]
  exact congrArg (Option.getD · 1) (reads q _ ends)

section Searches

variable {codecs : Codecs}

/-- Behind a coding, its own q-value counts, and without one a later one. -/
theorem priorityOf_parameter (reads : ReadsQValues codecs.quality) (accepted : AcceptedCoding)
    (codings : List AcceptedCoding)
    (later : priorityOf codecs (following codings) = explicit codings) :
    priorityOf codecs (accepted.parameter ++ following codings) =
      explicit (accepted :: codings) := by
  rw [AcceptedCoding.parameter, explicit, List.findSome?_cons]
  cases accepted.quality with
  | none => exact later
  | some q => exact priorityOf_quality reads q fun c isHead => head_following isHead

theorem priorityOf_following (reads : ReadsQValues codecs.quality)
    (codings : List AcceptedCoding) :
    priorityOf codecs (following codings) = explicit codings := by
  induction codings with
  | nil => rfl
  | cons accepted rest inductionHypothesis =>
      have unequal : '=' ∉ ", ".toList ++ accepted.coding := by
        intro member
        rcases List.mem_append.mp member with inSeparator | inCoding
        · exact absurd inSeparator (by decide)
        · exact accepted.unequal inCoding
      rw [following_cons, ← List.append_assoc,
        priorityOf_skip codecs unequal fun c isHead => head_rest isHead]
      exact priorityOf_parameter reads accepted rest inductionHypothesis

/-- The search for a name in a coding and what follows it. -/
theorem priority_coding (reads : ReadsQValues codecs.quality) (type : CompressionType)
    (accepted : AcceptedCoding) (codings : List AcceptedCoding)
    (later : (Text.fromFirst (following codings) type.encodingName).map (priorityOf codecs) =
      borrowedFrom type codings) :
    (Text.fromFirst (accepted.coding ++ (accepted.parameter ++ following codings))
      type.encodingName).map (priorityOf codecs) = borrowedFrom type (accepted :: codings) := by
  obtain ⟨named, plain⟩ := encodingName_plain type
  rw [borrowedFrom]
  split
  · rename_i contained
    cases found : Text.findText accepted.coding type.encodingName 0 with
    | none => exact absurd contained (Text.findText_eq_none_iff.mp found)
    | some pos =>
        have unequal : '=' ∉ accepted.coding.drop pos := fun member =>
          accepted.unequal (List.mem_of_mem_drop member)
        rw [Text.fromFirst_append named found, Option.map_some,
          priorityOf_skip codecs unequal fun c isHead => head_rest isHead,
          priorityOf_parameter reads accepted codings (priorityOf_following reads codings)]
  · rename_i missing
    have notInCoding : ∀ start < accepted.coding.length, ¬ type.encodingName <+:
        (accepted.coding ++ (accepted.parameter ++ following codings)).drop start := by
      intro start inside starts
      rw [List.drop_append_of_le_length (Nat.le_of_lt inside)] at starts
      have inFront := Text.prefix_of_boundary starts fun c isHead member => plain c member (by
        rcases head_rest isHead with rfl | rfl <;> decide)
      exact missing (inFront.isInfix.trans (List.drop_suffix start _).isInfix)
    have notInParameter : ∀ start < accepted.parameter.length, ¬ type.encodingName <+:
        (accepted.parameter ++ following codings).drop start := by
      obtain ⟨first, rest, isName⟩ := List.exists_cons_of_ne_nil named
      rw [isName] at plain ⊢
      intro start inside
      refine Text.not_prefix_drop (fun member => ?_) inside
      exact plain first List.mem_cons_self
        (List.mem_append_right ", ".toList (AcceptedCoding.mem_parameter member))
    rw [Text.fromFirst_skip notInCoding, Text.fromFirst_skip notInParameter, later]

theorem priority_following (reads : ReadsQValues codecs.quality) (type : CompressionType)
    (codings : List AcceptedCoding) :
    (Text.fromFirst (following codings) type.encodingName).map (priorityOf codecs) =
      borrowedFrom type codings := by
  obtain ⟨named, plain⟩ := encodingName_plain type
  obtain ⟨first, name, isName⟩ := List.exists_cons_of_ne_nil named
  induction codings with
  | nil =>
      rw [isName]
      rfl
  | cons accepted rest inductionHypothesis =>
      have notInSeparator : ∀ start < ", ".toList.length, ¬ type.encodingName <+:
          (", ".toList ++ (accepted.coding ++ (accepted.parameter ++ following rest))).drop
            start := by
        rw [isName] at plain ⊢
        intro start inside
        refine Text.not_prefix_drop (fun member => ?_) inside
        exact plain first List.mem_cons_self (List.mem_append_left ";q=.0123456789".toList member)
      rw [following_cons, Text.fromFirst_skip notInSeparator]
      exact priority_coding reads type accepted rest inductionHypothesis

/-- The loop gives every coding the priority it borrows. -/
theorem priority_render (reads : ReadsQValues codecs.quality) (accept : AcceptEncoding)
    (type : CompressionType) :
    (Text.fromFirst accept.render type.encodingName).map (priorityOf codecs) =
      accept.borrowed type := by
  rw [AcceptEncoding.render, AcceptEncoding.borrowed]
  cases accept.codings with
  | nil => exact priority_following reads type []
  | cons first rest =>
      simp only [AcceptedCoding.render, List.append_assoc]
      exact priority_coding reads type first rest (priority_following reads type rest)

end Searches

/-- What the response says it is encoded with is what the loop chose. -/
theorem find_compressResponse (mw : CompressionMiddleware) (codecs : Codecs)
    (request : HttpRequest) {res : HttpResponse}
    (unencoded : res.fields.find "Content-Encoding".toList = none) :
    (mw.compressResponse codecs request res).fields.find "Content-Encoding".toList =
      (bestType codecs (request.header "Accept-Encoding".toList) mw.supportedTypes (-1) none).map
        CompressionType.encodingName := by
  rw [compressResponse]
  cases bestType codecs (request.header "Accept-Encoding".toList) mw.supportedTypes (-1) none with
  | none => exact unencoded
  | some type =>
      refine (Fields.find_set_other _ _ (by decide)).trans ?_
      exact Fields.find_set _ _ _

end CompressionMiddleware

/-- A listed coding has a priority. -/
theorem borrowedFrom_ne_none {type : CompressionType} {codings : List AcceptedCoding}
    {accepted : AcceptedCoding} (member : accepted ∈ codings)
    (named : accepted.coding = type.encodingName) : borrowedFrom type codings ≠ none := by
  induction codings with
  | nil => cases member
  | cons next rest inductionHypothesis =>
      rw [borrowedFrom]
      split
      · exact nofun
      · rename_i missing
        rcases List.mem_cons.mp member with rfl | later
        · exact absurd (named ▸ List.infix_refl _) missing
        · exact inductionHypothesis later

theorem borrowedFrom_nonneg {type : CompressionType} {codings : List AcceptedCoding}
    {priority : Int} (borrowed : borrowedFrom type codings = some priority) : -1 < priority := by
  induction codings with
  | nil => cases borrowed
  | cons next rest inductionHypothesis =>
      rw [borrowedFrom] at borrowed
      split at borrowed
      · cases borrowed
        omega
      · exact inductionHypothesis borrowed

theorem encodingName_injective : Function.Injective CompressionType.encodingName := by
  intro one other same
  cases one <;> cases other <;> first | rfl | exact absurd same (by decide)

/-- **Negotiation honours the client** exactly when no supported name occurs in
the field, or a best coding is the first of those with the highest borrowed
priority. -/
theorem honours_iff (mw : CompressionMiddleware) {codecs : Codecs} {request : HttpRequest}
    {res : HttpResponse} {accept : AcceptEncoding} (reads : ReadsQValues codecs.quality)
    (sent : request.header "Accept-Encoding".toList = accept.render)
    (unencoded : res.fields.find "Content-Encoding".toList = none) :
    accept.Honours mw.supportedTypes res (mw.compressResponse codecs request res) ↔
      accept.Undisturbed mw.supportedTypes := by
  have priorities : (fun type : CompressionType =>
      (Text.fromFirst accept.render type.encodingName).map
        (CompressionMiddleware.priorityOf codecs)) = accept.borrowed :=
    funext (CompressionMiddleware.priority_render reads accept)
  have chosen := CompressionMiddleware.bestType_eq codecs accept.render mw.supportedTypes (-1) none
  rw [priorities] at chosen
  have found := CompressionMiddleware.find_compressResponse mw codecs request unencoded
  rw [sent, chosen] at found
  have above : ∀ type ∈ mw.supportedTypes, ∀ priority,
      accept.borrowed type = some priority → -1 < priority :=
    fun _ _ _ => borrowedFrom_nonneg
  rw [AcceptEncoding.Honours, found]
  rcases keepBest_start above with ⟨nothing, unrated⟩ | ⟨choice, priority, ends, first⟩
  · rw [nothing]
    refine iff_of_true ⟨?_, ?_⟩ (.inl unrated)
    · rw [CompressionMiddleware.compressResponse, sent, chosen, nothing]
    · rintro type weight ⟨isSupported, accepted, member, named, -⟩
      exact absurd (unrated type isSupported) (borrowedFrom_ne_none member named)
  · rw [ends]
    constructor
    · rintro ⟨type, named, best⟩
      obtain rfl := encodingName_injective named
      exact .inr ⟨choice, priority, best, first⟩
    · rintro (unrated | ⟨type, other, best, also⟩)
      · cases (unrated choice first.mem).symm.trans first.rated
      · obtain rfl := first.unique also
        exact ⟨choice, rfl, best⟩

/-! ## Exact readers -/

/-- What the decimals at the front of a text add, where the first is worth
`scale`. -/
def leadingFraction : Nat → Text → Nat
  | _, [] => 0
  | scale, c :: rest =>
      if c.isDigit then scale * (c.toNat - '0'.toNat) + leadingFraction (scale / 10) rest else 0

/-- What follows the digit at the front of a number adds. -/
def leadingDecimals : Text → Nat
  | '.' :: decimals => leadingFraction 100 decimals
  | _ => 0

/-- The decimal number at the front of a text, of one digit before the point, in
thousandths. -/
def leadingThousandths : Text → Option Int
  | [] => none
  | c :: rest =>
      if c.isDigit then some ((1000 * (c.toNat - '0'.toNat) + leadingDecimals rest : Nat) : Int)
      else none

theorem leadingFraction_digits (scale : Nat) (digits : List (Fin 10)) {rest : Text}
    (ends : rest = [] ∨ rest.head? = some ',') :
    leadingFraction scale ((digits.map fun digit => digit.val.digitChar) ++ rest) =
      QValue.fraction scale digits := by
  have value : ∀ digit : Fin 10, digit.val.digitChar.isDigit = true ∧
      digit.val.digitChar.toNat - '0'.toNat = digit.val := by decide
  induction digits generalizing scale with
  | nil =>
      cases rest with
      | nil => rfl
      | cons c rest =>
          obtain rfl : c = ',' := by simpa using ends
          rfl
  | cons digit digits inductionHypothesis =>
      obtain ⟨isDigit, isValue⟩ := value digit
      rw [List.map_cons, List.cons_append, leadingFraction, if_pos isDigit, isValue,
        inductionHypothesis, QValue.fraction]

theorem readsQValues_leadingThousandths : ReadsQValues leadingThousandths := by
  intro q rest ends
  have value : ∀ digit : Fin 2, digit.val.digitChar.isDigit = true ∧
      digit.val.digitChar.toNat - '0'.toNat = digit.val := by decide
  obtain ⟨isDigit, isValue⟩ := value q.whole
  have decimals : leadingDecimals ((if q.decimals = [] then [] else
      '.' :: q.decimals.map fun digit => digit.val.digitChar) ++ rest) =
      QValue.fraction 100 q.decimals := by
    split
    · rename_i none
      rw [none]
      rcases ends with rfl | isComma
      · rfl
      · obtain ⟨tail, rfl⟩ := List.head?_eq_some_iff.mp isComma
        rfl
    · exact leadingFraction_digits 100 q.decimals ends
  simp only [QValue.render, List.cons_append, leadingThousandths, if_pos isDigit, isValue,
    decimals, QValue.thousandths]

/-! ## Requests -/

/-- A q-value without decimals. -/
def QValue.ofDigit (whole : Fin 2) : QValue :=
  ⟨whole, [], by decide, nofun⟩

def gzipFor (quality : Option QValue) : AcceptedCoding :=
  ⟨"gzip".toList, quality, by decide⟩

/-- A request of a client which accepts these codings. -/
def requestOf (accept : AcceptEncoding) : HttpRequest :=
  ⟨.get, [("Accept-Encoding".toList, accept.render)], []⟩

def exactCodecs : Codecs :=
  ⟨fun _ body => body, leadingThousandths⟩

/-- An `Accept-Encoding` of gzip alone. -/
def acceptGzip (quality : Option QValue) : AcceptEncoding :=
  ⟨[gzipFor quality], List.nodup_singleton _⟩

/-- A client which accepts gzip gets it. -/
theorem honours_gzip :
    (acceptGzip (some (.ofDigit 1))).Honours [.br, .gzip] ⟨200, [], []⟩
      (CompressionMiddleware.compressResponse ⟨0, [.br, .gzip]⟩ exactCodecs
        (requestOf (acceptGzip (some (.ofDigit 1)))) ⟨200, [], []⟩) := by
  have reads : ReadsQValues exactCodecs.quality := readsQValues_leadingThousandths
  have sent : (requestOf (acceptGzip (some (.ofDigit 1)))).header "Accept-Encoding".toList =
      (acceptGzip (some (.ofDigit 1))).render := by decide
  have best : (acceptGzip (some (.ofDigit 1))).Best [.br, .gzip] .gzip := by
    refine ⟨1000, by decide, ⟨by decide, _, List.mem_singleton_self _, rfl, rfl⟩, ?_⟩
    rintro other weight ⟨-, accepted, member, -, rfl⟩
    cases List.mem_singleton.mp member
    decide
  have undisturbed : (acceptGzip (some (.ofDigit 1))).Undisturbed [.br, .gzip] := by
    refine .inr ⟨.gzip, 1000, best, rfl, [.br], [], rfl, ?_, nofun⟩
    intro other member priority borrowed
    cases List.mem_singleton.mp member
    cases borrowed
  exact (honours_iff ⟨0, [.br, .gzip]⟩ reads sent rfl).mpr undisturbed

/-- A client which refuses gzip gets it as well. -/
theorem refused_gzip :
    ¬ ∀ (mw : CompressionMiddleware) (accept : AcceptEncoding) (res : HttpResponse),
      res.fields.find "Content-Encoding".toList = none →
        accept.Honours mw.supportedTypes res
          (mw.compressResponse exactCodecs (requestOf accept) res) := by
  intro honoursAccept
  have honours := honoursAccept ⟨0, [.gzip]⟩ (acceptGzip (some (.ofDigit 0))) ⟨200, [], []⟩ rfl
  obtain ⟨type, -, weight, positive, ⟨-, accepted, member, -, isWeight⟩, -⟩ := honours
  cases List.mem_singleton.mp member
  cases isWeight
  revert positive
  decide

end Foxhttp.Middleware
