import Foxhttp.Parser.JsonPreserved

/-!
# Does the parser accept only JSON?

Comments and trailing commas which are not allowed are dropped, and what is
left is parsed. So a body with them is accepted as well. A body which is
accepted is a JSON text when it has no two slashes in a row and its commas in
front of closing braces lie in string literals.
-/

namespace Foxhttp.Parser

open Foxhttp.Library Foxhttp.Library.Json

/-- Every comma in front of a closing brace lies in a string literal. -/
def Lodged (mode : Mode) (text : Text) : Prop :=
  ∀ front back, text = front ++ ',' :: '}' :: back → mode.scan front = some .inside

/-- Every comma in front of the bracket lies in a string literal. -/
def LodgedBefore (bracket : Char) (mode : Mode) (text : Text) : Prop :=
  ∀ front back, text = front ++ ',' :: bracket :: back → mode.scan front = some .inside

namespace LodgedBefore

variable {bracket : Char} {mode next : Mode} {run later : Text}

theorem behind (lodged : LodgedBefore bracket mode (run ++ later))
    (scanned : mode.scan run = some next) : LodgedBefore bracket next later := by
  rintro front back rfl
  have inside := lodged (run ++ front) back (by rw [List.append_assoc])
  rwa [Mode.scan_append_of_eq scanned] at inside

theorem afterRun (lodged : LodgedBefore bracket next later)
    (scanned : mode.scan run = some next) (noComma : ',' ∉ run) :
    LodgedBefore bracket mode (run ++ later) := by
  intro front back same
  rcases List.append_eq_append_iff.mp same with ⟨rest, rfl, isLater⟩ | ⟨rest, isRun, isRest⟩
  · rw [Mode.scan_append_of_eq scanned]
    exact lodged rest back isLater
  · cases rest with
    | nil =>
        rw [List.append_nil] at isRun
        rw [← isRun, scanned]
        exact lodged [] back isRest.symm
    | cons c rest =>
        refine absurd ?_ noComma
        rw [isRun, (List.cons.inj isRest).1]
        exact List.mem_append_right _ List.mem_cons_self

theorem afterChar {c : Char} (lodged : LodgedBefore bracket next later)
    (stepped : mode.step c = some next) (notComma : c ≠ ',') :
    LodgedBefore bracket mode (c :: later) := by
  refine @afterRun bracket mode next [c] later lodged ?_ fun member => ?_
  · rw [Mode.scan, stepped, Option.bind_some, Mode.scan]
  · exact notComma (List.mem_singleton.mp member).symm

/-- A comma outside of a literal is followed by something other than the bracket. -/
theorem afterComma (lodged : LodgedBefore bracket .outside later)
    (other : later.head? ≠ some bracket) : LodgedBefore bracket .outside (',' :: later) := by
  intro front back same
  cases front with
  | nil =>
      rw [(List.cons.inj same).2] at other
      exact absurd rfl other
  | cons c front =>
      obtain ⟨rfl, isLater⟩ := List.cons.inj same
      exact lodged front back isLater

theorem afterCommaInside (lodged : LodgedBefore bracket .inside later) :
    LodgedBefore bracket .inside (',' :: later) := by
  intro front back same
  cases front with
  | nil => rfl
  | cons c front =>
      obtain ⟨rfl, isLater⟩ := List.cons.inj same
      exact lodged front back isLater

theorem afterBlank (blank : Blank) (lodged : LodgedBefore bracket .outside later) :
    LodgedBefore bracket .outside (blank.1 ++ later) :=
  lodged.afterRun (scan_blank blank) fun member => absurd (blank.2 _ member) (by decide)

theorem afterItems (items : List Item) (lodged : LodgedBefore bracket .outside later) :
    LodgedBefore bracket .inside (items.flatMap Item.render ++ '"' :: later) := by
  induction items with
  | nil => exact lodged.afterChar rfl (by decide)
  | cons item items inductionHypothesis =>
      rw [List.flatMap_cons, List.append_assoc]
      by_cases isComma : isByte ',' item = true
      · obtain ⟨valid, rfl⟩ := isByte_iff.mp isComma
        exact inductionHypothesis.afterCommaInside
      · exact inductionHypothesis.afterRun (scan_item item) fun member =>
          isComma (isByte_of_mem (.inl rfl) member)

theorem afterString (items : List Item) (lodged : LodgedBefore bracket .outside later) :
    LodgedBefore bracket .outside (renderString items ++ later) := by
  simp only [renderString, List.cons_append, List.append_assoc, List.nil_append]
  exact (lodged.afterItems items).afterChar rfl (by decide)

theorem afterNumber (literal : Number) (lodged : LodgedBefore bracket .outside later) :
    LodgedBefore bracket .outside (literal.1 ++ later) :=
  lodged.afterRun (scan_number literal) fun member =>
    absurd (NumberState.read_isNumberChar literal.2 _ member) (by decide)

mutual

theorem afterDoc (isClosing : bracket = ']' ∨ bracket = '}') : ∀ (doc : Doc) {later : Text},
    LodgedBefore bracket .outside later → LodgedBefore bracket .outside (doc.render ++ later)
  | .null, _, lodged => lodged.afterRun rfl (by decide)
  | .boolean true, _, lodged => lodged.afterRun rfl (by decide)
  | .boolean false, _, lodged => lodged.afterRun rfl (by decide)
  | .number literal, _, lodged => lodged.afterNumber literal
  | .string items, _, lodged => lodged.afterString items
  | .emptyArray blank, _, lodged => by
      simp only [Doc.render, List.cons_append, List.append_assoc, List.nil_append]
      exact ((lodged.afterChar rfl (by decide)).afterBlank blank).afterChar rfl (by decide)
  | .array elements, _, lodged => by
      simp only [Doc.render, List.cons_append, List.append_assoc, List.nil_append]
      refine (afterElements isClosing elements ?_).afterChar rfl (by decide)
      exact lodged.afterChar rfl (by decide)
  | .emptyObject blank, _, lodged => by
      simp only [Doc.render, List.cons_append, List.append_assoc, List.nil_append]
      exact ((lodged.afterChar rfl (by decide)).afterBlank blank).afterChar rfl (by decide)
  | .object members, _, lodged => by
      simp only [Doc.render, List.cons_append, List.append_assoc, List.nil_append]
      refine (afterMembers isClosing members ?_).afterChar rfl (by decide)
      exact lodged.afterChar rfl (by decide)

theorem afterElements (isClosing : bracket = ']' ∨ bracket = '}') :
    ∀ (elements : Elements) {later : Text}, LodgedBefore bracket .outside later →
      LodgedBefore bracket .outside (elements.render ++ later)
  | .last before doc after, _, lodged => by
      simp only [Elements.render, List.append_assoc]
      exact (afterDoc isClosing doc (lodged.afterBlank after)).afterBlank before
  | .more before doc after rest, later, lodged => by
      simp only [Elements.render, List.append_assoc, List.cons_append]
      have lodgedRest :=
        (afterElements isClosing rest lodged).afterComma (head?_elements isClosing rest later)
      exact (afterDoc isClosing doc (lodgedRest.afterBlank after)).afterBlank before

theorem afterMembers (isClosing : bracket = ']' ∨ bracket = '}') :
    ∀ (members : Members) {later : Text}, LodgedBefore bracket .outside later →
      LodgedBefore bracket .outside (members.render ++ later)
  | .last start name stop before doc after, _, lodged => by
      simp only [Members.render, List.append_assoc, List.cons_append]
      have lodgedDoc := (afterDoc isClosing doc (lodged.afterBlank after)).afterBlank before
      exact (((lodgedDoc.afterChar rfl (by decide)).afterBlank stop).afterString name).afterBlank
        start
  | .more start name stop before doc after rest, later, lodged => by
      simp only [Members.render, List.append_assoc, List.cons_append]
      have lodgedRest :=
        (afterMembers isClosing rest lodged).afterComma (head?_members isClosing rest later)
      have lodgedDoc := (afterDoc isClosing doc (lodgedRest.afterBlank after)).afterBlank before
      exact (((lodgedDoc.afterChar rfl (by decide)).afterBlank stop).afterString name).afterBlank
        start

end

/-- In a JSON text, commas are in front of closing brackets in string literals only. -/
theorem document (isClosing : bracket = ']' ∨ bracket = '}') (text : Document) :
    LodgedBefore bracket .outside text.render := by
  have nothing : LodgedBefore bracket .outside [] := by
    intro front back same
    simp at same
  have after := nothing.afterBlank text.after
  rw [List.append_nil] at after
  exact (afterDoc isClosing text.doc after).afterBlank text.before

end LodgedBefore

namespace Lodged

variable {mode next : Mode} {run later : Text}

theorem behind (lodged : Lodged mode (run ++ later)) (scanned : mode.scan run = some next) :
    Lodged next later :=
  LodgedBefore.behind lodged scanned

theorem document (text : Document) : Lodged .outside text.render :=
  LodgedBefore.document (.inr rfl) text

end Lodged

/-! ## What the commas were dropped from -/

theorem eq_nil_of_uncomma {text : Text} (same : uncomma text = []) : text = [] := by
  cases text with
  | nil => rfl
  | cons c rest =>
      rw [uncomma] at same
      split at same
      · rename_i isComma
        obtain ⟨behind, isBehind⟩ := isComma
        cases isBehind
        have brace : uncomma ('}' :: behind) = [] := same
        rw [uncomma_cons (by decide)] at brace
        cases brace
      · cases same

/-- A character was there before, or a comma in front of a closing brace. -/
theorem uncomma_eq_cons {text rest : Text} {c : Char} (same : uncomma text = c :: rest) :
    (∃ later, text = c :: later ∧ uncomma later = rest) ∨
      ∃ later, c = '}' ∧ text = ',' :: '}' :: later ∧ uncomma later = rest := by
  cases text with
  | nil => cases same
  | cons d later =>
      rw [uncomma] at same
      split at same
      · rename_i isComma
        obtain ⟨behind, isBehind⟩ := isComma
        cases isBehind
        have brace : uncomma ('}' :: behind) = c :: rest := same
        rw [uncomma_cons (by decide)] at brace
        obtain ⟨rfl, isRest⟩ := List.cons.inj brace
        exact .inr ⟨behind, rfl, rfl, isRest⟩
      · obtain ⟨rfl, isRest⟩ := List.cons.inj same
        exact .inl ⟨later, rfl, isRest⟩

/-- A run without closing braces was there before. -/
theorem uncomma_eq_run {run text rest : Text} (same : uncomma text = run ++ rest)
    (noBrace : '}' ∉ run) : ∃ later, text = run ++ later ∧ uncomma later = rest := by
  induction run generalizing text with
  | nil => exact ⟨text, rfl, same⟩
  | cons c run inductionHypothesis =>
      rw [List.mem_cons, not_or] at noBrace
      rcases uncomma_eq_cons same with ⟨later, rfl, isRest⟩ | ⟨-, rfl, -⟩
      · obtain ⟨behind, rfl, isBehind⟩ := inductionHypothesis isRest noBrace.2
        exact ⟨behind, rfl, isBehind⟩
      · exact absurd rfl noBrace.1

/-- The text was this front and a text with its commas lodged, before they were dropped. -/
structure Regained (front later rest text : Text) : Prop where
  whole : text = front ++ later
  dropped : uncomma later = rest
  lodged : Lodged .outside later

namespace Lodged

variable {text rest : Text}

theorem regainRun {run : Text} (lodged : Lodged .outside text)
    (scanned : Mode.outside.scan run = some .outside) (same : uncomma text = run ++ rest)
    (noBrace : '}' ∉ run) : ∃ later, Regained run later rest text := by
  obtain ⟨later, rfl, isRest⟩ := uncomma_eq_run same noBrace
  exact ⟨later, rfl, isRest, lodged.behind scanned⟩

theorem regainChar {c : Char} (lodged : Lodged .outside text)
    (stepped : Mode.outside.step c = some .outside) (same : uncomma text = c :: rest) :
    ∃ later, Regained [c] later rest text := by
  rcases uncomma_eq_cons same with ⟨later, rfl, isRest⟩ | ⟨later, -, rfl, -⟩
  · refine ⟨later, rfl, isRest, @behind .outside .outside [c] later lodged ?_⟩
    rw [Mode.scan, stepped, Option.bind_some, Mode.scan]
  · -- the comma in front of the brace would lie outside of a literal
    exact absurd (lodged [] later rfl) (by decide)

theorem regainItems (items : List Item) (lodged : Lodged .inside text)
    (same : uncomma text = items.flatMap Item.render ++ '"' :: rest) :
    ∃ (before : List Item) (later : Text),
      Regained (before.flatMap Item.render ++ ['"']) later rest text := by
  induction items generalizing text with
  | nil =>
      rcases uncomma_eq_cons same with ⟨later, rfl, isRest⟩ | ⟨-, absurdity, -⟩
      · exact ⟨[], later, rfl, isRest, @behind .inside .outside ['"'] later lodged rfl⟩
      · exact absurd absurdity (by decide)
  | cons item items inductionHypothesis =>
      rw [List.flatMap_cons, List.append_assoc] at same
      by_cases isBrace : isByte '}' item = true
      · obtain ⟨valid, rfl⟩ := isByte_iff.mp isBrace
        rcases uncomma_eq_cons same with ⟨behind, rfl, isRest⟩ | ⟨behind, -, rfl, isRest⟩
        · obtain ⟨before, later, whole, dropped, lodgedLater⟩ := inductionHypothesis
            (@Lodged.behind .inside .inside ['}'] behind lodged rfl) isRest
          exact ⟨.plain ['}'] valid :: before, later, congrArg ('}' :: ·) whole, dropped,
            lodgedLater⟩
        · obtain ⟨before, later, whole, dropped, lodgedLater⟩ := inductionHypothesis
            (@Lodged.behind .inside .inside [',', '}'] behind lodged rfl) isRest
          exact ⟨.plain [','] rfl :: .plain ['}'] valid :: before, later,
            congrArg (',' :: '}' :: ·) whole, dropped, lodgedLater⟩
      · obtain ⟨behind, rfl, isRest⟩ := uncomma_eq_run same fun member =>
          isBrace (isByte_of_mem (.inr rfl) member)
        obtain ⟨before, later, rfl, dropped, lodgedLater⟩ :=
          inductionHypothesis (lodged.behind (scan_item item)) isRest
        exact ⟨item :: before, later, by simp, dropped, lodgedLater⟩

theorem regainString (items : List Item) (lodged : Lodged .outside text)
    (same : uncomma text = renderString items ++ rest) :
    ∃ before later, Regained (renderString before) later rest text := by
  simp only [renderString, List.cons_append, List.append_assoc, List.nil_append] at same
  rcases uncomma_eq_cons same with ⟨behind, rfl, isRest⟩ | ⟨-, absurdity, -⟩
  · obtain ⟨before, later, rfl, dropped, lodgedLater⟩ := regainItems items
      (@Lodged.behind .outside .inside ['"'] behind lodged rfl) isRest
    exact ⟨before, later, rfl, dropped, lodgedLater⟩
  · exact absurd absurdity (by decide)

theorem regainBlank (blank : Blank) (lodged : Lodged .outside text)
    (same : uncomma text = blank.1 ++ rest) : ∃ later, Regained blank.1 later rest text :=
  lodged.regainRun (scan_blank blank) same fun member => absurd (blank.2 _ member) (by decide)

theorem regainNumber (literal : Number) (lodged : Lodged .outside text)
    (same : uncomma text = literal.1 ++ rest) : ∃ later, Regained literal.1 later rest text :=
  lodged.regainRun (scan_number literal) same fun member =>
    absurd (NumberState.read_isNumberChar literal.2 _ member) (by decide)

/-- What stands before the value of a member. -/
theorem regainName (start : Blank) (name : List Item) (stop before : Blank)
    (lodged : Lodged .outside text)
    (same : uncomma text =
      start.1 ++ (renderString name ++ (stop.1 ++ ':' :: (before.1 ++ rest)))) :
    ∃ (given : List Item) (later : Text), Regained
      (start.1 ++ (renderString given ++ (stop.1 ++ ':' :: before.1))) later rest text := by
  obtain ⟨_, first, same, lodged⟩ := lodged.regainBlank start same
  obtain ⟨given, _, second, same, lodged⟩ := lodged.regainString name same
  obtain ⟨_, third, same, lodged⟩ := lodged.regainBlank stop same
  obtain ⟨_, colon, same, lodged⟩ := lodged.regainChar rfl same
  obtain ⟨later, fourth, same, lodged⟩ := lodged.regainBlank before same
  exact ⟨given, later, by simp [first, second, third, colon, fourth], same, lodged⟩

mutual

theorem regainDoc : ∀ (doc : Doc) {text rest : Text}, Lodged .outside text →
    uncomma text = doc.render ++ rest → ∃ before later, Regained (Doc.render before) later rest text
  | .null, _, _, lodged, same => ⟨.null, lodged.regainRun rfl same (by decide)⟩
  | .boolean true, _, _, lodged, same => ⟨.boolean true, lodged.regainRun rfl same (by decide)⟩
  | .boolean false, _, _, lodged, same => ⟨.boolean false, lodged.regainRun rfl same (by decide)⟩
  | .number literal, _, _, lodged, same => ⟨.number literal, lodged.regainNumber literal same⟩
  | .string items, _, _, lodged, same => by
      obtain ⟨before, later, regained⟩ := lodged.regainString items same
      exact ⟨.string before, later, regained⟩
  | .emptyArray blank, _, _, lodged, same => by
      simp only [Doc.render, List.cons_append, List.append_assoc, List.nil_append] at same
      obtain ⟨_, opens, same, lodged⟩ := lodged.regainChar rfl same
      obtain ⟨_, inner, same, lodged⟩ := lodged.regainBlank blank same
      obtain ⟨later, closes, same, lodged⟩ := lodged.regainChar rfl same
      exact ⟨.emptyArray blank, later, by simp [Doc.render, opens, inner, closes], same, lodged⟩
  | .array elements, _, _, lodged, same => by
      simp only [Doc.render, List.cons_append, List.append_assoc, List.nil_append] at same
      obtain ⟨_, opens, same, lodged⟩ := lodged.regainChar rfl same
      obtain ⟨before, _, inner, same, lodged⟩ := regainElements elements lodged same
      obtain ⟨later, closes, same, lodged⟩ := lodged.regainChar rfl same
      exact ⟨.array before, later, by simp [Doc.render, opens, inner, closes], same, lodged⟩
  | .emptyObject blank, _, _, lodged, same => by
      simp only [Doc.render, List.cons_append, List.append_assoc, List.nil_append] at same
      obtain ⟨_, opens, same, lodged⟩ := lodged.regainChar rfl same
      obtain ⟨_, inner, same, lodged⟩ := lodged.regainBlank blank same
      obtain ⟨later, closes, same, lodged⟩ := lodged.regainChar rfl same
      exact ⟨.emptyObject blank, later, by simp [Doc.render, opens, inner, closes], same, lodged⟩
  | .object members, _, _, lodged, same => by
      simp only [Doc.render, List.cons_append, List.append_assoc, List.nil_append] at same
      obtain ⟨_, opens, same, lodged⟩ := lodged.regainChar rfl same
      obtain ⟨before, _, inner, same, lodged⟩ := regainMembers members lodged same
      obtain ⟨later, closes, same, lodged⟩ := lodged.regainChar rfl same
      exact ⟨.object before, later, by simp [Doc.render, opens, inner, closes], same, lodged⟩

theorem regainElements : ∀ (elements : Elements) {text rest : Text}, Lodged .outside text →
    uncomma text = elements.render ++ rest →
      ∃ before later, Regained (Elements.render before) later rest text
  | .last before doc after, _, _, lodged, same => by
      simp only [Elements.render, List.append_assoc] at same
      obtain ⟨_, first, same, lodged⟩ := lodged.regainBlank before same
      obtain ⟨doc, _, second, same, lodged⟩ := regainDoc doc lodged same
      obtain ⟨later, third, same, lodged⟩ := lodged.regainBlank after same
      exact ⟨.last before doc after, later, by simp [Elements.render, first, second, third], same,
        lodged⟩
  | .more before doc after others, _, _, lodged, same => by
      simp only [Elements.render, List.append_assoc, List.cons_append] at same
      obtain ⟨_, first, same, lodged⟩ := lodged.regainBlank before same
      obtain ⟨doc, _, second, same, lodged⟩ := regainDoc doc lodged same
      obtain ⟨_, third, same, lodged⟩ := lodged.regainBlank after same
      obtain ⟨_, comma, same, lodged⟩ := lodged.regainChar rfl same
      obtain ⟨others, later, last, same, lodged⟩ := regainElements others lodged same
      exact ⟨.more before doc after others, later,
        by simp [Elements.render, first, second, third, comma, last], same, lodged⟩

theorem regainMembers : ∀ (members : Members) {text rest : Text}, Lodged .outside text →
    uncomma text = members.render ++ rest →
      ∃ before later, Regained (Members.render before) later rest text
  | .last start name stop before doc after, _, _, lodged, same => by
      simp only [Members.render, List.append_assoc, List.cons_append] at same
      obtain ⟨name, _, named, same, lodged⟩ := lodged.regainName start name stop before same
      obtain ⟨doc, _, first, same, lodged⟩ := regainDoc doc lodged same
      obtain ⟨later, second, same, lodged⟩ := lodged.regainBlank after same
      exact ⟨.last start name stop before doc after, later,
        by simp [Members.render, named, first, second], same, lodged⟩
  | .more start name stop before doc after others, _, _, lodged, same => by
      simp only [Members.render, List.append_assoc, List.cons_append] at same
      obtain ⟨name, _, named, same, lodged⟩ := lodged.regainName start name stop before same
      obtain ⟨doc, _, first, same, lodged⟩ := regainDoc doc lodged same
      obtain ⟨_, second, same, lodged⟩ := lodged.regainBlank after same
      obtain ⟨_, comma, same, lodged⟩ := lodged.regainChar rfl same
      obtain ⟨others, later, last, same, lodged⟩ := regainMembers others lodged same
      exact ⟨.more start name stop before doc after others, later,
        by simp [Members.render, named, first, second, comma, last], same, lodged⟩

end

/-- A text with its commas lodged is a JSON text if it is one without them. -/
theorem regainDocument (text : Document) {body : Text} (lodged : Lodged .outside body)
    (same : uncomma body = text.render) : ∃ before : Document, before.render = body := by
  obtain ⟨_, first, same, lodged⟩ := lodged.regainBlank text.before same
  obtain ⟨doc, _, second, same, lodged⟩ := regainDoc text.doc lodged same
  rw [← List.append_nil text.after.1] at same
  obtain ⟨_, third, same, -⟩ := lodged.regainBlank text.after same
  refine ⟨⟨text.before, doc, text.after⟩, ?_⟩
  rw [first, second, third, eq_nil_of_uncomma same, List.append_nil]
  rfl

end Lodged

/-! ## Parsing -/

variable {ν : Type} {reading : Reading ν} {nlohmann : Text → Except Text (Value ν)}

/-- **The parser accepts only JSON**, with comments and trailing commas not
allowed, exactly where a body it accepts has no two slashes in a row and its
commas in front of closing braces lie in string literals. -/
theorem accepts_only_json_iff (conforms : Conforms reading nlohmann) {config : JsonConfig}
    (noComments : config.allowComments = false) (noCommas : config.allowTrailingCommas = false)
    {body : Text} {value : Value ν} (accepted : parse nlohmann config body = .ok value) :
    (∃ text : Document, text.render = body) ↔
      ¬ "//".toList <:+: body ∧ Lodged .outside body := by
  constructor
  · rintro ⟨text, rfl⟩
    refine ⟨fun isComment => ?_, Lodged.document text⟩
    exact parse_comment conforms noComments isComment value accepted
  · rintro ⟨noSlashes, lodged⟩
    have processed : preprocessJson config body = uncomma body := by
      rw [preprocessJson_of_comments (.inr noSlashes), noCommas]
      rfl
    by_contra notJson
    -- what the library accepted is the body without commas of its literals
    obtain ⟨message, refused⟩ := conforms.refuses (uncomma body) fun text isText =>
      notJson (lodged.regainDocument text isText.symm)
    rw [parse] at accepted
    split at accepted
    · cases accepted
    · rw [parseWithValidation, processed, refused] at accepted
      cases accepted

/-- A comma in front of a closing brace in a string literal. -/
theorem accepts_only_json_literal :
    ∃ value, parse (referenceParse lastWins) {} "\x7b\"n\":\",\x7d\"\x7d".toList = .ok value ∧
      ¬ "//".toList <:+: "\x7b\"n\":\",\x7d\"\x7d".toList ∧
      Lodged .outside "\x7b\"n\":\",\x7d\"\x7d".toList := by
  let text : Document :=
    ⟨⟨[], nofun⟩, .object (.last ⟨[], nofun⟩ [.plain ['n'] rfl] ⟨[], nofun⟩ ⟨[], nofun⟩
      (.string [.plain [','] rfl, .plain ['}'] rfl]) ⟨[], nofun⟩), ⟨[], nofun⟩⟩
  have conforms := referenceParse_conforms lastWins
  have accepted : parse (referenceParse lastWins) {} text.render = _ :=
    parse_dropCommas conforms (by decide) (by decide) (.inr (by decide)) rfl
  exact ⟨_, accepted, (accepts_only_json_iff conforms rfl rfl accepted).mp ⟨text, rfl⟩⟩

/-- An object with a comment behind it is accepted. -/
theorem comment_accepted :
    ¬ ∀ (config : JsonConfig) (body : Text) (value : Value Text),
      config.allowComments = false → config.allowTrailingCommas = false →
        parse (referenceParse lastWins) config body = .ok value →
          ∃ text : Document, text.render = body := by
  intro acceptsOnlyJson
  let text : Document := ⟨⟨[], nofun⟩, .emptyObject ⟨[], nofun⟩, ⟨[], nofun⟩⟩
  have conforms := referenceParse_conforms lastWins
  have processed : preprocessJson {} "\x7b\x7d//".toList = text.render := by
    rw [preprocessJson_eq]
    decide
  have accepted : parse (referenceParse lastWins) {} "\x7b\x7d//".toList = _ :=
    parse_of_preprocess conforms (by decide) (by decide) processed
  obtain ⟨json, isBody⟩ := acceptsOnlyJson {} _ _ rfl rfl accepted
  have scanned := json.scan_render
  rw [isBody] at scanned
  revert scanned
  decide

end Foxhttp.Parser
