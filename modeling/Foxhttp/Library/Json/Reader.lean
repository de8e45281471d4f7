import Foxhttp.Library.Json.Syntax

/-!
# Reading JSON texts

A recursive-descent reader. It gives back the syntax tree of every rendered
text, so a text has one syntax tree, and a conforming parser exists for every
`Reading`.
-/

namespace Foxhttp.Library.Json

open Foxhttp.Library

/-! ## The reader -/

/-- Take the blanks at the front. -/
def readBlank (text : Text) : Blank × Text :=
  (⟨text.takeWhile isBlank, List.all_eq_true.mp List.all_takeWhile⟩, text.dropWhile isBlank)

/-- Read a number literal. -/
def readNumber (text : Text) : Option (Number × Text) :=
  if valid : NumberState.start.read (text.takeWhile isNumberChar) = true then
    some (⟨text.takeWhile isNumberChar, valid⟩, text.dropWhile isNumberChar)
  else none

/-- How many bytes a character has, by its first byte. -/
def plainLength (c : Char) : Nat :=
  if c.toNat < 0x80 then 1 else if c.toNat < 0xE0 then 2 else if c.toNat < 0xF0 then 3 else 4

/-- Read an item whose first byte is not a quote. -/
def readItem : Text → Option (Item × Text)
  | [] => none
  | c :: rest =>
      if c = '\\' then
        match rest with
        | [] => none
        | kind :: rest =>
            if kind = 'u' then
              if valid : (rest.take 4).length = 4 ∧ (rest.take 4).all isHex = true then
                some (.unicode (rest.take 4) ⟨valid.1, List.all_eq_true.mp valid.2⟩, rest.drop 4)
              else none
            else if valid : kind ∈ escapes then some (.escape kind valid, rest)
            else none
      else if valid : isPlain ((c :: rest).take (plainLength c)) = true then
        some (.plain ((c :: rest).take (plainLength c)) valid, (c :: rest).drop (plainLength c))
      else none

/-- Read the items up to the closing quote. -/
def readItems : Nat → Text → Option (List Item × Text)
  | 0, _ => none
  | _ + 1, [] => none
  | fuel + 1, c :: rest =>
      if c = '"' then some ([], rest)
      else
        match readItem (c :: rest) with
        | some (item, rest) =>
            (readItems fuel rest).map fun read => (item :: read.1, read.2)
        | none => none

/-- Read a string literal. -/
def readString : Text → Option (List Item × Text)
  | [] => none
  | c :: rest => if c = '"' then readItems (rest.length + 1) rest else none

/-- Read a fixed word. -/
def readWord (word : Text) (doc : Doc) (text : Text) : Option (Doc × Text) :=
  if word.isPrefixOf text then some (doc, text.drop word.length) else none

mutual

/-- Read a value. -/
def readDoc : Nat → Text → Option (Doc × Text)
  | 0, _ => none
  | _ + 1, [] => none
  | fuel + 1, c :: rest =>
      if c = 'n' then readWord "null".toList .null (c :: rest)
      else if c = 't' then readWord "true".toList (.boolean true) (c :: rest)
      else if c = 'f' then readWord "false".toList (.boolean false) (c :: rest)
      else if c = '"' then (readString (c :: rest)).map fun read => (.string read.1, read.2)
      else if c = '[' then
        let (blank, inside) := readBlank rest
        if inside.head? = some ']' then some (.emptyArray blank, inside.tail)
        else (readElements fuel rest).map fun read => (.array read.1, read.2)
      else if c = '{' then
        let (blank, inside) := readBlank rest
        if inside.head? = some '}' then some (.emptyObject blank, inside.tail)
        else (readMembers fuel rest).map fun read => (.object read.1, read.2)
      else (readNumber (c :: rest)).map fun read => (.number read.1, read.2)

/-- Read the elements of an array and its closing bracket. -/
def readElements : Nat → Text → Option (Elements × Text)
  | 0, _ => none
  | fuel + 1, text => do
      let (before, text) := readBlank text
      let (doc, text) ← readDoc fuel text
      let (after, text) := readBlank text
      match text with
      | ',' :: text => do
          let (rest, text) ← readElements fuel text
          return (.more before doc after rest, text)
      | ']' :: text => return (.last before doc after, text)
      | _ => none

/-- Read the members of an object and its closing brace. -/
def readMembers : Nat → Text → Option (Members × Text)
  | 0, _ => none
  | fuel + 1, text => do
      let (start, text) := readBlank text
      let (name, text) ← readString text
      let (stop, text) := readBlank text
      match text with
      | ':' :: text => do
          let (before, text) := readBlank text
          let (doc, text) ← readDoc fuel text
          let (after, text) := readBlank text
          match text with
          | ',' :: text => do
              let (rest, text) ← readMembers fuel text
              return (.more start name stop before doc after rest, text)
          | '}' :: text => return (.last start name stop before doc after, text)
          | _ => none
      | _ => none

end

/-- Read a JSON text. -/
def readDocument (text : Text) : Option Document := do
  let (before, text) := readBlank text
  let (doc, text) ← readDoc (text.length + 1) text
  let (after, text) := readBlank text
  if text.isEmpty then return ⟨before, doc, after⟩ else none

/-! ## Reading what was rendered -/

/-- A text which does not go on with the kind of character. -/
def Stops (kind : Char → Bool) (text : Text) : Prop :=
  ∀ c ∈ text.head?, kind c = false

theorem Stops.cons {kind : Char → Bool} {c : Char} (other : kind c = false) (text : Text) :
    Stops kind (c :: text) := by
  rintro first ⟨⟩
  exact other

theorem readBlank_append (blank : Blank) {rest : Text} (stops : Stops isBlank rest) :
    readBlank (blank.1 ++ rest) = (blank, rest) := by
  obtain ⟨taken, dropped⟩ := Text.takeWhile_run blank.2 stops
  exact Prod.ext (Subtype.ext taken) dropped

theorem readNumber_append (number : Number) {rest : Text} (stops : Stops isNumberChar rest) :
    readNumber (number.1 ++ rest) = some (number, rest) := by
  obtain ⟨taken, dropped⟩ :=
    Text.takeWhile_run (NumberState.read_isNumberChar number.2) stops
  rw [readNumber, dif_pos (by rw [taken]; exact number.2)]
  exact congrArg some (Prod.ext (Subtype.ext taken) dropped)

/-- The first byte of a character says how many bytes it has. -/
theorem plainLength_of_isPlain {c : Char} {bytes : Text} (valid : isPlain (c :: bytes) = true) :
    plainLength c = (c :: bytes).length := by
  match bytes with
  | [] =>
      simp only [isPlain, Bool.and_eq_true, decide_eq_true_eq] at valid
      rw [plainLength, if_pos (by omega)]
      rfl
  | [b] =>
      simp only [isPlain, Bool.and_eq_true, decide_eq_true_eq] at valid
      rw [plainLength, if_neg (by omega), if_pos (by omega)]
      rfl
  | [b, d] =>
      simp only [isPlain, Bool.and_eq_true, Bool.or_eq_true, decide_eq_true_eq, beq_iff_eq] at valid
      rw [plainLength, if_neg (by omega), if_neg (by omega), if_pos (by omega)]
      rfl
  | [b, d, e] =>
      simp only [isPlain, Bool.and_eq_true, Bool.or_eq_true, decide_eq_true_eq, beq_iff_eq] at valid
      rw [plainLength, if_neg (by omega), if_neg (by omega), if_neg (by omega)]
      rfl
  | _ :: _ :: _ :: _ :: _ => cases valid

/-- An item starts with something other than a quote. -/
theorem Item.render_cons (item : Item) :
    ∃ c rest, item.render = c :: rest ∧ c ≠ '"' := by
  cases item with
  | plain bytes valid =>
      rcases isPlain_bytes valid with ⟨c, rfl, -, different, -⟩ | ⟨filled, high⟩
      · exact ⟨c, [], rfl, different⟩
      · obtain ⟨c, rest, rfl⟩ := List.exists_cons_of_ne_nil filled
        refine ⟨c, rest, rfl, ?_⟩
        rintro rfl
        exact absurd (high _ List.mem_cons_self) (by decide)
  | escape c valid => exact ⟨'\\', [c], rfl, by decide⟩
  | unicode digits valid => exact ⟨'\\', 'u' :: digits, rfl, by decide⟩

theorem readItem_render (item : Item) (rest : Text) :
    readItem (item.render ++ rest) = some (item, rest) := by
  cases item with
  | plain bytes valid =>
      have notEscape : ∀ c bytes, isPlain (c :: bytes) = true → c ≠ '\\' := by
        intro c bytes valid
        rcases isPlain_bytes valid with ⟨_, isSingle, -, -, different⟩ | ⟨-, high⟩
        · cases isSingle
          exact different
        · rintro rfl
          exact absurd (high _ List.mem_cons_self) (by decide)
      match bytes with
      | [] => cases valid
      | c :: bytes =>
          have isLength := plainLength_of_isPlain valid
          have taken : (c :: (bytes ++ rest)).take (plainLength c) = c :: bytes := by
            rw [isLength, ← List.cons_append, List.take_left]
          have dropped : (c :: (bytes ++ rest)).drop (plainLength c) = rest := by
            rw [isLength, ← List.cons_append, List.drop_left]
          simp only [Item.render, List.cons_append, readItem, if_neg (notEscape c bytes valid),
            taken, dropped, valid, dif_pos]
  | escape c valid =>
      have notUnicode : c ≠ 'u' := by
        rintro rfl
        exact absurd valid (by decide)
      simp only [Item.render, List.cons_append, List.nil_append, readItem, if_neg notUnicode,
        valid, dif_pos, if_true]
  | unicode digits valid =>
      have taken : (digits ++ rest).take 4 = digits := by rw [← valid.1, List.take_left]
      have dropped : (digits ++ rest).drop 4 = rest := by rw [← valid.1, List.drop_left]
      simp only [Item.render, List.cons_append, readItem, if_true, taken, dropped,
        dif_pos (⟨valid.1, List.all_eq_true.mpr valid.2⟩ : _ ∧ digits.all isHex = true)]

theorem readItems_render (items : List Item) (rest : Text) {fuel : Nat}
    (enough : items.length < fuel) :
    readItems fuel (items.flatMap Item.render ++ '"' :: rest) = some (items, rest) := by
  induction items generalizing fuel with
  | nil =>
      obtain ⟨fuel, rfl⟩ := Nat.exists_eq_add_one_of_ne_zero (Nat.ne_of_gt enough)
      rfl
  | cons item items inductionHypothesis =>
      obtain ⟨fuel, rfl⟩ :=
        Nat.exists_eq_add_one_of_ne_zero (Nat.ne_of_gt (Nat.zero_lt_of_lt enough))
      obtain ⟨c, more, isCons, different⟩ := item.render_cons
      have isRead := readItem_render item (items.flatMap Item.render ++ '"' :: rest)
      rw [List.flatMap_cons, List.append_assoc]
      rw [isCons, List.cons_append] at isRead ⊢
      rw [readItems, if_neg different, isRead]
      simp only [inductionHypothesis (Nat.lt_of_succ_lt_succ enough), Option.map_some]

theorem readString_render (items : List Item) (rest : Text) :
    readString (renderString items ++ rest) = some (items, rest) := by
  have enough : items.length < (items.flatMap Item.render ++ '"' :: rest).length + 1 := by
    have bound : items.length ≤ (items.flatMap Item.render).length := by
      induction items with
      | nil => exact Nat.le_refl _
      | cons item items inductionHypothesis =>
          obtain ⟨c, more, isCons, -⟩ := item.render_cons
          rw [List.flatMap_cons, List.length_append, isCons]
          simp only [List.length_cons]
          omega
    rw [List.length_append]
    omega
  rw [renderString, List.cons_append, List.cons_append, List.append_assoc, List.singleton_append,
    readString, if_pos rfl]
  exact readItems_render items rest enough

/-! ### Values -/

/-- The first characters of values. -/
def startsDoc (c : Char) : Bool :=
  c == 'n' || c == 't' || c == 'f' || c == '"' || c == '[' || c == '{' || c == '-' || c.isDigit

theorem Doc.render_cons (doc : Doc) : ∃ c rest, doc.render = c :: rest ∧ startsDoc c = true := by
  match doc with
  | .null | .boolean true | .boolean false | .string _ | .emptyArray _ | .array _
  | .emptyObject _ | .object _ => exact ⟨_, _, rfl, rfl⟩
  | .number ⟨c :: rest, valid⟩ =>
      refine ⟨c, rest, rfl, ?_⟩
      rcases Decidable.em (c = '0') with rfl | notZero
      · rfl
      · grind [NumberState.read, NumberState.step, startsDoc]
  | .number ⟨[], valid⟩ => cases valid

theorem startsDoc_ne {c other : Char} (starts : startsDoc c = true)
    (never : startsDoc other = false) : c ≠ other := by
  rintro rfl
  rw [starts] at never
  cases never

/-- No value starts with a blank. -/
theorem Doc.stops_isBlank (doc : Doc) (rest : Text) : Stops isBlank (doc.render ++ rest) := by
  obtain ⟨c, more, isCons, starts⟩ := doc.render_cons
  rw [isCons]
  refine Stops.cons ?_ _
  simp only [isBlank, Bool.or_eq_false_iff, beq_eq_false_iff_ne]
  exact ⟨⟨⟨startsDoc_ne starts rfl, startsDoc_ne starts rfl⟩, startsDoc_ne starts rfl⟩,
    startsDoc_ne starts rfl⟩

/-- A number literal does not go on into blanks or punctuation. -/
theorem stops_isNumberChar (blank : Blank) {rest : Text} (stops : Stops isNumberChar rest) :
    Stops isNumberChar (blank.1 ++ rest) := by
  obtain ⟨text, blanks⟩ := blank
  cases text with
  | nil => exact stops
  | cons c text =>
      refine Stops.cons ?_ _
      have isBlank := blanks c List.mem_cons_self
      simp only [Json.isBlank, Bool.or_eq_true, beq_iff_eq] at isBlank
      rcases isBlank with ((rfl | rfl) | rfl) | rfl <;> rfl

/-- Reading the blanks in front of the elements leaves a value. -/
theorem Elements.readBlank_render (elements : Elements) (rest : Text) :
    (readBlank (elements.render ++ rest)).2.head? ≠ some ']' := by
  have leaves : ∀ (before : Blank) (doc : Doc) (rest : Text),
      (readBlank (before.1 ++ (doc.render ++ rest))).2.head? ≠ some ']' := by
    intro before doc rest
    rw [readBlank_append before (doc.stops_isBlank rest)]
    obtain ⟨c, more, isCons, starts⟩ := doc.render_cons
    rw [isCons, List.cons_append, List.head?_cons, Ne, Option.some.injEq]
    exact startsDoc_ne starts rfl
  cases elements with
  | last before doc after => simpa [Elements.render] using leaves before doc (after.1 ++ rest)
  | more before doc after others =>
      simpa [Elements.render] using leaves before doc (after.1 ++ ',' :: (others.render ++ rest))

/-- Reading the blanks in front of the members leaves a name. -/
theorem Members.readBlank_render (members : Members) (rest : Text) :
    (readBlank (members.render ++ rest)).2.head? ≠ some '}' := by
  have leaves : ∀ (start : Blank) (rest : Text),
      (readBlank (start.1 ++ '"' :: rest)).2.head? ≠ some '}' := by
    intro start rest
    rw [readBlank_append start (Stops.cons rfl rest)]
    simp
  cases members with
  | last start name stop before doc after =>
      simpa [Members.render, renderString] using leaves start _
  | more start name stop before doc after others =>
      simpa [Members.render, renderString] using leaves start _

/-- A string literal starts with a quote. -/
theorem stops_renderString (name : List Item) (rest : Text) :
    Stops isBlank (renderString name ++ rest) :=
  Stops.cons rfl _

mutual

/-- A rendered value is read back. -/
theorem Doc.readDoc_render : ∀ (doc : Doc) {fuel : Nat} {rest : Text},
    doc.render.length ≤ fuel → Stops isNumberChar rest →
    readDoc fuel (doc.render ++ rest) = some (doc, rest)
  | .null, fuel + 1, rest, _, _ => rfl
  | .boolean true, fuel + 1, rest, _, _ => rfl
  | .boolean false, fuel + 1, rest, _, _ => rfl
  | .number literal, fuel + 1, rest, _, stops => by
      obtain ⟨c, more, isCons, -⟩ := (Doc.number literal).render_cons
      rw [Doc.render] at isCons
      have isNumber : isNumberChar c = true :=
        NumberState.read_isNumberChar literal.2 c (isCons ▸ List.mem_cons_self)
      have other : ∀ d, isNumberChar d = false → c ≠ d := by
        rintro d notNumber rfl
        rw [isNumber] at notNumber
        cases notNumber
      have isRead := readNumber_append literal stops
      rw [isCons, List.cons_append] at isRead
      rw [Doc.render, isCons, List.cons_append, readDoc, if_neg (other _ rfl),
        if_neg (other _ rfl), if_neg (other _ rfl), if_neg (other _ rfl), if_neg (other _ rfl),
        if_neg (other _ rfl), isRead]
      rfl
  | .string items, fuel + 1, rest, _, _ => by
      have isRead := readString_render items rest
      simp [renderString] at isRead
      simp [Doc.render, renderString, readDoc, isRead]
  | .emptyArray blank, fuel + 1, rest, _, _ => by
      have isRead : readBlank (blank.1 ++ ']' :: rest) = (blank, ']' :: rest) :=
        readBlank_append blank (Stops.cons rfl rest)
      simp [Doc.render, readDoc, isRead]
  | .array elements, fuel + 1, rest, enough, _ => by
      have inside := elements.readBlank_render (']' :: rest)
      simp only [Doc.render, List.length_cons, List.length_append] at enough
      have isRead : readElements fuel (elements.render ++ ']' :: rest) = some (elements, rest) :=
        elements.readElements_render (by omega)
      simp [Doc.render, readDoc, inside, isRead]
  | .emptyObject blank, fuel + 1, rest, _, _ => by
      have isRead : readBlank (blank.1 ++ '}' :: rest) = (blank, '}' :: rest) :=
        readBlank_append blank (Stops.cons rfl rest)
      simp [Doc.render, readDoc, isRead]
  | .object members, fuel + 1, rest, enough, _ => by
      have inside := members.readBlank_render ('}' :: rest)
      simp only [Doc.render, List.length_cons, List.length_append] at enough
      have isRead : readMembers fuel (members.render ++ '}' :: rest) = some (members, rest) :=
        members.readMembers_render (by omega)
      simp [Doc.render, readDoc, inside, isRead]
  | doc, 0, rest, enough, _ => by
      obtain ⟨c, more, isCons, -⟩ := doc.render_cons
      rw [isCons] at enough
      cases enough

/-- Rendered elements are read back up to the closing bracket. -/
theorem Elements.readElements_render : ∀ (elements : Elements) {fuel : Nat} {rest : Text},
    elements.render.length < fuel →
    readElements fuel (elements.render ++ ']' :: rest) = some (elements, rest)
  | .last before doc after, fuel + 1, rest, enough => by
      simp only [Elements.render, List.length_append] at enough
      have isBefore := readBlank_append before (doc.stops_isBlank (after.1 ++ ']' :: rest))
      have isDoc : readDoc fuel (doc.render ++ (after.1 ++ ']' :: rest)) =
          some (doc, after.1 ++ ']' :: rest) :=
        doc.readDoc_render (by omega) (stops_isNumberChar after (Stops.cons rfl rest))
      have isAfter : readBlank (after.1 ++ ']' :: rest) = (after, ']' :: rest) :=
        readBlank_append after (Stops.cons rfl rest)
      simp [Elements.render, readElements, isBefore, isDoc, isAfter]
  | .more before doc after others, fuel + 1, rest, enough => by
      simp only [Elements.render, List.length_append, List.length_cons] at enough
      have isOthers : readElements fuel (others.render ++ ']' :: rest) = some (others, rest) :=
        others.readElements_render (by omega)
      have isBefore := readBlank_append before
        (doc.stops_isBlank (after.1 ++ ',' :: (others.render ++ ']' :: rest)))
      have isDoc : readDoc fuel (doc.render ++ (after.1 ++ ',' :: (others.render ++ ']' :: rest))) =
          some (doc, after.1 ++ ',' :: (others.render ++ ']' :: rest)) :=
        doc.readDoc_render (by omega) (stops_isNumberChar after (Stops.cons rfl _))
      have isAfter : readBlank (after.1 ++ ',' :: (others.render ++ ']' :: rest)) =
          (after, ',' :: (others.render ++ ']' :: rest)) :=
        readBlank_append after (Stops.cons rfl _)
      simp [Elements.render, readElements, isBefore, isDoc, isAfter, isOthers]

/-- Rendered members are read back up to the closing brace. -/
theorem Members.readMembers_render : ∀ (members : Members) {fuel : Nat} {rest : Text},
    members.render.length < fuel →
    readMembers fuel (members.render ++ '}' :: rest) = some (members, rest)
  | .last start name stop before doc after, fuel + 1, rest, enough => by
      simp only [Members.render, List.length_append, List.length_cons] at enough
      have isBefore := readBlank_append before (doc.stops_isBlank (after.1 ++ '}' :: rest))
      have isDoc : readDoc fuel (doc.render ++ (after.1 ++ '}' :: rest)) =
          some (doc, after.1 ++ '}' :: rest) :=
        doc.readDoc_render (by omega) (stops_isNumberChar after (Stops.cons rfl rest))
      have isAfter : readBlank (after.1 ++ '}' :: rest) = (after, '}' :: rest) :=
        readBlank_append after (Stops.cons rfl rest)
      rw [Members.render]
      simp only [List.append_assoc, List.cons_append]
      generalize before.1 ++ (doc.render ++ (after.1 ++ '}' :: rest)) = value at isBefore ⊢
      have isStart := readBlank_append start (stops_renderString name (stop.1 ++ ':' :: value))
      have isName := readString_render name (stop.1 ++ ':' :: value)
      have isStop : readBlank (stop.1 ++ ':' :: value) = (stop, ':' :: value) :=
        readBlank_append stop (Stops.cons rfl value)
      simp [readMembers, isStart, isName, isStop, isBefore, isDoc, isAfter]
  | .more start name stop before doc after others, fuel + 1, rest, enough => by
      simp only [Members.render, List.length_append, List.length_cons] at enough
      have isOthers : readMembers fuel (others.render ++ '}' :: rest) = some (others, rest) :=
        others.readMembers_render (by omega)
      have isBefore := readBlank_append before
        (doc.stops_isBlank (after.1 ++ ',' :: (others.render ++ '}' :: rest)))
      have isDoc : readDoc fuel (doc.render ++ (after.1 ++ ',' :: (others.render ++ '}' :: rest))) =
          some (doc, after.1 ++ ',' :: (others.render ++ '}' :: rest)) :=
        doc.readDoc_render (by omega) (stops_isNumberChar after (Stops.cons rfl _))
      have isAfter : readBlank (after.1 ++ ',' :: (others.render ++ '}' :: rest)) =
          (after, ',' :: (others.render ++ '}' :: rest)) :=
        readBlank_append after (Stops.cons rfl _)
      rw [Members.render]
      simp only [List.append_assoc, List.cons_append]
      generalize before.1 ++ (doc.render ++ (after.1 ++ ',' :: (others.render ++ '}' :: rest))) =
        value at isBefore ⊢
      have isStart := readBlank_append start (stops_renderString name (stop.1 ++ ':' :: value))
      have isName := readString_render name (stop.1 ++ ':' :: value)
      have isStop : readBlank (stop.1 ++ ':' :: value) = (stop, ':' :: value) :=
        readBlank_append stop (Stops.cons rfl value)
      simp [readMembers, isStart, isName, isStop, isBefore, isDoc, isAfter, isOthers]

end

/-- A JSON text is read back from what it renders to. -/
theorem readDocument_render (text : Document) : readDocument text.render = some text := by
  obtain ⟨before, doc, after⟩ := text
  have isBefore := readBlank_append before (doc.stops_isBlank after.1)
  have ends : ∀ kind, Stops kind [] := nofun
  have stops : Stops isNumberChar after.1 := by
    simpa using stops_isNumberChar after (ends _)
  have isDoc : readDoc ((doc.render ++ after.1).length + 1) (doc.render ++ after.1) =
      some (doc, after.1) :=
    doc.readDoc_render (by rw [List.length_append]; omega) stops
  have isAfter : readBlank after.1 = (after, []) := by
    simpa using readBlank_append after (ends _)
  rw [Document.render, readDocument, isBefore]
  simp only [isDoc, isAfter, Option.bind_eq_bind, Option.bind_some, List.isEmpty_nil, if_true]
  rfl

/-- The parser which reads JSON texts by `readDocument`. -/
def referenceParse {ν : Type} (reading : Reading ν) (text : Text) : Except Text (Value ν) :=
  match readDocument text with
  | some document =>
      if document.render = text then .ok (document.doc.value reading)
      else .error "parse error".toList
  | none => .error "parse error".toList

theorem referenceParse_conforms {ν : Type} (reading : Reading ν) :
    Conforms reading (referenceParse reading) where
  accepts text := by rw [referenceParse, readDocument_render]; exact if_pos rfl
  refuses text noDocument := by
    rw [referenceParse]
    split
    · rename_i document _
      exact ⟨_, if_neg (noDocument document)⟩
    · exact ⟨_, rfl⟩

/-! ## A reading -/

/-- The number of hexadecimal digits. -/
def hexValue (digits : Text) : Nat :=
  digits.foldl
    (fun value c =>
      16 * value +
        if c.isDigit then c.toNat - '0'.toNat
        else if 'a' ≤ c then c.toNat - 'a'.toNat + 10
        else c.toNat - 'A'.toNat + 10) 0

/-- The bytes of a code unit in UTF-8. -/
def utf8 (code : Nat) : Text :=
  if code < 0x80 then [Char.ofNat code]
  else if code < 0x800 then [Char.ofNat (0xC0 + code / 64), Char.ofNat (0x80 + code % 64)]
  else
    [Char.ofNat (0xE0 + code / 4096), Char.ofNat (0x80 + code / 64 % 64),
      Char.ofNat (0x80 + code % 64)]

/-- The bytes an item stands for. -/
def Item.bytes : Item → Text
  | .plain bytes _ => bytes
  | .escape 'b' _ => [Char.ofNat 8]
  | .escape 'f' _ => [Char.ofNat 12]
  | .escape 'n' _ => ['\n']
  | .escape 'r' _ => ['\r']
  | .escape 't' _ => ['\t']
  | .escape c _ => [c]
  | .unicode digits _ => utf8 (hexValue digits)

/-- Put a member in its place by name, over an earlier one of that name. -/
def insertMember {ν : Type} (member : Text × Value ν) :
    List (Text × Value ν) → List (Text × Value ν)
  | [] => [member]
  | first :: rest =>
      if member.1 = first.1 then member :: rest
      else if member.1 < first.1 then member :: first :: rest
      else first :: insertMember member rest

theorem insertMember_subset {ν : Type} (member : Text × Value ν) (held : List (Text × Value ν)) :
    insertMember member held ⊆ member :: held := by
  induction held with
  | nil => exact List.Subset.refl _
  | cons first rest inductionHypothesis =>
      rw [insertMember]
      split
      · exact List.cons_subset_cons _ (List.subset_cons_self _ _)
      · split
        · exact List.Subset.refl _
        · refine List.cons_subset.mpr ⟨by simp, fun other isOther => ?_⟩
          have found := inductionHypothesis isOther
          rw [List.mem_cons] at found ⊢
          exact found.imp_right (List.mem_cons_of_mem _)

theorem insertMember_names {ν : Type} (member : Text × Value ν) (held : List (Text × Value ν)) :
    member.1 :: held.map Prod.fst ⊆ (insertMember member held).map Prod.fst := by
  induction held with
  | nil => exact List.Subset.refl _
  | cons first rest inductionHypothesis =>
      obtain ⟨here, later⟩ := List.cons_subset.mp inductionHypothesis
      rw [insertMember]
      split
      · rename_i same
        simp [same]
      · split
        · exact List.Subset.refl _
        · simp only [List.map_cons, List.cons_subset, List.mem_cons, true_or]
          exact ⟨.inr here, trivial, List.subset_cons_of_subset _ later⟩

/-- Members put in place have the names and the values they came with. -/
theorem foldr_insertMember {ν : Type} (members : List (Text × Value ν)) :
    members.foldr insertMember [] ⊆ members ∧
      members.map Prod.fst ⊆ (members.foldr insertMember []).map Prod.fst := by
  induction members with
  | nil => exact ⟨List.Subset.refl _, List.Subset.refl _⟩
  | cons member members inductionHypothesis =>
      obtain ⟨subset, names⟩ := inductionHypothesis
      refine ⟨List.Subset.trans (insertMember_subset _ _) (List.cons_subset_cons _ subset), ?_⟩
      exact List.Subset.trans (List.cons_subset_cons _ names) (insertMember_names _ _)

/-- Numbers stand for their literals, code units are encoded one by one, and the
last member of a name is kept. -/
def lastWins : Reading Text where
  number literal := literal.1
  string items := items.flatMap Item.bytes
  merge members := members.reverse.foldr insertMember []
  string_plain before bytes valid after := by
    rw [List.flatMap_append, List.flatMap_cons]
    rfl
  merge_subset members := fun _ isMember =>
    List.mem_reverse.mp ((foldr_insertMember members.reverse).1 isMember)
  merge_names members name isName :=
    (foldr_insertMember members.reverse).2 (by rwa [List.map_reverse, List.mem_reverse])

end Foxhttp.Library.Json
