import Foxhttp.Library.Json.Lexical

/-!
# The closing brackets of JSON texts

The brackets which close an array or an object with nothing but its last member
directly in front of them. Everything in front of such a bracket ends outside of
string literals.
-/

namespace Foxhttp.Library.Json

open Foxhttp.Library

/-- A bracket in a text. -/
structure Place where
  before : Text
  bracket : Char
  after : Text

namespace Place

/-- The text with the bracket. -/
def render (place : Place) : Text :=
  place.before ++ place.bracket :: place.after

/-- The text with a comma in front of the bracket. -/
def comma (place : Place) : Text :=
  place.before ++ ',' :: place.bracket :: place.after

/-- The place in a longer text. -/
def within (front back : Text) (place : Place) : Place :=
  { place with before := front ++ place.before, after := place.after ++ back }

theorem render_within (front back : Text) (place : Place) :
    (place.within front back).render = front ++ (place.render ++ back) := by
  simp [render, within]

end Place

/-- The last element has no blank behind it. -/
def Elements.bare : Elements → Bool
  | .last _ _ after => after.1.isEmpty
  | .more _ _ _ rest => rest.bare

/-- The value of the last member has no blank behind it. -/
def Members.bare : Members → Bool
  | .last _ _ _ _ _ after => after.1.isEmpty
  | .more _ _ _ _ _ _ rest => rest.bare

mutual

/-- The brackets directly behind the last element of an array, or the last
member of an object. -/
def Doc.closings : Doc → List Place
  | .null | .boolean _ | .number _ | .string _ | .emptyArray _ | .emptyObject _ => []
  | .array elements =>
      (if elements.bare then [⟨'[' :: elements.render, ']', []⟩] else []) ++
        elements.closings.map (Place.within ['['] [']'])
  | .object members =>
      (if members.bare then [⟨'{' :: members.render, '}', []⟩] else []) ++
        members.closings.map (Place.within ['{'] ['}'])

/-- Those of the elements. -/
def Elements.closings : Elements → List Place
  | .last before doc after => doc.closings.map (Place.within before.1 after.1)
  | .more before doc after rest =>
      doc.closings.map (Place.within before.1 (after.1 ++ ',' :: rest.render)) ++
        rest.closings.map (Place.within (before.1 ++ (doc.render ++ (after.1 ++ [',']))) [])

/-- Those of the members. -/
def Members.closings : Members → List Place
  | .last start name stop before doc after =>
      doc.closings.map
        (Place.within (start.1 ++ (renderString name ++ (stop.1 ++ ':' :: before.1))) after.1)
  | .more start name stop before doc after rest =>
      doc.closings.map
        (Place.within (start.1 ++ (renderString name ++ (stop.1 ++ ':' :: before.1)))
          (after.1 ++ ',' :: rest.render)) ++
      rest.closings.map
        (Place.within (start.1 ++ (renderString name ++ (stop.1 ++ ':' ::
          (before.1 ++ (doc.render ++ (after.1 ++ [','])))))) [])

end

/-- Those of a JSON text. -/
def Document.closings (text : Document) : List Place :=
  text.doc.closings.map (Place.within text.before.1 text.after.1)

mutual

/-- The only string literals are the names of members. -/
def Doc.namesOnly : Doc → Bool
  | .string _ => false
  | .null | .boolean _ | .number _ | .emptyArray _ | .emptyObject _ => true
  | .array elements => elements.namesOnly
  | .object members => members.namesOnly

/-- Those of the elements are. -/
def Elements.namesOnly : Elements → Bool
  | .last _ doc _ => doc.namesOnly
  | .more _ doc _ rest => doc.namesOnly && rest.namesOnly

/-- Those of the members are. -/
def Members.namesOnly : Members → Bool
  | .last _ _ _ _ doc _ => doc.namesOnly
  | .more _ _ _ _ doc _ rest => doc.namesOnly && rest.namesOnly

end

/-! ## Where the brackets are -/

/-- A closing bracket of the text, outside of its string literals. -/
structure Place.Closes (place : Place) (text : Text) : Prop where
  whole : place.render = text
  outside : Mode.outside.scan place.before = some .outside
  isClosing : place.bracket = ']' ∨ place.bracket = '}'

namespace Place.Closes

variable {place : Place} {text : Text}

theorem within (closes : place.Closes text) {front : Text}
    (scanned : Mode.outside.scan front = some .outside) (back : Text) :
    (place.within front back).Closes (front ++ (text ++ back)) where
  whole := by rw [Place.render_within, closes.whole]
  outside := (Mode.scan_append_of_eq scanned place.before).trans closes.outside
  isClosing := closes.isClosing

/-- The comma ends outside of string literals where the text does. -/
theorem scan_comma (closes : place.Closes text) :
    Mode.outside.scan place.comma = Mode.outside.scan text := by
  rw [← closes.whole, Place.comma, Place.render, Mode.scan_append_of_eq closes.outside,
    Mode.scan_append_of_eq closes.outside]
  rfl

end Place.Closes

/-- What is in front of a value of a member. -/
theorem scan_name (start : Blank) (name : List Item) (stop before : Blank) :
    Mode.outside.scan (start.1 ++ (renderString name ++ (stop.1 ++ ':' :: before.1))) =
      some .outside := by
  rw [Mode.scan_append_of_eq (scan_blank start), Mode.scan_append_of_eq (scan_string name),
    Mode.scan_append_of_eq (scan_blank stop)]
  exact scan_blank before

/-- What is in front of the value behind a comma. -/
theorem scan_front {front : Text} (scanned : Mode.outside.scan front = some .outside) (doc : Doc)
    (after : Blank) :
    Mode.outside.scan (front ++ (doc.render ++ (after.1 ++ [',']))) = some .outside := by
  rw [Mode.scan_append_of_eq scanned, Mode.scan_append_of_eq doc.scan_render,
    Mode.scan_append_of_eq (scan_blank after)]
  rfl

mutual

theorem Doc.closes : ∀ (doc : Doc), ∀ place ∈ doc.closings, place.Closes doc.render
  | .array elements, place, member => by
      rcases List.mem_append.mp member with isLast | isWithin
      · split at isLast
        · obtain rfl := List.mem_singleton.mp isLast
          exact ⟨rfl, elements.scan_render, .inl rfl⟩
        · cases isLast
      · obtain ⟨inner, isInner, rfl⟩ := List.mem_map.mp isWithin
        exact (elements.closes inner isInner).within rfl [']']
  | .object members, place, member => by
      rcases List.mem_append.mp member with isLast | isWithin
      · split at isLast
        · obtain rfl := List.mem_singleton.mp isLast
          exact ⟨rfl, members.scan_render, .inr rfl⟩
        · cases isLast
      · obtain ⟨inner, isInner, rfl⟩ := List.mem_map.mp isWithin
        exact (members.closes inner isInner).within rfl ['}']

theorem Elements.closes : ∀ (elements : Elements), ∀ place ∈ elements.closings,
    place.Closes elements.render
  | .last before doc after, place, member => by
      obtain ⟨inner, isInner, rfl⟩ := List.mem_map.mp member
      exact (doc.closes inner isInner).within (scan_blank before) after.1
  | .more before doc after rest, place, member => by
      rcases List.mem_append.mp member with isHere | isLater
      · obtain ⟨inner, isInner, rfl⟩ := List.mem_map.mp isHere
        exact (doc.closes inner isInner).within (scan_blank before) _
      · obtain ⟨inner, isInner, rfl⟩ := List.mem_map.mp isLater
        have closes := (rest.closes inner isInner).within
          (scan_front (scan_blank before) doc after) []
        simpa [Elements.render] using closes

theorem Members.closes : ∀ (members : Members), ∀ place ∈ members.closings,
    place.Closes members.render
  | .last start name stop before doc after, place, member => by
      obtain ⟨inner, isInner, rfl⟩ := List.mem_map.mp member
      have closes := (doc.closes inner isInner).within (scan_name start name stop before) after.1
      simpa [Members.render] using closes
  | .more start name stop before doc after rest, place, member => by
      rcases List.mem_append.mp member with isHere | isLater
      · obtain ⟨inner, isInner, rfl⟩ := List.mem_map.mp isHere
        have closes := (doc.closes inner isInner).within (scan_name start name stop before)
          (after.1 ++ ',' :: rest.render)
        simpa [Members.render] using closes
      · obtain ⟨inner, isInner, rfl⟩ := List.mem_map.mp isLater
        have closes := (rest.closes inner isInner).within
          (scan_front (scan_name start name stop before) doc after) []
        simpa [Members.render] using closes

end

/-- Every place is a closing bracket of the text. -/
theorem Document.closes (text : Document) {place : Place} (member : place ∈ text.closings) :
    place.Closes text.render := by
  obtain ⟨inner, isInner, rfl⟩ := List.mem_map.mp member
  exact (text.doc.closes inner isInner).within (scan_blank text.before) text.after.1

end Foxhttp.Library.Json
