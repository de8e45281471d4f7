import Foxhttp.Library.Text

/-!
# JSON texts

A JSON text of RFC 8259 as a syntax tree over bytes, with its blanks, so that
`render` gives back the text. `Reading` is what the grammar leaves to a reader:
what number and string literals stand for, and which member an object keeps
when a name is repeated.
-/

namespace Foxhttp.Library.Json

open Foxhttp.Library

/-! ## Literals -/

/-- `ws` is a run of these. -/
def isBlank (c : Char) : Bool :=
  c == ' ' || c == '\t' || c == '\n' || c == '\r'

/-- A run of blanks. -/
abbrev Blank := {text : Text // ∀ c ∈ text, isBlank c = true}

/-- How far a number literal is read. -/
inductive NumberState where
  | start | sign | zero | whole | point | fraction | exponent | exponentSign | exponentDigits
deriving DecidableEq, Repr

namespace NumberState

/-- Read one more character of a number literal. -/
def step : NumberState → Char → Option NumberState
  | start, c =>
      if c = '-' then some sign
      else if c = '0' then some zero
      else if c.isDigit then some whole
      else none
  | sign, c => if c = '0' then some zero else if c.isDigit then some whole else none
  | zero, c =>
      if c = '.' then some point else if c = 'e' ∨ c = 'E' then some exponent else none
  | whole, c =>
      if c.isDigit then some whole
      else if c = '.' then some point
      else if c = 'e' ∨ c = 'E' then some exponent
      else none
  | point, c => if c.isDigit then some fraction else none
  | fraction, c =>
      if c.isDigit then some fraction
      else if c = 'e' ∨ c = 'E' then some exponent
      else none
  | exponent, c =>
      if c = '+' ∨ c = '-' then some exponentSign
      else if c.isDigit then some exponentDigits
      else none
  | exponentSign, c => if c.isDigit then some exponentDigits else none
  | exponentDigits, c => if c.isDigit then some exponentDigits else none

/-- Whether a number literal may end here. -/
def complete : NumberState → Bool
  | zero | whole | fraction | exponentDigits => true
  | start | sign | point | exponent | exponentSign => false

/-- Read a text as a number literal. -/
def read : NumberState → Text → Bool
  | state, [] => state.complete
  | state, c :: rest =>
      match state.step c with
      | some next => next.read rest
      | none => false

end NumberState

/-- A number literal. -/
abbrev Number := {text : Text // NumberState.start.read text = true}

/-- The characters of number literals. -/
def isNumberChar (c : Char) : Bool :=
  c.isDigit || c == '-' || c == '+' || c == '.' || c == 'e' || c == 'E'

theorem NumberState.step_isNumberChar {state next : NumberState} {c : Char}
    (stepped : state.step c = some next) : isNumberChar c = true := by
  by_cases digit : c.isDigit
  · simp [isNumberChar, digit]
  · have notZero : c ≠ '0' := by
      rintro rfl
      exact digit rfl
    cases state <;> grind [NumberState.step, isNumberChar]

theorem NumberState.read_isNumberChar {state : NumberState} {text : Text}
    (isRead : state.read text = true) : ∀ c ∈ text, isNumberChar c = true := by
  induction text generalizing state with
  | nil => simp
  | cons c text inductionHypothesis =>
      rw [NumberState.read] at isRead
      split at isRead
      · rename_i stepped
        exact List.forall_mem_cons.mpr
          ⟨NumberState.step_isNumberChar stepped, inductionHypothesis isRead⟩
      · cases isRead

/-- The second and later bytes of a character in UTF-8. -/
def isTail (c : Char) : Bool :=
  0x80 ≤ c.toNat && c.toNat ≤ 0xBF

/-- The bytes of one character which stands for itself in a string literal. -/
def isPlain : Text → Bool
  | [a] => 0x20 ≤ a.toNat && a.toNat < 0x80 && a != '"' && a != '\\'
  | [a, b] => 0xC2 ≤ a.toNat && a.toNat ≤ 0xDF && isTail b
  | [a, b, c] =>
      ((a.toNat == 0xE0 && 0xA0 ≤ b.toNat && b.toNat ≤ 0xBF) ||
        (0xE1 ≤ a.toNat && a.toNat ≤ 0xEF && a.toNat != 0xED && isTail b) ||
        (a.toNat == 0xED && 0x80 ≤ b.toNat && b.toNat ≤ 0x9F)) && isTail c
  | [a, b, c, d] =>
      ((a.toNat == 0xF0 && 0x90 ≤ b.toNat && b.toNat ≤ 0xBF) ||
        (0xF1 ≤ a.toNat && a.toNat ≤ 0xF3 && isTail b) ||
        (a.toNat == 0xF4 && 0x80 ≤ b.toNat && b.toNat ≤ 0x8F)) && isTail c && isTail d
  | _ => false

/-- A character which stands for itself is one byte, or has no ASCII byte. -/
theorem isPlain_bytes {bytes : Text} (valid : isPlain bytes = true) :
    (∃ c, bytes = [c] ∧ 0x20 ≤ c.toNat ∧ c ≠ '"' ∧ c ≠ '\\') ∨
      bytes ≠ [] ∧ ∀ c ∈ bytes, 0x80 ≤ c.toNat := by
  match bytes with
  | [c] =>
      simp only [isPlain, Bool.and_eq_true, decide_eq_true_eq, bne_iff_ne] at valid
      exact .inl ⟨c, rfl, valid.1.1.1, valid.1.2, valid.2⟩
  | [a, b] =>
      simp only [isPlain, isTail, Bool.and_eq_true, decide_eq_true_eq] at valid
      refine .inr ⟨List.cons_ne_nil _ _, fun byte member => ?_⟩
      simp only [List.mem_cons, List.not_mem_nil, or_false] at member
      rcases member with rfl | rfl <;> omega
  | [a, b, c] =>
      simp only [isPlain, isTail, Bool.and_eq_true, Bool.or_eq_true, decide_eq_true_eq,
        beq_iff_eq] at valid
      refine .inr ⟨List.cons_ne_nil _ _, fun byte member => ?_⟩
      simp only [List.mem_cons, List.not_mem_nil, or_false] at member
      rcases member with rfl | rfl | rfl <;> omega
  | [a, b, c, d] =>
      simp only [isPlain, isTail, Bool.and_eq_true, Bool.or_eq_true, decide_eq_true_eq,
        beq_iff_eq] at valid
      refine .inr ⟨List.cons_ne_nil _ _, fun byte member => ?_⟩
      simp only [List.mem_cons, List.not_mem_nil, or_false] at member
      rcases member with rfl | rfl | rfl | rfl <;> omega
  | [] => cases valid
  | _ :: _ :: _ :: _ :: _ :: _ => cases valid

/-- The characters which may follow a backslash by themselves. -/
def escapes : Text :=
  ['"', '\\', '/', 'b', 'f', 'n', 'r', 't']

/-- A hexadecimal digit. -/
def isHex (c : Char) : Bool :=
  c.isDigit || ('a' ≤ c && c ≤ 'f') || ('A' ≤ c && c ≤ 'F')

/-- One character of a string literal. -/
inductive Item where
  | plain (bytes : Text) (valid : isPlain bytes = true)
  | escape (c : Char) (valid : c ∈ escapes)
  | unicode (digits : Text) (valid : digits.length = 4 ∧ ∀ c ∈ digits, isHex c = true)
deriving DecidableEq

/-- The bytes of an item. -/
def Item.render : Item → Text
  | .plain bytes _ => bytes
  | .escape c _ => ['\\', c]
  | .unicode digits _ => '\\' :: 'u' :: digits

/-- A string literal of these items. -/
def renderString (items : List Item) : Text :=
  '"' :: items.flatMap Item.render ++ ['"']

/-! ## Syntax trees -/

mutual

/-- A value. -/
inductive Doc where
  | null
  | boolean (value : Bool)
  | number (literal : Number)
  | string (items : List Item)
  | emptyArray (blank : Blank)
  | array (elements : Elements)
  | emptyObject (blank : Blank)
  | object (members : Members)

/-- The values of an array, each between blanks. -/
inductive Elements where
  | last (before : Blank) (doc : Doc) (after : Blank)
  | more (before : Blank) (doc : Doc) (after : Blank) (rest : Elements)

/-- The members of an object: the blanks around a name, and those around its
value. -/
inductive Members where
  | last (start : Blank) (name : List Item) (stop before : Blank) (doc : Doc) (after : Blank)
  | more (start : Blank) (name : List Item) (stop before : Blank) (doc : Doc) (after : Blank)
      (rest : Members)

end

/-- A JSON text. -/
structure Document where
  before : Blank
  doc : Doc
  after : Blank

mutual

/-- The text of a value. -/
def Doc.render : Doc → Text
  | .null => "null".toList
  | .boolean true => "true".toList
  | .boolean false => "false".toList
  | .number literal => literal.1
  | .string items => renderString items
  | .emptyArray blank => '[' :: (blank.1 ++ [']'])
  | .array elements => '[' :: (elements.render ++ [']'])
  | .emptyObject blank => '{' :: (blank.1 ++ ['}'])
  | .object members => '{' :: (members.render ++ ['}'])

/-- The text between the brackets. -/
def Elements.render : Elements → Text
  | .last before doc after => before.1 ++ (doc.render ++ after.1)
  | .more before doc after rest => before.1 ++ (doc.render ++ (after.1 ++ ',' :: rest.render))

/-- The text between the braces. -/
def Members.render : Members → Text
  | .last start name stop before doc after =>
      start.1 ++ (renderString name ++ (stop.1 ++ ':' :: (before.1 ++ (doc.render ++ after.1))))
  | .more start name stop before doc after rest =>
      start.1 ++ (renderString name ++ (stop.1 ++ ':' ::
        (before.1 ++ (doc.render ++ (after.1 ++ ',' :: rest.render)))))

end

/-- The bytes of a JSON text. -/
def Document.render (text : Document) : Text :=
  text.before.1 ++ (text.doc.render ++ text.after.1)

mutual

/-- How deep arrays and objects are nested. -/
def Doc.nesting : Doc → Nat
  | .null | .boolean _ | .number _ | .string _ => 0
  | .emptyArray _ | .emptyObject _ => 1
  | .array elements => elements.nesting + 1
  | .object members => members.nesting + 1

/-- The deepest nesting of an element. -/
def Elements.nesting : Elements → Nat
  | .last _ doc _ => doc.nesting
  | .more _ doc _ rest => max doc.nesting rest.nesting

/-- The deepest nesting of a member. -/
def Members.nesting : Members → Nat
  | .last _ _ _ _ doc _ => doc.nesting
  | .more _ _ _ _ doc _ rest => max doc.nesting rest.nesting

end

/-! ## Values -/

/-- What a JSON text stands for. An object is its names with their values. -/
inductive Value (ν : Type) where
  | null
  | boolean (value : Bool)
  | number (value : ν)
  | string (value : Text)
  | array (elements : List (Value ν))
  | object (members : List (Text × Value ν))

/-- What the grammar leaves to a reader. A character which is not escaped
stands for itself. When a name is repeated it is open which of its members the
object keeps, but the object has every name, with one of its values. -/
structure Reading (ν : Type) where
  number : Number → ν
  string : List Item → Text
  merge : List (Text × Value ν) → List (Text × Value ν)
  string_plain : ∀ before bytes valid after,
    string (before ++ .plain bytes valid :: after) = string before ++ (bytes ++ string after)
  merge_subset : ∀ members, merge members ⊆ members
  merge_names : ∀ members, ∀ name ∈ members.map Prod.fst, name ∈ (merge members).map Prod.fst

variable {ν : Type} (reading : Reading ν)

mutual

/-- What a value stands for. -/
def Doc.value : Doc → Value ν
  | .null => .null
  | .boolean value => .boolean value
  | .number literal => .number (reading.number literal)
  | .string items => .string (reading.string items)
  | .emptyArray _ => .array []
  | .array elements => .array elements.values
  | .emptyObject _ => .object (reading.merge [])
  | .object members => .object (reading.merge members.entries)

/-- What the elements stand for. -/
def Elements.values : Elements → List (Value ν)
  | .last _ doc _ => [doc.value]
  | .more _ doc _ rest => doc.value :: rest.values

/-- The names and what the members stand for. -/
def Members.entries : Members → List (Text × Value ν)
  | .last _ name _ _ doc _ => [(reading.string name, doc.value)]
  | .more _ name _ _ doc _ rest => (reading.string name, doc.value) :: rest.entries

end

mutual

/-- No object repeats a name. -/
def Doc.DistinctNames : Doc → Prop
  | .null | .boolean _ | .number _ | .string _ | .emptyArray _ | .emptyObject _ => True
  | .array elements => elements.DistinctNames
  | .object members =>
      ((members.entries reading).map Prod.fst).Nodup ∧ members.DistinctNames

/-- No object in an element repeats a name. -/
def Elements.DistinctNames : Elements → Prop
  | .last _ doc _ => doc.DistinctNames
  | .more _ doc _ rest => doc.DistinctNames ∧ rest.DistinctNames

/-- No object in a member repeats a name. -/
def Members.DistinctNames : Members → Prop
  | .last _ _ _ _ doc _ => doc.DistinctNames
  | .more _ _ _ _ doc _ rest => doc.DistinctNames ∧ rest.DistinctNames

end

/-- A parser of RFC 8259: what it makes of a JSON text is what the text stands
for, and it refuses everything else. -/
structure Conforms (parse : Text → Except Text (Value ν)) : Prop where
  accepts : ∀ text : Document, parse text.render = .ok (text.doc.value reading)
  refuses : ∀ text : Text, (∀ document : Document, document.render ≠ text) →
    ∃ message, parse text = .error message

end Foxhttp.Library.Json
