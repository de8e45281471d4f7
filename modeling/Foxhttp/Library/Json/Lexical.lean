import Foxhttp.Library.Json.Syntax

/-!
# Quotes and escapes in JSON texts

A scan which only tells string literals from the rest. It ends outside of
string literals on every JSON text, and on the way meets no slash outside of
one and no control character inside of one. A text which the scan refuses, or
leaves inside a literal, is therefore no JSON text.
-/

namespace Foxhttp.Library.Json

open Foxhttp.Library

/-- Where the scan is. -/
inductive Mode where
  | outside
  | inside
  | escaped
deriving DecidableEq, Repr

namespace Mode

/-- Scan one more character. -/
def step : Mode → Char → Option Mode
  | outside, c => if c = '"' then some inside else if c = '/' then none else some outside
  | inside, c =>
      if c = '"' then some outside
      else if c = '\\' then some escaped
      else if c.toNat < 0x20 then none
      else some inside
  | escaped, c => if c.toNat < 0x20 then none else some inside

/-- Scan a text. -/
def scan : Mode → Text → Option Mode
  | mode, [] => some mode
  | mode, c :: rest => (mode.step c).bind fun next => next.scan rest

theorem scan_append (mode : Mode) (front back : Text) :
    mode.scan (front ++ back) = (mode.scan front).bind fun next => next.scan back := by
  induction front generalizing mode with
  | nil => rfl
  | cons c front inductionHypothesis =>
      rw [List.cons_append, scan, scan]
      cases mode.step c with
      | none => rfl
      | some next => exact inductionHypothesis next

theorem scan_append_of_eq {mode next : Mode} {front : Text} (scanned : mode.scan front = some next)
    (back : Text) : mode.scan (front ++ back) = next.scan back := by
  rw [scan_append, scanned, Option.bind_some]

/-- A run of characters which keep the mode. -/
theorem scan_run {mode : Mode} {run : Text} (keeps : ∀ c ∈ run, mode.step c = some mode) :
    mode.scan run = some mode := by
  induction run with
  | nil => rfl
  | cons c run inductionHypothesis =>
      obtain ⟨here, later⟩ := List.forall_mem_cons.mp keeps
      rw [scan, here, Option.bind_some, inductionHypothesis later]

end Mode

/-! ## JSON texts end outside of string literals -/

theorem scan_blank (blank : Blank) : Mode.outside.scan blank.1 = some .outside := by
  refine Mode.scan_run fun c member => ?_
  have isBlank := blank.2 c member
  simp only [Json.isBlank, Bool.or_eq_true, beq_iff_eq] at isBlank
  rcases isBlank with ((rfl | rfl) | rfl) | rfl <;> rfl

theorem scan_number (literal : Number) : Mode.outside.scan literal.1 = some .outside := by
  refine Mode.scan_run fun c member => ?_
  have isNumber := NumberState.read_isNumberChar literal.2 c member
  have other : ∀ d, isNumberChar d = false → c ≠ d := by
    rintro d notNumber rfl
    rw [isNumber] at notNumber
    cases notNumber
  rw [Mode.step, if_neg (other _ rfl), if_neg (other _ rfl)]

theorem scan_item (item : Item) : Mode.inside.scan item.render = some .inside := by
  have keeps : ∀ c, 0x20 ≤ c.toNat → c ≠ '"' → c ≠ '\\' → Mode.inside.step c = some .inside := by
    intro c printable notQuote notBackslash
    rw [Mode.step, if_neg notQuote, if_neg notBackslash, if_neg (Nat.not_lt.mpr printable)]
  cases item with
  | plain bytes valid =>
      refine Mode.scan_run fun c member => ?_
      rcases isPlain_bytes valid with ⟨single, rfl, printable, notQuote, notBackslash⟩ | ⟨-, high⟩
      · obtain rfl := List.mem_singleton.mp member
        exact keeps c printable notQuote notBackslash
      · have isHigh := high c member
        refine keeps c (by omega) ?_ ?_
        · rintro rfl
          exact absurd isHigh (by decide)
        · rintro rfl
          exact absurd isHigh (by decide)
  | escape c valid =>
      simp only [escapes, List.mem_cons, List.not_mem_nil, or_false] at valid
      rcases valid with rfl | rfl | rfl | rfl | rfl | rfl | rfl | rfl <;> rfl
  | unicode digits valid =>
      have scanned : Mode.inside.scan digits = some .inside := by
        refine Mode.scan_run fun c member => ?_
        have isHex := valid.2 c member
        have other : ∀ d, Json.isHex d = false → c ≠ d := by
          rintro d notHex rfl
          rw [isHex] at notHex
          cases notHex
        refine keeps c ?_ (other _ rfl) (other _ rfl)
        simp only [Json.isHex, Char.isDigit, Bool.or_eq_true, Bool.and_eq_true,
          decide_eq_true_eq] at isHex
        have code : ∀ low : Char, 0x20 ≤ low.toNat → low.val ≤ c.val → 0x20 ≤ c.toNat :=
          fun low printable least => Nat.le_trans printable least
        rcases isHex with (⟨least, -⟩ | ⟨least, -⟩) | ⟨least, -⟩
        · exact code '0' (by decide) least
        · exact code 'a' (by decide) least
        · exact code 'A' (by decide) least
      exact scanned

theorem scan_string (items : List Item) :
    Mode.outside.scan (renderString items) = some .outside := by
  have inside : Mode.inside.scan (items.flatMap Item.render) = some .inside := by
    induction items with
    | nil => rfl
    | cons item items inductionHypothesis =>
        rw [List.flatMap_cons, Mode.scan_append_of_eq (scan_item item), inductionHypothesis]
  show Mode.inside.scan (items.flatMap Item.render ++ ['"']) = _
  rw [Mode.scan_append_of_eq inside]
  rfl

mutual

theorem Doc.scan_render : ∀ doc : Doc, Mode.outside.scan doc.render = some .outside
  | .null => rfl
  | .boolean true => rfl
  | .boolean false => rfl
  | .number literal => scan_number literal
  | .string items => scan_string items
  | .emptyArray blank => by
      show Mode.outside.scan (blank.1 ++ [']']) = _
      rw [Mode.scan_append_of_eq (scan_blank blank)]
      rfl
  | .array elements => by
      show Mode.outside.scan (elements.render ++ [']']) = _
      rw [Mode.scan_append_of_eq elements.scan_render]
      rfl
  | .emptyObject blank => by
      show Mode.outside.scan (blank.1 ++ ['}']) = _
      rw [Mode.scan_append_of_eq (scan_blank blank)]
      rfl
  | .object members => by
      show Mode.outside.scan (members.render ++ ['}']) = _
      rw [Mode.scan_append_of_eq members.scan_render]
      rfl

theorem Elements.scan_render : ∀ elements : Elements,
    Mode.outside.scan elements.render = some .outside
  | .last before doc after => by
      rw [Elements.render, Mode.scan_append_of_eq (scan_blank before),
        Mode.scan_append_of_eq doc.scan_render, scan_blank]
  | .more before doc after rest => by
      rw [Elements.render, Mode.scan_append_of_eq (scan_blank before),
        Mode.scan_append_of_eq doc.scan_render, Mode.scan_append_of_eq (scan_blank after)]
      exact rest.scan_render

theorem Members.scan_render : ∀ members : Members,
    Mode.outside.scan members.render = some .outside
  | .last start name stop before doc after => by
      rw [Members.render, Mode.scan_append_of_eq (scan_blank start),
        Mode.scan_append_of_eq (scan_string name), Mode.scan_append_of_eq (scan_blank stop)]
      show Mode.outside.scan (before.1 ++ (doc.render ++ after.1)) = _
      rw [Mode.scan_append_of_eq (scan_blank before), Mode.scan_append_of_eq doc.scan_render,
        scan_blank]
  | .more start name stop before doc after rest => by
      rw [Members.render, Mode.scan_append_of_eq (scan_blank start),
        Mode.scan_append_of_eq (scan_string name), Mode.scan_append_of_eq (scan_blank stop)]
      show Mode.outside.scan (before.1 ++ (doc.render ++ (after.1 ++ ',' :: rest.render))) = _
      rw [Mode.scan_append_of_eq (scan_blank before), Mode.scan_append_of_eq doc.scan_render,
        Mode.scan_append_of_eq (scan_blank after)]
      exact rest.scan_render

end

/-- The scan ends outside of string literals on every JSON text. -/
theorem Document.scan_render (text : Document) :
    Mode.outside.scan text.render = some .outside := by
  rw [Document.render, Mode.scan_append_of_eq (scan_blank text.before),
    Mode.scan_append_of_eq text.doc.scan_render, scan_blank]

end Foxhttp.Library.Json
