import Foxhttp.Library.Text

/-!
# Header fields

The fields of an HTTP message in order, with names compared without case. A
message is framed by its `Content-Length`, or by a `Transfer-Encoding` which
ends in `chunked`.
-/

namespace Foxhttp.Library

/-- The fields of a message. -/
abbrev Fields := List (Text × Text)

namespace Fields

/-- Names are compared without case. -/
def sameName (first second : Text) : Bool :=
  first.map Char.toLower == second.map Char.toLower

/-- `find(name)`. -/
def find (fields : Fields) (name : Text) : Option Text :=
  (List.find? (fun field => sameName name field.1) fields).map Prod.snd

/-- The fields of other names. -/
def without (fields : Fields) (name : Text) : Fields :=
  fields.filter fun field => !sameName name field.1

/-- `set(name, value)`: the field replaces those of its name. -/
def set (fields : Fields) (name value : Text) : Fields :=
  without fields name ++ [(name, value)]

theorem sameName_self (name : Text) : sameName name name = true :=
  beq_self_eq_true _

theorem without_idem (fields : Fields) (name : Text) :
    without (without fields name) name = without fields name := by
  rw [without, without, List.filter_filter]
  simp only [Bool.and_self]

theorem without_comm (fields : Fields) (first second : Text) :
    without (without fields first) second = without (without fields second) first := by
  simp only [without, List.filter_filter, Bool.and_comm]

@[simp] theorem without_set (fields : Fields) (name value : Text) :
    without (set fields name value) name = without fields name := by
  rw [set]
  simp only [without, List.filter_append, List.filter_filter, Bool.and_self]
  simp [sameName_self]

/-- The field set is found. -/
theorem find_set (fields : Fields) (name value : Text) :
    find (set fields name value) name = some value := by
  have absent : List.find? (fun field => sameName name field.1) (without fields name) = none :=
    List.find?_eq_none.mpr fun field member => by
      have other := (List.mem_filter.mp member).2
      simpa using other
  rw [find, set, List.find?_append, absent, Option.none_or, List.find?_singleton]
  simp [sameName_self]

/-- A field of another name is found as before. -/
theorem find_set_other (fields : Fields) {name other : Text} (value : Text)
    (different : sameName name other = false) :
    find (set fields other value) name = find fields name := by
  have kept : (fun field : Text × Text =>
      decide ((!sameName other field.1) = true ∧ sameName name field.1 = true)) =
      fun field => sameName name field.1 := by
    funext field
    cases isName : sameName name field.1 with
    | false => simp
    | true =>
        have apart : sameName other field.1 = false := by
          rw [sameName, beq_iff_eq] at isName
          rw [sameName, beq_eq_false_iff_ne] at different ⊢
          exact fun same => different (isName.trans same.symm)
        simp [apart]
  rw [find, set, without, List.find?_append, List.find?_filter, kept, List.find?_singleton,
    different, if_neg Bool.false_ne_true, Option.or_none, find]

end Fields

/-- `http::response<http::string_body>`. -/
structure HttpResponse where
  status : Nat
  fields : Fields
  body : Text
  deriving DecidableEq, Repr

namespace HttpResponse

/-- `set(name, value)`. -/
def set (res : HttpResponse) (name value : Text) : HttpResponse :=
  { res with fields := res.fields.set name value }

/-- `prepare_payload()`, where the status allows a body. `unchunked` is what a
`Transfer-Encoding` says without a final `chunked`. -/
def preparePayload (unchunked : Text → Text) (res : HttpResponse) : HttpResponse :=
  let res := res.set "Content-Length".toList (Nat.toDigits 10 res.body.length)
  match res.fields.find "Transfer-Encoding".toList with
  | none => res
  | some encoding =>
      if unchunked encoding = [] then
        { res with fields := res.fields.without "Transfer-Encoding".toList }
      else res.set "Transfer-Encoding".toList (unchunked encoding)

/-- The fields which do not frame the body. -/
def unframed (res : HttpResponse) : Fields :=
  (res.fields.without "Content-Length".toList).without "Transfer-Encoding".toList

/-- `prepare_payload()` writes the framing alone. -/
theorem unframed_preparePayload (unchunked : Text → Text) (res : HttpResponse) :
    (res.preparePayload unchunked).unframed = res.unframed := by
  have encoded : (res.set "Content-Length".toList (Nat.toDigits 10 res.body.length)).unframed =
      res.unframed := by
    rw [unframed, set, Fields.without_set, unframed]
  rw [preparePayload]
  split
  · exact encoded
  · split
    · rw [unframed, Fields.without_comm, Fields.without_idem, Fields.without_comm]
      exact encoded
    · rw [unframed, set, Fields.without_comm, Fields.without_set, Fields.without_comm]
      exact encoded

@[simp] theorem preparePayload_status (unchunked : Text → Text) (res : HttpResponse) :
    (res.preparePayload unchunked).status = res.status := by
  rw [preparePayload]
  split
  · rfl
  · split <;> rfl

@[simp] theorem preparePayload_body (unchunked : Text → Text) (res : HttpResponse) :
    (res.preparePayload unchunked).body = res.body := by
  rw [preparePayload]
  split
  · rfl
  · split <;> rfl

end HttpResponse

end Foxhttp.Library
