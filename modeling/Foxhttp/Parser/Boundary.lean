import Foxhttp.Parser.MultipartRoundTrip

/-!
# The boundary of a multipart request

`extract_boundary` takes what is behind the first `boundary=` up to a blank or a
semicolon, and only then takes quotes off. So a boundary which needs its quotes, because
it has a blank in it, is cut short; every other one is found, and the parts behind it.
-/

namespace Foxhttp.Parser

open Foxhttp.Library

/-- A character of `"; \t\r\n"`. -/
def endsBoundary (c : Char) : Bool :=
  c == ';' || c == ' ' || c == '\t' || c == '\r' || c == '\n'

/-- The test for quotes around a text. -/
def isQuoted (text : Text) : Bool :=
  decide (2 ≤ text.length) && text.head? == some '"' && text.getLast? == some '"'

/-- `MultipartParserImpl::extract_boundary`. -/
def extractBoundary (contentType : Text) : Text :=
  match Text.findText contentType "boundary=".toList 0 with
  | none => []
  | some boundaryPos =>
      let boundary := (contentType.drop (boundaryPos + 9)).takeWhile fun c => !endsBoundary c
      if isQuoted boundary then Text.substr boundary 1 (boundary.length - 2) else boundary

/-- A boundary as a content type declares it, in quotes or not. -/
def declared (quoted : Bool) (boundary : Text) : Text :=
  if quoted then '"' :: (boundary ++ ['"']) else boundary

/-- A content type with what is in front of the boundary and behind it. -/
def declaring (front : Text) (quoted : Bool) (boundary back : Text) : Text :=
  front ++ ("boundary=".toList ++ (declared quoted boundary ++ back))

theorem isQuoted_quotes (text : Text) : isQuoted ('"' :: (text ++ ['"'])) = true := by
  have last : ('"' :: (text ++ ['"'])).getLast? = some '"' := by
    rw [← List.cons_append, List.getLast?_concat]
  simp [isQuoted, last]

theorem substr_quotes (text : Text) :
    Text.substr ('"' :: (text ++ ['"'])) 1 (('"' :: (text ++ ['"'])).length - 2) = text := by
  simp [Text.substr]

theorem mem_substr {text : Text} {start count : Nat} {c : Char}
    (member : c ∈ Text.substr text start count) : c ∈ text :=
  List.mem_of_mem_drop (List.mem_of_mem_take member)

/-- What is extracted from a content type. -/
theorem extractBoundary_declaring {front : Text}
    (first : Text.findText (front ++ "boundary=".toList) "boundary=".toList 0 = some front.length)
    (quoted : Bool) (boundary back : Text) :
    let taken := (declared quoted boundary ++ back).takeWhile fun c => !endsBoundary c
    extractBoundary (declaring front quoted boundary back) =
      if isQuoted taken then Text.substr taken 1 (taken.length - 2) else taken := by
  have found : Text.findText (declaring front quoted boundary back) "boundary=".toList 0 =
      some front.length := by
    rw [declaring, ← List.append_assoc]
    exact Text.findText_append (by decide) first _
  have behind : (declaring front quoted boundary back).drop (front.length + 9) =
      declared quoted boundary ++ back := by
    rw [declaring, ← List.drop_drop, List.drop_left]
    rfl
  rw [extractBoundary, found]
  dsimp only
  rw [behind]

/-- A boundary without blanks and semicolons is taken as it is declared. -/
theorem taken_of_whole {boundary back : Text}
    (ends : ∀ c ∈ back.head?, endsBoundary c = true) (quoted : Bool)
    (whole : ∀ c ∈ boundary, endsBoundary c = false) :
    ((declared quoted boundary ++ back).takeWhile fun c => !endsBoundary c) =
      declared quoted boundary := by
  have stops : back.takeWhile (fun c => !endsBoundary c) = [] := by
    cases back with
    | nil => rfl
    | cons c back => rw [List.takeWhile_cons_of_neg (by simp [ends c rfl])]
  have goesOn : ∀ c ∈ declared quoted boundary, (!endsBoundary c) = true := by
    intro c member
    cases quoted with
    | true =>
        rcases List.mem_cons.mp member with rfl | later
        · rfl
        · rcases List.mem_append.mp later with inside | isLast
          · simp [whole c inside]
          · cases List.mem_singleton.mp isLast
            rfl
    | false => simp [whole c member]
  rw [List.takeWhile_append_of_pos goesOn, stops, List.append_nil]

/-- A boundary which can be declared so is extracted. -/
theorem extractBoundary_of_whole {front back : Text}
    (first : Text.findText (front ++ "boundary=".toList) "boundary=".toList 0 = some front.length)
    (ends : ∀ c ∈ back.head?, endsBoundary c = true) {quoted : Bool} {boundary : Text}
    (whole : ∀ c ∈ boundary, endsBoundary c = false)
    (unquoted : quoted = false → isQuoted boundary = false) :
    extractBoundary (declaring front quoted boundary back) = boundary := by
  have extracted := extractBoundary_declaring first quoted boundary back
  dsimp only at extracted
  rw [taken_of_whole ends quoted whole] at extracted
  rw [extracted]
  cases quoted with
  | true => rw [declared, if_pos rfl, isQuoted_quotes, if_pos rfl, substr_quotes]
  | false => rw [declared, if_neg Bool.false_ne_true, unquoted rfl, if_neg Bool.false_ne_true]

/-- **A declared boundary is extracted** exactly when no blank or semicolon is in it and,
where it is not in quotes, it does not have quotes of its own around it. -/
theorem declared_boundary_is_extracted_iff {front back : Text}
    (first : Text.findText (front ++ "boundary=".toList) "boundary=".toList 0 = some front.length)
    (ends : ∀ c ∈ back.head?, endsBoundary c = true) (quoted : Bool) (boundary : Text) :
    extractBoundary (declaring front quoted boundary back) = boundary ↔
      (∀ c ∈ boundary, endsBoundary c = false) ∧ (quoted = false → isQuoted boundary = false) := by
  have extracted := extractBoundary_declaring first quoted boundary back
  dsimp only at extracted
  constructor
  · intro same
    have whole : ∀ c ∈ boundary, endsBoundary c = false := by
      intro c member
      rw [← same, extracted] at member
      have taken : c ∈ (declared quoted boundary ++ back).takeWhile fun c => !endsBoundary c := by
        split at member
        · exact mem_substr member
        · exact member
      simpa using List.all_eq_true.mp List.all_takeWhile c taken
    refine ⟨whole, fun unquoted => ?_⟩
    rw [taken_of_whole ends quoted whole, unquoted, declared, if_neg Bool.false_ne_true]
      at extracted
    cases quotes : isQuoted boundary with
    | false => rfl
    | true =>
        rw [unquoted] at same
        rw [quotes, if_pos rfl, same] at extracted
        have length := congrArg List.length extracted
        simp only [isQuoted, Bool.and_eq_true, decide_eq_true_eq] at quotes
        rw [Text.substr, List.length_take, List.length_drop] at length
        omega
  · rintro ⟨whole, unquoted⟩
    exact extractBoundary_of_whole first ends whole unquoted

/-- A boundary with dashes, in quotes. -/
theorem declared_boundary_is_extracted_iff_dashes :
    extractBoundary (declaring "multipart/form-data; ".toList true "--x".toList ";".toList) =
        "--x".toList ↔
      (∀ c ∈ "--x".toList, endsBoundary c = false) ∧
        (true = false → isQuoted "--x".toList = false) :=
  declared_boundary_is_extracted_iff (by decide) (by simp [endsBoundary]) true "--x".toList

end Foxhttp.Parser
