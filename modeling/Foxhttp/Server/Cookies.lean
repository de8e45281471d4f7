import Foxhttp.Library.Entries
import Foxhttp.Library.Trimming
import Foxhttp.Server.RequestContext

/-!
# Cookies of a header

A `Cookie` field lists names and values, with blanks wherever its writer put
them. The context of the request has the names of the field, each with the
value which came last.
-/

namespace Foxhttp.Server

open Foxhttp.Library Foxhttp.Library.Trimming

/-- A name and a value which a field can carry. -/
structure Cookie where
  name : Text
  value : Text
  named : name ≠ []
  nameMarks : ';' ∉ name ∧ '=' ∉ name
  nameTrimmed : Trimmed isBlank name
  valueMark : ';' ∉ value
  valueTrimmed : Trimmed isBlank value

/-- Blanks, as many as there are. -/
abbrev BlankRun := {run : Text // ∀ c ∈ run, isBlank c = true}

/-- A cookie with the blanks around its name and its value. -/
structure SpacedCookie where
  cookie : Cookie
  beforeName : BlankRun
  afterName : BlankRun
  beforeValue : BlankRun
  afterValue : BlankRun

theorem BlankRun.not_mem (run : BlankRun) {c : Char} (other : isBlank c = false) : c ∉ run.1 := by
  intro member
  rw [run.2 c member] at other
  cases other

/-- Blanks around a text add no other character. -/
theorem BlankRun.not_mem_around (before after : BlankRun) {text : Text} {c : Char}
    (other : isBlank c = false) (absent : c ∉ text) : c ∉ before.1 ++ (text ++ after.1) := by
  rw [List.mem_append, List.mem_append]
  rintro (inBefore | inText | inAfter)
  · exact before.not_mem other inBefore
  · exact absent inText
  · exact after.not_mem other inAfter

namespace SpacedCookie

/-- What stands before the `=`. -/
def nameText (spaced : SpacedCookie) : Text :=
  spaced.beforeName.1 ++ (spaced.cookie.name ++ spaced.afterName.1)

/-- What stands behind the `=`. -/
def valueText (spaced : SpacedCookie) : Text :=
  spaced.beforeValue.1 ++ (spaced.cookie.value ++ spaced.afterValue.1)

/-- The cookie as it stands in the field. -/
def text (spaced : SpacedCookie) : Text :=
  spaced.nameText ++ '=' :: spaced.valueText

/-- The name and the value. -/
def entry (spaced : SpacedCookie) : Text × Text :=
  (spaced.cookie.name, spaced.cookie.value)

theorem eraseBlanks_nameText (spaced : SpacedCookie) :
    eraseBlanks spaced.nameText = spaced.cookie.name :=
  Encloses.trim_eq ⟨rfl, spaced.beforeName.2, spaced.afterName.2, spaced.cookie.nameTrimmed⟩

theorem eraseBlanks_valueText (spaced : SpacedCookie) :
    eraseBlanks spaced.valueText = spaced.cookie.value :=
  Encloses.trim_eq ⟨rfl, spaced.beforeValue.2, spaced.afterValue.2, spaced.cookie.valueTrimmed⟩

theorem text_ne_nil (spaced : SpacedCookie) : spaced.text ≠ [] :=
  List.append_ne_nil_of_right_ne_nil _ (List.cons_ne_nil _ _)

theorem semicolon_not_mem_text (spaced : SpacedCookie) : ';' ∉ spaced.text := by
  rw [text, List.mem_append, List.mem_cons]
  rintro (inName | isEquals | inValue)
  · exact spaced.beforeName.not_mem_around spaced.afterName rfl spaced.cookie.nameMarks.1 inName
  · cases isEquals
  · exact spaced.beforeValue.not_mem_around spaced.afterValue rfl spaced.cookie.valueMark inValue

/-- The loop of `parse_cookies` reads a cookie at the first `=`. -/
theorem parseCookie_text (spaced : SpacedCookie) (cookies : Cookies) :
    parseCookie cookies spaced.text = cookies.insert spaced.cookie.name spaced.cookie.value := by
  have unmarked : '=' ∉ spaced.nameText :=
    spaced.beforeName.not_mem_around spaced.afterName rfl spaced.cookie.nameMarks.2
  have found : Text.find spaced.text '=' 0 = some spaced.nameText.length :=
    Text.find_self unmarked spaced.valueText
  have front : Text.substr spaced.text 0 spaced.nameText.length = spaced.nameText :=
    List.take_left
  have back : spaced.text.drop (spaced.nameText.length + 1) = spaced.valueText := by
    rw [text, List.drop_length_add_append, List.drop_succ_cons, List.drop_zero]
  rw [parseCookie, found]
  simp only [front, back, eraseBlanks_nameText, eraseBlanks_valueText]

end SpacedCookie

/-- The field of a list of cookies. -/
def cookieHeader (written : List SpacedCookie) : Text :=
  [';'].intercalate (written.map SpacedCookie.text)

theorem getLines_cookieHeader (written : List SpacedCookie) :
    Text.getLines ';' (cookieHeader written) = written.map SpacedCookie.text := by
  refine Text.getLines_intercalate fun line isLine => ?_
  obtain ⟨spaced, -, rfl⟩ := List.mem_map.mp isLine
  exact ⟨spaced.text_ne_nil, spaced.semicolon_not_mem_text⟩

/-- The cookies of a field are inserted one after the other. -/
theorem lookup_parseCookies {fields : Fields} {written : List SpacedCookie}
    (isHeader : fields.find "Cookie".toList = some (cookieHeader written)) (name : Text) :
    (parseCookies fields).lookup name =
      (written.map SpacedCookie.entry).reverse.lookup name := by
  have inserts : (Text.getLines ';' (cookieHeader written)).foldl parseCookie ∅ =
      (written.map SpacedCookie.entry).foldl
        (fun cookies entry => cookies.insert entry.1 entry.2) ∅ := by
    rw [getLines_cookieHeader, List.foldl_map, List.foldl_map]
    congr 1
    funext cookies spaced
    exact spaced.parseCookie_text cookies
  rw [parseCookies, isHeader]
  show ((Text.getLines ';' (cookieHeader written)).foldl parseCookie ∅).lookup name = _
  rw [inserts, lookup_foldl_insert, AList.lookup_empty, Option.or_none]

namespace RequestContext

/-- The context has exactly the names of the field, each with the value which
came last. -/
theorem cookies_of_cookieHeader {α : Type} (req : Request) (written : List SpacedCookie)
    (isHeader : req.fields.find "Cookie".toList = some (cookieHeader written)) :
    let ctx : RequestContext α := .new req
    (∀ name, name ∈ ctx.cookies ↔ ∃ spaced ∈ written, spaced.cookie.name = name) ∧
      ∀ front spaced back, written = front ++ spaced :: back →
        (∀ later ∈ back, later.cookie.name ≠ spaced.cookie.name) →
        ctx.cookies.lookup spaced.cookie.name = some spaced.cookie.value ∧
          ctx.cookie spaced.cookie.name = spaced.cookie.value := by
  intro ctx
  have names : (written.map SpacedCookie.entry).map Prod.fst =
      written.map (·.cookie.name) := List.map_map
  have found (name : Text) : ctx.cookies.lookup name =
      (written.map SpacedCookie.entry).reverse.lookup name := lookup_parseCookies isHeader name
  constructor
  · intro name
    rw [← AList.lookup_isSome, found, lookup_reverse_isSome_iff, names, List.mem_map]
  · rintro front spaced back rfl last
    have fresh : spaced.entry.1 ∉ (back.map SpacedCookie.entry).map Prod.fst := by
      rw [List.map_map, List.mem_map]
      rintro ⟨later, isLater, same⟩
      exact last later isLater same
    have isLast : ctx.cookies.lookup spaced.cookie.name = some spaced.cookie.value := by
      rw [found, List.map_append, List.map_cons]
      exact lookup_reverse_last _ fresh
    refine ⟨isLast, ?_⟩
    rw [cookie, isLast, Option.getD_some]

/-- A cookie of the name `id` between blanks. -/
def spacedId (value : Text) (valueMark : ';' ∉ value) (valueTrimmed : Trimmed isBlank value) :
    SpacedCookie where
  cookie := {
    name := ['i', 'd']
    value := value
    named := by simp
    nameMarks := by simp
    nameTrimmed := ⟨by simp [isBlank], by simp [isBlank]⟩
    valueMark := valueMark
    valueTrimmed := valueTrimmed }
  beforeName := ⟨[' '], by simp [isBlank]⟩
  afterName := ⟨[], by simp⟩
  beforeValue := ⟨[], by simp⟩
  afterValue := ⟨['\t', ' '], by simp [isBlank]⟩

/-- The name comes twice, the second time with a `=` in its value. -/
theorem cookies_of_repeated :
    let ctx : RequestContext Unit := .new
      ⟨"GET".toList, "/".toList, [("cookie".toList, " id=1\t ; id=a=b\t ".toList)]⟩
    ctx.cookies.lookup ['i', 'd'] = some ['a', '=', 'b'] := by
  have trimmedOne : Trimmed isBlank ['1'] := ⟨by simp [isBlank], by simp [isBlank]⟩
  have trimmedPair : Trimmed isBlank ['a', '=', 'b'] := ⟨by simp [isBlank], by simp [isBlank]⟩
  have read := cookies_of_cookieHeader (α := Unit)
    ⟨"GET".toList, "/".toList, [("cookie".toList, " id=1\t ; id=a=b\t ".toList)]⟩
    [spacedId ['1'] (by simp) trimmedOne, spacedId ['a', '=', 'b'] (by simp) trimmedPair]
    rfl
  exact (read.2 [_] _ [] rfl (by simp)).1

end RequestContext

end Foxhttp.Server
