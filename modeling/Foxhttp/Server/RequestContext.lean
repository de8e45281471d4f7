import Mathlib.Data.List.DropRight
import Foxhttp.Library.Fields
import Foxhttp.Server.QueryParameters

/-!
# The context of a request

The constructor of `RequestContext` reads the query parameters of the target and
the cookies of the first `Cookie` field. Middlewares read these and the header,
and leave values of their own under names.
-/

namespace Foxhttp.Server

open Foxhttp.Library

/-- `http::request<http::string_body>`, as far as the context reads it. -/
structure Request where
  methodString : Text
  target : Text
  fields : Fields

/-- The type of `cookies_`. -/
abbrev Cookies := AList fun _ : Text => Text

/-- A character of `" \t"`. -/
def isBlank (c : Char) : Bool :=
  c == ' ' || c == '\t'

/-- `text.erase(0, text.find_first_not_of(" \t"))`, and the same at the end. -/
def eraseBlanks (text : Text) : Text :=
  (text.dropWhile isBlank).rdropWhile isBlank

/-- A turn of the loop of `RequestContext::parse_cookies`. -/
def parseCookie (cookies : Cookies) (pair : Text) : Cookies :=
  match Text.find pair '=' 0 with
  | some pos =>
      cookies.insert (eraseBlanks (Text.substr pair 0 pos)) (eraseBlanks (pair.drop (pos + 1)))
  | none => cookies

/-- `RequestContext::parse_cookies`. -/
def parseCookies (fields : Fields) : Cookies :=
  match fields.find "Cookie".toList with
  | some value => (Text.getLines ';' value).foldl parseCookie ∅
  | none => ∅

/-- `RequestContext`, with items of the type `α`. -/
structure RequestContext (α : Type) where
  req : Request
  queryParams : QueryParams
  cookies : Cookies
  items : AList fun _ : Text => α

namespace RequestContext

variable {α : Type}

/-- The constructor. -/
def new (req : Request) : RequestContext α where
  req := req
  queryParams := queryParameters req.target
  cookies := parseCookies req.fields
  items := ∅

/-- `header`, empty without the field. -/
def header (ctx : RequestContext α) (key : Text) : Text :=
  (ctx.req.fields.find key).getD []

/-- `cookie`, empty without the cookie. -/
def cookie (ctx : RequestContext α) (key : Text) : Text :=
  (ctx.cookies.lookup key).getD []

/-- `set`. -/
def set (ctx : RequestContext α) (key : Text) (value : α) : RequestContext α :=
  { ctx with items := ctx.items.insert key value }

@[simp] theorem lookup_set (ctx : RequestContext α) (key : Text) (value : α) :
    (ctx.set key value).items.lookup key = some value :=
  AList.lookup_insert ctx.items

end RequestContext

end Foxhttp.Server
