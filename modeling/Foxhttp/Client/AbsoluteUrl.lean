import Foxhttp.Client.RequestBuilder

/-!
# Are absolute URLs split where they should be?

`parse_absolute_url` ends the authority at the first slash and splits it at its
last colon. A query without a path has no slash in front of it, and an address
in brackets has colons of its own. The `Host` field leaves the port out where it
is the default of HTTP, not where it is that of HTTPS.
-/

namespace Foxhttp.Client

open Foxhttp.Library

/-! ## URLs -/

/-- The host of a URL: a registered name or an IPv4 address, or an IPv6 address,
which stands in brackets. -/
inductive UrlHost where
  | name (text : Text) (filled : text ≠ []) (plain : ∀ c ∈ text, c ∉ ":/?#[]@".toList)
  | literal (address : Text) (digits : ∀ c ∈ address, c ∈ "0123456789abcdefABCDEF:.".toList)
      (colon : ':' ∈ address)

def UrlHost.render : UrlHost → Text
  | .name text _ _ => text
  | .literal address _ _ => '[' :: address ++ [']']

/-- An absolute URL of HTTP or HTTPS. -/
structure AbsoluteUrl where
  https : Bool
  scheme : Text
  isScheme : scheme.map Char.toLower = if https then "https".toList else "http".toList
  host : UrlHost
  port : Option Text
  isPort : ∀ digits ∈ port, ∀ c ∈ digits, c.isDigit = true
  path : Text
  isPath : path = [] ∨ path.head? = some '/'
  noQuery : '?' ∉ path
  query : Option Text

namespace AbsoluteUrl

variable (url : AbsoluteUrl)

/-- The default port of the scheme. -/
def defaultPort : Text :=
  if url.https then "443".toList else "80".toList

/-- The host, with the port where the URL has one. -/
def authority : Text :=
  url.host.render ++ url.port.elim [] (':' :: ·)

/-- What follows the authority. -/
def rest : Text :=
  url.path ++ url.query.elim [] ('?' :: ·)

def render : Text :=
  url.scheme ++ "://".toList ++ (url.authority ++ url.rest)

/-- The base a URL stands for. The `Host` field has the port where it is not the
default. -/
def base : ClientBaseConfig where
  https := url.https
  host := url.host.render
  port := url.port.getD url.defaultPort
  hostField :=
    if url.port.getD url.defaultPort = url.defaultPort then url.host.render
    else url.host.render ++ ':' :: url.port.getD url.defaultPort

/-- The path and the query, from a slash on. -/
def target : Text :=
  (if url.path = [] then "/".toList else url.path) ++ url.query.elim [] ('?' :: ·)

/-- A query has a path in front of it, an address in brackets a port behind it,
and that of HTTPS is not written out. -/
structure Plain : Prop where
  path : url.query ≠ none → url.path ≠ []
  port : ∀ address digits colon, url.host = .literal address digits colon → url.port ≠ none
  https : url.https = true → url.port ≠ some "443".toList

end AbsoluteUrl

/-! ## The scheme -/

/-- What `parse_absolute_url` does behind the scheme. -/
def splitUrl (https : Bool) (url : Text) : Option (ClientBaseConfig × Text) :=
  let pathPos := Text.find url '/' 0
  let authority := pathPos.elim url (Text.substr url 0)
  let target := pathPos.elim "/".toList url.drop
  let (host, port) :=
    match Text.rfind authority ':' with
    | some colon => (Text.substr authority 0 colon, authority.drop (colon + 1))
    | none => (authority, if https then "443".toList else "80".toList)
  if host = [] then none
  else
    let hostField := if https then authority else if port = "80".toList then host else authority
    some ({ https, host, port, hostField }, target)

theorem startsWithCi_iff {s p : Text} :
    startsWithCi s p = true ↔ p.map Char.toLower <+: s.map Char.toLower := by
  induction p generalizing s with
  | nil => simp [startsWithCi]
  | cons b p inductionHypothesis =>
      cases s with
      | nil => simp [startsWithCi]
      | cons a s =>
          rw [List.map_cons, List.map_cons, List.cons_prefix_cons, ← inductionHypothesis]
          simp only [startsWithCi, ciEq, List.length_cons, Nat.add_le_add_iff_right,
            List.zip_cons_cons, List.all_cons, Bool.and_eq_true, beq_iff_eq, decide_eq_true_eq]
          grind

/-- The scheme is read in any case. -/
theorem parse_scheme (usingTls https : Bool) {scheme : Text}
    (isScheme : scheme.map Char.toLower = if https then "https".toList else "http".toList)
    (rest : Text) :
    parseAbsoluteUrl usingTls (scheme ++ "://".toList ++ rest) =
      if https = true ∧ usingTls = false then none else splitUrl https rest := by
  have lower (first : Text) : startsWithCi (scheme ++ "://".toList ++ rest) first = true ↔
      first.map Char.toLower <+: scheme.map Char.toLower ++ "://".toList ++
        rest.map Char.toLower := by
    rw [startsWithCi_iff, List.map_append, List.map_append]
    rfl
  have length := congrArg List.length isScheme
  rw [List.length_map] at length
  cases https with
  | true =>
      rw [if_pos rfl] at isScheme length
      have secure : startsWithCi (scheme ++ "://".toList ++ rest) "https://".toList = true := by
        rw [lower, isScheme]
        exact List.prefix_append _ _
      have behind : Text.erase (scheme ++ "://".toList ++ rest) 0 8 = rest :=
        List.drop_left' (by rw [List.length_append, length]; rfl)
      rw [parseAbsoluteUrl, secure, behind]
      cases usingTls <;> rfl
  | false =>
      rw [if_neg Bool.false_ne_true] at isScheme length
      have notSecure : startsWithCi (scheme ++ "://".toList ++ rest) "https://".toList = false := by
        rw [← Bool.not_eq_true, lower, isScheme]
        rintro ⟨tail, same⟩
        have fifth : some 's' = some ':' := congrArg (·[4]?) same
        exact absurd fifth (by decide)
      have plain : startsWithCi (scheme ++ "://".toList ++ rest) "http://".toList = true := by
        rw [lower, isScheme]
        exact List.prefix_append _ _
      have behind : Text.erase (scheme ++ "://".toList ++ rest) 0 7 = rest :=
        List.drop_left' (by rw [List.length_append, length]; rfl)
      rw [parseAbsoluteUrl, notSecure, plain, behind]
      rfl

/-! ## The authority -/

namespace AbsoluteUrl

variable {url : AbsoluteUrl}

theorem host_filled (host : UrlHost) : host.render ≠ [] := by
  cases host with
  | name text filled plain => exact filled
  | literal address digits colon => exact List.cons_ne_nil _ _

theorem port_plain {digits : Text} (isPort : url.port = some digits) {c : Char}
    (notDigit : c.isDigit = false) : c ∉ digits := by
  intro member
  have isDigit := url.isPort digits isPort c member
  rw [notDigit] at isDigit
  cases isDigit

/-- No slash stands in the authority. -/
theorem slash_not_mem_authority : '/' ∉ url.authority := by
  have inHost : '/' ∉ url.host.render := by
    cases url.host with
    | name text filled plain => exact fun member => plain '/' member (by decide)
    | literal address digits colon =>
        simp only [UrlHost.render, List.mem_append, List.mem_cons, List.not_mem_nil, or_false]
        rintro ((isOpen | inside) | isClose)
        · cases isOpen
        · exact absurd (digits '/' inside) (by decide)
        · cases isClose
  rw [authority, List.mem_append]
  rintro (inside | inPort)
  · exact inHost inside
  · cases isPort : url.port with
    | none =>
        rw [isPort] at inPort
        cases inPort
    | some digits =>
        rw [isPort] at inPort
        exact port_plain isPort (by decide) ((List.mem_cons.mp inPort).resolve_left (by decide))

/-- How an authority comes apart at its last colon. -/
def splitAuthority (https : Bool) (authority : Text) : Text × Text :=
  match Text.rfind authority ':' with
  | some colon => (Text.substr authority 0 colon, authority.drop (colon + 1))
  | none => (authority, if https then "443".toList else "80".toList)

/-- An authority is split right unless it is an address without a port. -/
theorem splitAuthority_eq_iff :
    splitAuthority url.https url.authority = (url.host.render, url.port.getD url.defaultPort) ↔
      ∀ address digits colon, url.host = .literal address digits colon → url.port ≠ none := by
  rw [splitAuthority, authority]
  cases isPort : url.port with
  | some digits =>
      refine iff_of_true ?_ fun _ _ _ _ => Option.some_ne_none digits
      rw [Option.elim_some, Text.rfind_self (port_plain isPort (by decide))]
      simp [Text.substr]
  | none =>
      rw [Option.elim_none, List.append_nil]
      cases isHost : url.host with
      | name text filled plain =>
          refine iff_of_true ?_ fun _ _ _ absurdity => by cases absurdity
          rw [UrlHost.render, Text.rfind_eq_none fun member => plain ':' member (by decide)]
          rfl
      | literal address digits colon =>
          refine iff_of_false ?_ fun hasPort => hasPort address digits colon rfl rfl
          have member : ':' ∈ (UrlHost.literal address digits colon).render :=
            List.mem_append_left _ (List.mem_cons_of_mem _ colon)
          obtain ⟨pos, found, inside⟩ := Text.rfind_of_mem member
          rw [found]
          intro same
          have lengths := congrArg (List.length ∘ Prod.fst) same
          simp only [Function.comp_apply, Text.substr, List.drop_zero, List.length_take] at lengths
          omega

/-- The `Host` field of an authority. -/
def hostFieldOf (https : Bool) (authority host port : Text) : Text :=
  if https then authority else if port = "80".toList then host else authority

/-- The `Host` field is right unless the default port of HTTPS is written out. -/
theorem hostFieldOf_eq_iff :
    hostFieldOf url.https url.authority url.host.render (url.port.getD url.defaultPort) =
        url.base.hostField ↔
      (url.https = true → url.port ≠ some "443".toList) := by
  by_cases secure : url.https = true
  · simp only [hostFieldOf, base, authority, defaultPort, if_pos secure]
    cases url.port with
    | none => simp
    | some digits =>
        by_cases isDefault : digits = "443".toList
        · simp [isDefault, secure]
        · refine iff_of_true ?_ fun _ same => isDefault (Option.some.inj same)
          rw [Option.elim_some, Option.getD_some, if_neg isDefault]
  · simp only [hostFieldOf, base, authority, defaultPort, if_neg secure]
    cases url.port with
    | none => simp [secure]
    | some digits => simp [secure]

/-- What becomes of an authority, and a target beside it. -/
def combine (https : Bool) (authority target : Text) : Option (ClientBaseConfig × Text) :=
  let (host, port) := splitAuthority https authority
  if host = [] then none
  else some ({ https, host, port, hostField := hostFieldOf https authority host port }, target)

theorem combine_eq_iff {target : Text} :
    combine url.https url.authority target = some (url.base, url.target) ↔
      ((∀ address digits colon, url.host = .literal address digits colon → url.port ≠ none) ∧
        (url.https = true → url.port ≠ some "443".toList)) ∧ target = url.target := by
  rw [← splitAuthority_eq_iff, ← hostFieldOf_eq_iff]
  constructor
  · intro combined
    rw [combine] at combined
    dsimp only at combined
    split at combined
    · cases combined
    · obtain ⟨isBase, isTarget⟩ := Prod.mk.inj (Option.some.inj combined)
      have isHost := congrArg ClientBaseConfig.host isBase
      have isPort := congrArg ClientBaseConfig.port isBase
      have isField := congrArg ClientBaseConfig.hostField isBase
      dsimp only at isHost isPort isField
      rw [isHost, isPort] at isField
      exact ⟨⟨Prod.ext isHost isPort, isField⟩, isTarget⟩
  · rintro ⟨⟨split, isField⟩, rfl⟩
    simp only [combine, split, if_neg (host_filled url.host), isField]
    rfl

theorem combine_target {https : Bool} {authority target : Text} {result : ClientBaseConfig × Text}
    (combined : combine https authority target = some result) : result.2 = target := by
  rw [combine] at combined
  dsimp only at combined
  split at combined
  · cases combined
  · cases combined
    rfl

/-- A query without a path is left out of the target, wholly or up to a slash. -/
theorem query_lost (query : Text) :
    "/".toList ++ '?' :: query ≠
      (Text.find (url.authority ++ '?' :: query) '/' 0).elim "/".toList
        (url.authority ++ '?' :: query).drop := by
  intro same
  cases found : Text.find (url.authority ++ '?' :: query) '/' 0 with
  | none =>
      rw [found] at same
      cases same
  | some pos =>
      have slash := Text.drop_of_find found
      rw [found, Option.elim_some, slash] at same
      have behind : '?' :: query = (url.authority ++ '?' :: query).drop (pos + 1) :=
        (List.cons.inj same).2
      have lengths := congrArg List.length behind
      simp only [List.length_drop, List.length_append, List.length_cons] at lengths
      -- the slash would be the last character of the authority
      have inside : pos < url.authority.length := by omega
      rw [List.drop_append_of_le_length (Nat.le_of_lt inside),
        List.drop_eq_getElem_cons inside, List.cons_append] at slash
      exact slash_not_mem_authority ((List.cons.inj slash).1 ▸ List.getElem_mem inside)

/-- What is behind the scheme is split right unless a query has no path. -/
theorem splitUrl_eq_iff :
    splitUrl url.https (url.authority ++ url.rest) = some (url.base, url.target) ↔ url.Plain := by
  have combined : splitUrl url.https (url.authority ++ url.rest) =
      combine url.https
        ((Text.find (url.authority ++ url.rest) '/' 0).elim (url.authority ++ url.rest)
          (Text.substr (url.authority ++ url.rest) 0))
        ((Text.find (url.authority ++ url.rest) '/' 0).elim "/".toList
          (url.authority ++ url.rest).drop) := rfl
  have plain (pathed : url.query ≠ none → url.path ≠ []) : url.Plain ↔
      (∀ address digits colon, url.host = .literal address digits colon → url.port ≠ none) ∧
        (url.https = true → url.port ≠ some "443".toList) :=
    ⟨fun plain => ⟨plain.port, plain.https⟩, fun both => ⟨pathed, both.1, both.2⟩⟩
  rw [combined]
  by_cases isPathed : url.path = []
  · cases isQuery : url.query with
    | none =>
        have nothing : url.rest = [] := by rw [rest, isPathed, isQuery]; rfl
        have isTarget : url.target = "/".toList := by
          rw [target, if_pos isPathed, isQuery]
          rfl
        rw [nothing, List.append_nil, Text.find_eq_none slash_not_mem_authority,
          Option.elim_none, Option.elim_none, combine_eq_iff, plain fun some => absurd isQuery some]
        exact and_iff_left isTarget.symm
    | some query =>
        refine iff_of_false ?_ fun plain => plain.path (by rw [isQuery]; exact nofun) isPathed
        have behind : url.rest = '?' :: query := by rw [rest, isPathed, isQuery]; rfl
        have isTarget : url.target = "/".toList ++ '?' :: query := by
          rw [target, if_pos isPathed, isQuery]
          rfl
        intro split
        refine @query_lost url query ?_
        rw [← isTarget, ← behind]
        exact combine_target split
  · obtain ⟨tail, isTail⟩ := List.head?_eq_some_iff.mp (url.isPath.resolve_left isPathed)
    have behind : url.rest = '/' :: (tail ++ url.query.elim [] ('?' :: ·)) := by
      rw [rest, isTail]
      rfl
    have isTarget : url.target = url.rest := by
      rw [target, if_neg isPathed, rest]
    rw [behind, Text.find_self slash_not_mem_authority, ← behind, Option.elim_some,
      Option.elim_some, List.drop_left, Text.substr, List.drop_zero, List.take_left,
      combine_eq_iff, plain fun _ => isPathed]
    exact and_iff_left isTarget.symm

end AbsoluteUrl

/-- **An absolute URL is split right** exactly when a query has a path in front
of it, an IPv6 address a port behind it, and the URL is one of HTTP, or of HTTPS
in a build with TLS and without its default port written out. -/
theorem splits_iff (usingTls : Bool) (url : AbsoluteUrl) :
    parseAbsoluteUrl usingTls url.render = some (url.base, url.target) ↔
      (url.https = true → usingTls = true) ∧ url.Plain := by
  rw [AbsoluteUrl.render, parse_scheme usingTls url.https url.isScheme]
  split
  · rename_i refused
    refine iff_of_false (fun split => by cases split) fun both => ?_
    rw [both.1 refused.1] at refused
    cases refused.2
  · rename_i supported
    rw [AbsoluteUrl.splitUrl_eq_iff]
    refine (and_iff_right fun secure => ?_).symm
    rw [not_and, Bool.not_eq_false] at supported
    exact supported secure

/-- A URL of HTTP with a query and no path. -/
def queryOnly : AbsoluteUrl where
  https := false
  scheme := "HTTP".toList
  isScheme := by decide
  host := .name "host".toList (by decide) (by simp)
  port := none
  isPort := nofun
  path := []
  isPath := .inl rfl
  noQuery := nofun
  query := some "a/b".toList

/-- `HTTP://host?a/b` has the host `host?a`. -/
theorem query_in_host :
    ¬ ∀ url : AbsoluteUrl, parseAbsoluteUrl true url.render = some (url.base, url.target) := by
  intro splitsQuery
  have split := splitsQuery queryOnly
  have parsed : parseAbsoluteUrl true queryOnly.render =
      some (⟨false, "host?a".toList, "80".toList, "host?a".toList⟩, "/b".toList) := by decide
  rw [parsed] at split
  exact absurd split (by decide)

end Foxhttp.Client
