import Mathlib.Data.List.DropRight
import Foxhttp.Library.FilePath
import Foxhttp.Library.MessageHead
import Foxhttp.Router.Table

/-!
# Static files

`StaticMiddleware` maps a request path to a file below a document root. The
path is canonical before it is compared with the root, and so is that of a
directory index, so whatever the links and dots of a path, the file served is
below the root.
-/

namespace Foxhttp.Middleware

open Foxhttp.Library Foxhttp.Library.FilePath
open Foxhttp.Router (Verb)

/-! ## The file system -/

/-- `std::filesystem::file_type`, as far as the middleware tells types apart. -/
inductive FileType where
  | regular
  | directory
  | notFound
  | other
deriving DecidableEq, Repr

/-- What `std::filesystem::status` returns, and whether it sets its error code. -/
structure FileStatus where
  type : FileType
  failed : Bool
deriving DecidableEq, Repr

/-- The calls into the file system, with nothing for an error code. -/
structure FileSystem where
  weaklyCanonical : Text → Option Text
  status : Text → FileStatus
  fileSize : Text → Option Nat
  read : Text → Option Text

/-! ## Messages -/

/-- The parts of a request the middleware reads. -/
structure StaticRequest where
  verb : Verb
  target : Text
  head : MessageHead

/-- `RequestContext::path`. -/
def StaticRequest.path (request : StaticRequest) : Text :=
  match Text.find request.target '?' 0 with
  | some pos => Text.substr request.target 0 pos
  | none => request.target

/-- The parts of a response the middleware writes. -/
structure StaticResponse where
  status : Nat
  head : MessageHead
  contentType : Option Text
  contentLength : Option Nat
  body : Text

/-- An answer in plain text. -/
def StaticResponse.plain (res : StaticResponse) (status : Nat) (body : Text) : StaticResponse :=
  { res with
    status := status
    contentType := some "text/plain; charset=utf-8".toList
    body := body }

/-! ## The middleware -/

/-- `make_mime_map`. -/
def mimeMap : List (Text × Text) :=
  [("html".toList, "text/html; charset=utf-8".toList),
    ("htm".toList, "text/html; charset=utf-8".toList),
    ("css".toList, "text/css; charset=utf-8".toList),
    ("js".toList, "application/javascript; charset=utf-8".toList),
    ("mjs".toList, "application/javascript; charset=utf-8".toList),
    ("json".toList, "application/json; charset=utf-8".toList),
    ("xml".toList, "application/xml; charset=utf-8".toList),
    ("txt".toList, "text/plain; charset=utf-8".toList),
    ("text".toList, "text/plain; charset=utf-8".toList),
    ("md".toList, "text/markdown; charset=utf-8".toList),
    ("svg".toList, "image/svg+xml".toList),
    ("png".toList, "image/png".toList),
    ("jpg".toList, "image/jpeg".toList),
    ("jpeg".toList, "image/jpeg".toList),
    ("gif".toList, "image/gif".toList),
    ("webp".toList, "image/webp".toList),
    ("ico".toList, "image/x-icon".toList),
    ("woff".toList, "font/woff".toList),
    ("woff2".toList, "font/woff2".toList),
    ("ttf".toList, "font/ttf".toList),
    ("otf".toList, "font/otf".toList),
    ("pdf".toList, "application/pdf".toList),
    ("zip".toList, "application/zip".toList),
    ("wasm".toList, "application/wasm".toList),
    ("mp4".toList, "video/mp4".toList),
    ("webm".toList, "video/webm".toList),
    ("mp3".toList, "audio/mpeg".toList),
    ("wav".toList, "audio/wav".toList)]

/-- `StaticMiddleware::mime_for_path`. -/
def mimeForPath (file : Text) : Text :=
  let ext := extension file
  let ext := if 1 < ext.length ∧ ext.head? = some '.' then ext.tail else ext
  (mimeMap.lookup (ext.map Char.toLower)).getD "application/octet-stream".toList

/-- `StaticMiddleware`. -/
structure StaticMiddleware where
  urlPrefix : Text
  docRoot : Text
  indexFile : Text
  maxFileSize : Nat

/-- `StaticMiddleware::ServeResult`. -/
inductive ServeResult where
  | notApplicable
  | served
  | stopPipeline
deriving DecidableEq, Repr

/-- The answers without a file. -/
inductive Refusal where
  | forbidden
  | notFound
deriving DecidableEq, Repr

/-- The loop of `StaticMiddleware::is_subpath` over the elements of two paths. -/
def startsWithElements : List Text → List Text → Bool
  | [], _ => true
  | _ :: _, [] => false
  | first :: root, other :: candidate =>
      if first ≠ other then false else startsWithElements root candidate

/-- `StaticMiddleware::is_subpath`. -/
def FileSystem.isSubpath (fs : FileSystem) (root candidate : Text) : Bool :=
  match fs.weaklyCanonical root, fs.weaklyCanonical candidate with
  | some r, some c => startsWithElements (elements r) (elements c)
  | _, _ => false

namespace StaticMiddleware

/-- `StaticMiddleware::normalize_prefix`. -/
def normalizePrefix (p : Text) : Text :=
  let p := if p.head? = some '/' then p else '/' :: p
  -- every slash but the first is taken off the end
  p.take 1 ++ (p.drop 1).rdropWhile (· == '/')

/-- The constructor, in the file system as it is then. -/
def new (weaklyCanonical : Text → Option Text) (urlPrefix documentRoot indexFile : Text) :
    StaticMiddleware where
  urlPrefix := normalizePrefix urlPrefix
  docRoot := (weaklyCanonical documentRoot).getD documentRoot
  indexFile := indexFile
  maxFileSize := 64 * 1024 * 1024

/-- `set_max_file_size`. -/
def setMaxFileSize (middleware : StaticMiddleware) (bytes : Nat) : StaticMiddleware :=
  { middleware with maxFileSize := bytes }

/-- The part of a path behind the prefix, with a leading slash and without a
trailing one. -/
def relative (middleware : StaticMiddleware) (path : Text) : Text :=
  let rel := path.drop middleware.urlPrefix.length
  let rel := if rel.head? = some '/' then rel else '/' :: rel
  if 1 < rel.length ∧ rel.getLast? = some '/' then rel.dropLast else rel

/-- The path below the document root, before any link is followed. -/
def mapped (middleware : StaticMiddleware) (path : Text) : Text :=
  let rel := middleware.relative path
  if rel ≠ ['/'] then append middleware.docRoot (rel.drop 1) else middleware.docRoot

/-- What `try_serve` makes of a canonical path: itself when it is below the
document root. -/
def confine (middleware : StaticMiddleware) (fs : FileSystem) (path : Text) :
    Except Refusal Text :=
  match fs.weaklyCanonical path with
  | some canonical =>
      if fs.isSubpath middleware.docRoot canonical then .ok canonical else .error .forbidden
  | none => .error .forbidden

/-- The part of `try_serve` which finds the file. -/
def locate (middleware : StaticMiddleware) (fs : FileSystem) (path : Text) :
    Except Refusal Text := do
  let file ← middleware.confine fs (middleware.mapped path)
  let st := fs.status file
  if st.failed then .error .notFound
  else if st.type = .directory then do
    let index ← middleware.confine fs (append file middleware.indexFile)
    if (fs.status index).type ≠ .regular then .error .notFound else .ok index
  else if st.type ≠ .regular then .error .notFound
  else .ok file

/-- The part of `try_serve` which answers with the file. -/
def answerFile (middleware : StaticMiddleware) (fs : FileSystem) (request : StaticRequest)
    (res : StaticResponse) (file : Text) : ServeResult × StaticResponse :=
  match fs.fileSize file with
  | none => (.stopPipeline, res.plain 500 "Internal Server Error".toList)
  | some fsize =>
      if middleware.maxFileSize < fsize then
        (.stopPipeline, res.plain 413 "Payload Too Large".toList)
      else
        let res :=
          { res with
            status := 200
            contentType := some (mimeForPath file)
            head := res.head.setKeepAlive request.head.keepAlive }
        if request.verb = .head then
          (.served, { res with contentLength := some fsize, body := [] })
        else
          match fs.read file with
          | none => (.stopPipeline, res.plain 500 "Failed to read file".toList)
          | some content => (.served, { res with body := content })

/-- `StaticMiddleware::try_serve`. -/
def tryServe (middleware : StaticMiddleware) (fs : FileSystem) (request : StaticRequest)
    (res : StaticResponse) : ServeResult × StaticResponse :=
  if request.verb ≠ .get ∧ request.verb ≠ .head then (.notApplicable, res)
  else if ¬ middleware.urlPrefix <+: request.path then (.notApplicable, res)
  else
    match middleware.locate fs request.path with
    | .error .forbidden => (.stopPipeline, res.plain 403 "Forbidden".toList)
    | .error .notFound => (.stopPipeline, res.plain 404 "Not Found".toList)
    | .ok file => middleware.answerFile fs request res file

/-! ## Below the document root -/

theorem startsWithElements_iff (root candidate : List Text) :
    startsWithElements root candidate = true ↔ root <+: candidate := by
  induction root generalizing candidate with
  | nil => simp [startsWithElements]
  | cons first root inductionHypothesis =>
      cases candidate with
      | nil => simp [startsWithElements]
      | cons other candidate =>
          rw [startsWithElements, List.cons_prefix_cons, ← inductionHypothesis]
          by_cases same : first = other
          · simp [same]
          · simp [same]

/-- The canonical form of the second path is below that of the first. -/
def Below (fs : FileSystem) (root file : Text) : Prop :=
  ∃ r c, fs.weaklyCanonical root = some r ∧ fs.weaklyCanonical file = some c ∧
    elements r <+: elements c

theorem isSubpath_iff (fs : FileSystem) (root candidate : Text) :
    fs.isSubpath root candidate = true ↔ Below fs root candidate := by
  rw [FileSystem.isSubpath, Below]
  cases fs.weaklyCanonical root with
  | none => simp
  | some r =>
      cases fs.weaklyCanonical candidate with
      | none => simp
      | some c => simp [startsWithElements_iff]

/-- What passes the check is canonical, and below the document root. -/
theorem confine_ok {middleware : StaticMiddleware} {fs : FileSystem} {path file : Text}
    (confined : middleware.confine fs path = .ok file) :
    fs.weaklyCanonical path = some file ∧ Below fs middleware.docRoot file := by
  rw [confine] at confined
  split at confined
  · rename_i canonical isCanonical
    split at confined
    · rename_i isBelow
      cases confined
      exact ⟨isCanonical, (isSubpath_iff fs _ _).mp isBelow⟩
    · cases confined
  · cases confined

theorem confine_iff {middleware : StaticMiddleware} {fs : FileSystem} {path file : Text} :
    middleware.confine fs path = .ok file ↔
      fs.weaklyCanonical path = some file ∧ Below fs middleware.docRoot file := by
  refine ⟨confine_ok, ?_⟩
  rintro ⟨isCanonical, isBelow⟩
  rw [confine, isCanonical]
  exact if_pos ((isSubpath_iff fs _ _).mpr isBelow)

/-- What follows a path which is confined is done with its canonical path. -/
theorem confine_bind_iff {middleware : StaticMiddleware} {fs : FileSystem} {path file : Text}
    {next : Text → Except Refusal Text} :
    (middleware.confine fs path >>= next) = .ok file ↔
      ∃ target, fs.weaklyCanonical path = some target ∧ Below fs middleware.docRoot target ∧
        next target = .ok file := by
  constructor
  · intro isFile
    cases confined : middleware.confine fs path with
    | error refusal =>
        rw [confined] at isFile
        cases isFile
    | ok target =>
        rw [confined] at isFile
        obtain ⟨isTarget, isBelow⟩ := confine_iff.mp confined
        exact ⟨target, isTarget, isBelow, isFile⟩
  · rintro ⟨target, isTarget, isBelow, isFile⟩
    rw [confine_iff.mpr ⟨isTarget, isBelow⟩]
    exact isFile

/-- Only a regular file is served. -/
theorem regular_iff {fs : FileSystem} {path file : Text} :
    (if (fs.status path).type ≠ .regular then .error .notFound else .ok path :
      Except Refusal Text) = .ok file ↔ file = path ∧ (fs.status file).type = .regular := by
  split
  · rename_i other
    refine iff_of_false (fun same => by cases same) ?_
    rintro ⟨rfl, isRegular⟩
    exact other isRegular
  · rename_i regular
    constructor
    · rintro ⟨⟩
      exact ⟨rfl, not_not.mp regular⟩
    · rintro ⟨rfl, -⟩
      rfl

/-- A located file has passed the check. -/
theorem locate_ok {middleware : StaticMiddleware} {fs : FileSystem} {path file : Text}
    (located : middleware.locate fs path = .ok file) :
    ∃ source, middleware.confine fs source = .ok file := by
  rw [locate, confine_bind_iff] at located
  obtain ⟨target, isTarget, isBelow, located⟩ := located
  dsimp only at located
  split at located
  · cases located
  · split at located
    · obtain ⟨index, isIndex, isInside, located⟩ := confine_bind_iff.mp located
      obtain ⟨rfl, -⟩ := regular_iff.mp located
      exact ⟨_, confine_iff.mpr ⟨isIndex, isInside⟩⟩
    · obtain ⟨rfl, -⟩ := regular_iff.mp located
      exact ⟨_, confine_iff.mpr ⟨isTarget, isBelow⟩⟩

/-- The answer is that of the file: its size for HEAD and its content for GET. -/
def AnswersWith (fs : FileSystem) (request : StaticRequest) (res : StaticResponse) (file : Text) :
    Prop :=
  res.status = 200 ∧ (request.verb = .get ∧ fs.read file = some res.body ∨
    request.verb = .head ∧ res.contentLength = fs.fileSize file)

theorem answerFile_ok {middleware : StaticMiddleware} {fs : FileSystem} {request : StaticRequest}
    {res : StaticResponse} {file : Text} (applies : request.verb = .get ∨ request.verb = .head)
    (isOk : (middleware.answerFile fs request res file).2.status = 200) :
    AnswersWith fs request (middleware.answerFile fs request res file).2 file := by
  refine ⟨isOk, ?_⟩
  revert isOk
  rw [answerFile]
  cases size : fs.fileSize file with
  | none => exact fun isOk => by cases isOk
  | some fsize =>
      dsimp only
      split
      · exact fun isOk => by cases isOk
      · split
        · rename_i isHead
          exact fun _ => .inr ⟨isHead, rfl⟩
        · rename_i notHead
          cases content : fs.read file with
          | none => exact fun isOk => by cases isOk
          | some body => exact fun _ => .inl ⟨applies.resolve_right notHead, rfl⟩

/-- An answer with status 200 is that of a located file. -/
theorem tryServe_ok {middleware : StaticMiddleware} {fs : FileSystem} {request : StaticRequest}
    {res : StaticResponse} (answers : (middleware.tryServe fs request res).1 ≠ .notApplicable)
    (isOk : (middleware.tryServe fs request res).2.status = 200) :
    ∃ file, middleware.locate fs request.path = .ok file ∧
      AnswersWith fs request (middleware.tryServe fs request res).2 file := by
  rw [tryServe] at answers isOk ⊢
  by_cases other : request.verb ≠ .get ∧ request.verb ≠ .head
  · rw [if_pos other] at answers
    exact absurd rfl answers
  rw [if_neg other] at answers isOk ⊢
  by_cases elsewhere : ¬ middleware.urlPrefix <+: request.path
  · rw [if_pos elsewhere] at answers
    exact absurd rfl answers
  rw [if_neg elsewhere] at isOk ⊢
  have applies : request.verb = .get ∨ request.verb = .head := by
    by_contra neither
    exact other (not_or.mp neither)
  cases located : middleware.locate fs request.path with
  | error refusal =>
      rw [located] at isOk
      cases refusal with
      | forbidden => cases isOk
      | notFound => cases isOk
  | ok file =>
      rw [located] at isOk
      exact ⟨file, rfl, answerFile_ok applies isOk⟩

/-- A canonicalisation leaves its own results alone. -/
def Idempotent (weaklyCanonical : Text → Option Text) : Prop :=
  ∀ path canonical, weaklyCanonical path = some canonical →
    weaklyCanonical canonical = some canonical

/-- The document root which the constructor keeps is canonically the given one. -/
theorem below_documentRoot {fs : FileSystem} (idempotent : Idempotent fs.weaklyCanonical)
    (urlPrefix documentRoot indexFile : Text) {file : Text}
    (below : Below fs (new fs.weaklyCanonical urlPrefix documentRoot indexFile).docRoot file) :
    Below fs documentRoot file := by
  obtain ⟨r, c, isRoot, isFile, within⟩ := below
  rw [new] at isRoot
  cases atFirst : fs.weaklyCanonical documentRoot with
  | none =>
      rw [atFirst] at isRoot
      exact ⟨r, c, isRoot, isFile, within⟩
  | some canonical =>
      rw [atFirst, Option.getD_some, idempotent _ _ atFirst] at isRoot
      cases isRoot
      exact ⟨r, c, atFirst, isFile, within⟩

/-- An answer with status 200 serves a canonical path below the canonical
document root: the one which the constructor kept, which is that of the given
document root when the file system has not changed since. -/
theorem served_below_root (fs : FileSystem) (idempotent : Idempotent fs.weaklyCanonical)
    (weaklyCanonical : Text → Option Text) (urlPrefix documentRoot indexFile : Text)
    (maxFileSize : Nat) (request : StaticRequest) (res : StaticResponse)
    (answers : (((new weaklyCanonical urlPrefix documentRoot indexFile).setMaxFileSize
      maxFileSize).tryServe fs request res).1 ≠ .notApplicable)
    (isOk : (((new weaklyCanonical urlPrefix documentRoot indexFile).setMaxFileSize
      maxFileSize).tryServe fs request res).2.status = 200) :
    ∃ file,
      AnswersWith fs request (((new weaklyCanonical urlPrefix documentRoot indexFile).setMaxFileSize
        maxFileSize).tryServe fs request res).2 file ∧
      fs.weaklyCanonical file = some file ∧
      Below fs (new weaklyCanonical urlPrefix documentRoot indexFile).docRoot file ∧
      (weaklyCanonical = fs.weaklyCanonical → Below fs documentRoot file) := by
  obtain ⟨file, located, answersWith⟩ := tryServe_ok answers isOk
  obtain ⟨source, confined⟩ := locate_ok located
  obtain ⟨isCanonical, below⟩ := confine_ok confined
  refine ⟨file, answersWith, idempotent source file isCanonical, below, ?_⟩
  rintro rfl
  exact below_documentRoot idempotent urlPrefix documentRoot indexFile below

/-- A site with a directory `manual`, its index and a link `docs` to it. -/
def linkedSite : FileSystem where
  weaklyCanonical path :=
    some (if path = "/srv/docs".toList then "/srv/manual".toList else path)
  status path :=
    if path = "/srv/manual".toList then ⟨.directory, false⟩
    else if path = "/srv/manual/index.html".toList then ⟨.regular, false⟩
    else ⟨.notFound, true⟩
  fileSize path := if path = "/srv/manual/index.html".toList then some 5 else none
  read path := if path = "/srv/manual/index.html".toList then some "Hello".toList else none

theorem idempotent_linkedSite : Idempotent linkedSite.weaklyCanonical := by
  intro path canonical isCanonical
  simp only [linkedSite, Option.some.injEq] at isCanonical ⊢
  split at isCanonical
  · subst isCanonical
    decide
  · rename_i plain
    rw [← isCanonical, if_neg plain]

/-- The index of a linked directory is served from where the link leads. -/
theorem linked_index_below_root :
    ∃ file,
      AnswersWith linkedSite ⟨.get, "/static/docs/?x".toList, ⟨.http11, []⟩⟩
        (((new linkedSite.weaklyCanonical "static/".toList "/srv".toList
          "index.html".toList).setMaxFileSize 1024).tryServe linkedSite
            ⟨.get, "/static/docs/?x".toList, ⟨.http11, []⟩⟩
            ⟨404, ⟨.http11, []⟩, none, none, []⟩).2 file ∧
      linkedSite.weaklyCanonical file = some file ∧
      Below linkedSite (new linkedSite.weaklyCanonical "static/".toList "/srv".toList
        "index.html".toList).docRoot file ∧
      (linkedSite.weaklyCanonical = linkedSite.weaklyCanonical →
        Below linkedSite "/srv".toList file) :=
  served_below_root linkedSite idempotent_linkedSite linkedSite.weaklyCanonical "static/".toList
    "/srv".toList "index.html".toList 1024 _ _ (by decide) (by decide)

end StaticMiddleware

end Foxhttp.Middleware
