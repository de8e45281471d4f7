import Foxhttp.Library.Text

/-!
# File paths

The lexical operations of `std::filesystem::path` on systems where a slash
separates the names and nothing stands before the root directory.
-/

namespace Foxhttp.Library.FilePath

/-- `path.is_absolute()`. -/
def isAbsolute (path : Text) : Bool :=
  path.head? == some '/'

/-- `path.has_filename()`: the path does not end where a name could start. -/
def hasFilename (path : Text) : Bool :=
  !path.isEmpty && path.getLast? != some '/'

/-- `base / path`: an absolute path replaces the base. -/
def append (base path : Text) : Text :=
  if isAbsolute path then path
  else if hasFilename base then base ++ '/' :: path
  else base ++ path

/-- The elements from `path.begin()` to `path.end()`: the root directory, the
names, and an empty name behind a last slash. -/
def elements (path : Text) : List Text :=
  let root := if isAbsolute path then [['/']] else []
  let relative := path.dropWhile (· == '/')
  if relative.isEmpty then root
  else
    root ++ (relative.splitOn '/').filter (fun name => !name.isEmpty) ++
      if relative.getLast? = some '/' then [[]] else []

/-- `path.filename()`. -/
def filename (path : Text) : Text :=
  (path.reverse.takeWhile (· != '/')).reverse

/-- `path.extension()`: from the last dot of the file name on, unless the dot is
its first character or the name is `..`. -/
def extension (path : Text) : Text :=
  let name := filename path
  let ending := (name.reverse.takeWhile (· != '.')).reverse
  if name = "..".toList ∨ name.length ≤ ending.length + 1 then [] else '.' :: ending

example : elements "/srv//www/".toList = ["/".toList, "srv".toList, "www".toList, []] := by
  decide

end Foxhttp.Library.FilePath
