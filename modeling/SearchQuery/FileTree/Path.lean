import SearchQuery.Text.Blank

/-!
# Paths

A path is a text with slashes between its parts. It is absolute if it begins with a slash. An empty
part and a single dot stand for where one is, two dots for the directory above.

Nothing here looks at files. `Path.parent` takes the last part away as it is written, also if that
is two dots, and leaves out the slashes and dots before it that change nothing. A tilde means
something only if it is the whole first part: in `~name/file` it is a character like any other.

## Main definitions

* `Path.join` — a path as it is seen from a directory
* `Path.parent` — the directory that a path lies in
* `Path.expandHome` — a path with the home directory in place of a leading tilde
-/

namespace SearchQuery.Path

/-- Whether a path begins at the root. -/
def isAbsolute (path : String) : Bool := path.toList.head? == some '/'

/-- The parts of a path. -/
def parts (path : String) : List String := Text.piecesAt '/' path

/-- The path as it is seen from a directory. An absolute path is the same from everywhere. -/
def join (directory path : String) : String :=
  if isAbsolute path || directory == "" then path
  else if directory.toList.getLast? == some '/' then directory ++ path
  else directory ++ "/" ++ path

@[simp] theorem join_of_isAbsolute {directory path : String} (h : isAbsolute path = true) :
    join directory path = path := by
  simp [join, h]

/-- The reversed path without the slashes and single dots at its end that change nothing. The
first slash and a single dot at the very beginning stay. -/
def dropIdle : List Char → List Char
  | '/' :: c :: cs => dropIdle (c :: cs)
  | '.' :: '/' :: c :: cs => dropIdle (c :: cs)
  | ['.', '/'] => ['/']
  | cs => cs

/-- The directory that the last part of a path lies in; empty if there is only one part. -/
def parent (path : String) : String :=
  String.ofList (dropIdle ((dropIdle path.toList.reverse).dropWhile (· != '/'))).reverse

/-- The path with the home directory in place of a tilde at its beginning that is a part by
itself. Without a home directory there is no such path. -/
def expandHome (home : Option String) (path : String) : Option String :=
  match path.toList with
  | ['~'] => home
  | '~' :: '/' :: rest =>
    let rest := rest.dropWhile (· == '/')
    if rest.isEmpty then home else home.map (join · (String.ofList rest))
  | _ => some path

end SearchQuery.Path
