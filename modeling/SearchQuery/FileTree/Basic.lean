import SearchQuery.FileTree.Path

/-!
# File trees

The files that settings refer to, as a value. Loading settings is a function of it, so that what
settings mean depends on nothing else.

## Paths are followed part by part

Everything on the way has to be there, so that `missing/../file` leads nowhere even if `file` is
there. There are no links, so the names from the root to a place are unique, and a path without
detours is made of them.

## The home directory

There may be none. A path that begins with a tilde has no place then, which is an error of its own,
and any other path is not affected.

## Contents

A file holds bytes, and it has a text if these are text in UTF-8. A file with other bytes is there
and cannot be read.

## Main definitions

* `FileNode` — a file or a directory
* `FileTree` — all files, the home directory and the working directory
* `FileTree.canonical?` — the absolute path, without detours, of what is at a path
* `FileTree.text?` — the text of the file at a path
* `FileTree.located` — where a path in settings leads
* `FileNode.put` — the directory with something put into it

## Main results

* `FileNode.find?_put` — what was put somewhere is found there
-/

namespace SearchQuery

/-- A file or a directory. -/
inductive FileNode where
  /-- A file with its content. -/
  | file (content : ByteArray)
  /-- A directory with what is in it. -/
  | directory (entries : List (String × FileNode))

namespace FileNode

/-- An empty directory. -/
def empty : FileNode := directory []

instance : Inhabited FileNode := ⟨empty⟩

/-- The entries of a directory. -/
def entries? : FileNode → Option (List (String × FileNode))
  | file _ => none
  | directory entries => some entries

/-- What is in a directory under a name. -/
def child? (name : String) (node : FileNode) : Option FileNode :=
  node.entries?.bind fun entries => entries.lookup name

/-- What is at the end of the names, one inside the other. -/
def find? : List String → FileNode → Option FileNode
  | [], node => some node
  | name :: names, node => (node.child? name).bind (find? names)

/-- The directory with something at the end of the names, one inside the other. Directories that
are missing on the way are made. -/
def put (node : FileNode) (names : List String) (new : FileNode) : FileNode :=
  match names with
  | [] => new
  | name :: names =>
    let entries := node.entries?.getD []
    let inner := put ((entries.lookup name).getD empty) names new
    directory ((name, inner) :: entries.filter (·.1 != name))

/-- What was put at the end of the names is found there. -/
@[simp] theorem find?_put (node new : FileNode) (names : List String) :
    find? names (node.put names new) = some new := by
  induction names generalizing node with
  | nil => rfl
  | cons name names ih => simp [put, find?, child?, entries?, ih]

end FileNode

/-- All files. -/
structure FileTree where
  /-- The root directory. -/
  root : FileNode := .empty
  /-- The path of the home directory, if there is one. -/
  home : Option String := some "/"
  /-- The path of the working directory. -/
  working : String := "/"

namespace FileTree

/-- The names from the root to where the parts of a path lead from the place with the names
`place`, last name first. -/
def follow? (tree : FileTree) : List String → (place : List String) → Option (List String)
  | [], place => some place.reverse
  | part :: parts, place =>
    (tree.root.find? place.reverse).bind fun node =>
      node.entries?.bind fun entries =>
        if part = "" || part = "." then follow? tree parts place
        else if part = ".." then follow? tree parts place.tail
        else if (entries.lookup part).isSome then follow? tree parts (part :: place)
        else none

/-- The names from the root to what is at a path. The empty path leads nowhere. -/
def names? (tree : FileTree) (path : String) : Option (List String) :=
  if path = "" then none
  else tree.follow? (Path.parts (Path.join tree.working path)) []

/-- The absolute path, without detours, of what is at a path. -/
def canonical? (tree : FileTree) (path : String) : Option String :=
  (tree.names? path).map fun names => "/" ++ "/".intercalate names

/-- The text of the file at a path, unless its content is no text. -/
def text? (tree : FileTree) (path : String) : Option String :=
  match (tree.names? path).bind fun names => tree.root.find? names with
  | some (.file content) => String.fromUTF8? content
  | _ => none

/-- The path with the home directory in place of a leading tilde, seen from a directory, and from
the working directory if there is none. -/
def located (tree : FileTree) (directory : Option String) (path : String) : Option String :=
  (Path.expandHome tree.home path).map fun path =>
    match directory with
    | some directory => Path.join directory path
    | none => path

end FileTree

end SearchQuery
