import MarkovAlgorithm.Word

/-!
# Files in a tree of folders

Programs are read from files.  A file tree tells for the names on the way from
its root what stands there: a folder, a file, or nothing.  A path is followed
name by name, from the root if it begins with a slash and from the current
folder otherwise.  A blank name or a dot stays where it is, two dots go up,
and nothing can be entered from a file.  The root is above itself.

Paths and names have a longest length in bytes.  The length of the whole path
is looked at first, that of a name only when it is looked up in a folder.
-/

namespace MarkovAlgorithm.CommandLine

/-- Why a file cannot be read. -/
inductive ReadFailure where
  | notFound
  | isFolder
  | notFolder
  | nameTooLong
  | notText
  | other (description : String)
  deriving DecidableEq

/-- The wording of a failure. -/
def ReadFailure.message : ReadFailure → String
  | .notFound => "No such file or directory (os error 2)"
  | .isFolder => "Is a directory (os error 21)"
  | .notFolder => "Not a directory (os error 20)"
  | .nameTooLong => "File name too long (os error 36)"
  | .notText => "stream did not contain valid UTF-8"
  | .other description => description

/-- The names on a path, divided by slashes. -/
def pathNames : Word → List Word
  | [] => [[]]
  | '/' :: rest => [] :: pathNames rest
  | character :: rest =>
      match pathNames rest with
      | [] => [[character]]
      | name :: names => (character :: name) :: names

/-- A path names standard input if it is a single dash.  Slashes and dots
behind it do not matter. -/
def isStandardInput (path : Word) : Bool :=
  match pathNames path with
  | name :: rest => name = ['-'] && rest.all fun name => name = [] || name = ['.']
  | [] => false

/-- What stands in a file tree. -/
inductive Entry where
  | folder
  | file (content : ByteArray)

/-- A tree of folders and files, seen from a current folder.  Entries are
found by the names that lead to them from the root. -/
structure FileTree where
  entry? : List Word → Option Entry
  current : List Word

/-- The end of a path followed so far. -/
inductive Place where
  | folder (names : List Word)
  | file (content : ByteArray)

/-- The longest path, in bytes. -/
def longestPath : Nat := 4095

/-- The longest name, in bytes. -/
def longestName : Nat := 255

/-- The number of bytes of a text. -/
def byteLength (text : Word) : Nat :=
  (String.ofList text).utf8ByteSize

namespace FileTree

/-- The tree of the given files and folders.  Folders that files stand in need
not be given. -/
def ofEntries (files : List (List Word × ByteArray)) (folders : List (List Word))
    (current : List Word) : FileTree where
  entry? names :=
    match files.lookup names with
    | some content => some (.file content)
    | none =>
        if names.isPrefixOf current || folders.any (names.isPrefixOf ·) ||
            files.any fun (file, _) => names.isPrefixOf file then
          some .folder
        else
          none
  current := current

/-- Look a name up in a folder. -/
def lookUp (tree : FileTree) (names : List Word) (name : Word) : Except ReadFailure Place :=
  if longestName < byteLength name then
    .error .nameTooLong
  else
    match tree.entry? (names ++ [name]) with
    | some .folder => .ok (.folder (names ++ [name]))
    | some (.file content) => .ok (.file content)
    | none => .error .notFound

/-- Follow one name. -/
def enter (tree : FileTree) (place : Place) (name : Word) : Except ReadFailure Place :=
  match place with
  | .file _ => .error .notFolder
  | .folder names =>
      if name = [] || name = ['.'] then
        .ok place
      else if name = ['.', '.'] then
        .ok (.folder names.dropLast)
      else
        tree.lookUp names name

/-- Read a file of the tree. -/
def read (tree : FileTree) (path : Word) : Except ReadFailure ByteArray :=
  if longestPath < byteLength path then
    .error .nameTooLong
  else
    let start := if path.head? = some '/' then [] else tree.current
    match (pathNames path).foldlM tree.enter (.folder start) with
    | .ok (.file content) => .ok content
    | .ok (.folder _) => .error .isFolder
    | .error failure => .error failure

end FileTree

end MarkovAlgorithm.CommandLine
