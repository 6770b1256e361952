import MixedRadix.FileSystem
import MixedRadix.Path
import Std.Data.TreeMap

/-!
# File trees

A file system as a value: files and directories by their way from the root, and the directory from
which relative paths start.
-/

namespace MixedRadix

/-- A file or a directory. -/
inductive Node where
  | directory
  | file (text : String)
  deriving DecidableEq, Repr

/-- The files and directories below a root, which is a directory itself. -/
structure FileTree where
  /-- Everything below the root by its path from there. -/
  nodes : Std.TreeMap String Node := {}
  /-- The way to the directory from which relative paths start. -/
  current : List String := []

namespace FileTree

/-- The path along some components from the root. No component holds a slash, so ways that differ
have paths that differ. -/
def absolutePath (way : List String) : String :=
  String.join (way.map ("/" ++ ·))

/-- What is found at the end of a way. -/
def find? (t : FileTree) (way : List String) : Option Node :=
  if way.isEmpty then some .directory else t.nodes[absolutePath way]?

/-- Puts a file or a directory at the end of a way. -/
def insert (t : FileTree) (way : List String) (node : Node) : FileTree :=
  { t with nodes := t.nodes.insert (absolutePath way) node }

/-- Fails unless a directory is at the end of a way. -/
def requireDirectory (t : FileTree) (way : List String) : Except FileError Unit :=
  match t.find? way with
  | none => .error .notFound
  | some (.file _) => .error .notDirectory
  | some .directory => .ok ()

/-- The most bytes that a component of a path may have. -/
def maxNameBytes : Nat := 255

/-- The number of bytes below which a path has to stay. -/
def maxPathBytes : Nat := 4096

/-- Goes from a directory along one component. -/
def enter (way : List String) (component : String) : Except FileError (List String) :=
  if component = ".." then .ok way.dropLast
  else if component = "." then .ok way
  else if maxNameBytes < component.utf8ByteSize then .error .nameTooLong
  else .ok (way ++ [component])

/-- Goes along components to a directory; each of them has to be looked up in a directory too. -/
def walk (t : FileTree) (way : List String) : List String → Except FileError (List String)
  | [] => do
    t.requireDirectory way
    return way
  | component :: rest => do
    t.requireDirectory way
    t.walk (← enter way component) rest

/-- The components of a path, unless it is refused as a whole. -/
def components (path : String) : Except FileError (List String) :=
  if path.toList.contains '\x00' then .error .nulInPath
  else if path.isEmpty then .error .notFound
  else if maxPathBytes ≤ path.utf8ByteSize then .error .nameTooLong
  else .ok (((Path.pieces path.toList).filter (· ≠ [])).map String.ofList)

/-- Follows a path to the directory in which its last component is looked up, and gives that
component too. The root is found in itself. -/
def resolve (t : FileTree) (path : String) : Except FileError (List String × String) := do
  let names ← components path
  let way ← t.walk (if Path.isAbsolute path then [] else t.current) names.dropLast
  return (way, names.getLast?.getD ".")

/-- The text of a file. A path that ends in a slash can only name a directory. -/
def read (t : FileTree) (path : String) : Except FileError String := do
  let (way, name) ← t.resolve path
  match t.find? (← enter way name) with
  | none => throw .notFound
  | some .directory => throw .isDirectory
  | some (.file text) => if path.endsWith "/" then throw .notDirectory else return text

/-- Replaces the text of a file or creates it. A path that ends in a slash can only name a
directory, and its last component is not looked up. -/
def write (t : FileTree) (path text : String) : Except FileError FileTree := do
  let (way, name) ← t.resolve path
  if path.endsWith "/" then throw .isDirectory
  let way ← enter way name
  if t.find? way = some .directory then throw .isDirectory
  return t.insert way (.file text)

/-- The file system whose state is a tree. -/
def fileSystem : FileSystem (StateM FileTree) where
  read path := do return (← get).read path
  write path text := do
    match (← get).write path text with
    | .error e => return .error e
    | .ok t =>
      set t
      return .ok ()

end FileTree

end MixedRadix
