/-!
# Files

Programs are loaded from files by name. A source of files answers each name with a text or the
reason why there is none. `FileTree` is such a source held in memory: regular files with their
bytes, and directories.

A name is a path: its parts are separated by slashes, empty parts and single dots mean nothing,
and two dots go up. A part can only be looked up in a directory, and a trailing slash asks for
one. A path that starts with a slash starts at the root of the file system, any other at the top
of the tree.

A path with a NUL, or with too many bytes, is refused before anything is looked up. A part with
too many bytes is refused when its turn comes, so a path that fails before it fails for its own
reason.
-/

namespace SmallLisp

/-- Why a file cannot be read. -/
inductive FileFault where
  | missing
  | isDirectory
  | notDirectory
  | notText
  | tooLong
  | containsNul
  /-- Any other reason, in words. -/
  | other (reason : String)
  deriving DecidableEq

/-- The wording of a file fault. -/
def FileFault.message : FileFault → String
  | missing => "No such file or directory (os error 2)"
  | isDirectory => "Is a directory (os error 21)"
  | notDirectory => "Not a directory (os error 20)"
  | notText => "stream did not contain valid UTF-8"
  | tooLong => "File name too long (os error 36)"
  | containsNul => "file name contained an unexpected NUL byte"
  | other reason => reason

/-- A source of files: the text under a name, or why there is none. -/
abbrev Files := String → Except FileFault String

/-- Regular files and directories below some directory, each under the parts of its path. -/
structure FileTree where
  files : List (List String × ByteArray) := []
  directories : List (List String) := []
  /-- Whether the top of the tree is the root of the file system, which lies above itself. -/
  isRoot : Bool := false

namespace FileTree

/-- What stands at a place. -/
inductive Node where
  | file (bytes : ByteArray)
  | directory

/-- The parts of a path that mean something. -/
def parts (path : String) : List String :=
  (path.splitOn "/").filter fun part => part ≠ "" && part ≠ "."

/-- The directories on the way to a place. -/
def above (place : List String) : List (List String) :=
  (List.range place.length).map place.take

/-- Add a file under its path, and the directories on the way to it. -/
def addFile (tree : FileTree) (path : String) (bytes : ByteArray) : FileTree :=
  { tree with
    files := tree.files ++ [(parts path, bytes)]
    directories := tree.directories ++ above (parts path) }

/-- Add a directory under its path, and the directories on the way to it. -/
def addDirectory (tree : FileTree) (path : String) : FileTree :=
  { tree with directories := tree.directories ++ above (parts path) ++ [parts path] }

/-- What every system has below its root: a directory for passing files, and the null device, which
reads as an empty file. -/
def system : FileTree :=
  ({ isRoot := true : FileTree }.addFile "dev/null" .empty).addDirectory "tmp"

/-- The most bytes in one part of a path. -/
def longestPart : Nat := 255

/-- The most bytes in a whole path. -/
def longestPath : Nat := 4095

/-- What stands at a place given by its parts. Of what is outside the tree only the directories
above its top are known. -/
def node? (tree : FileTree) (place : List String) : Option Node :=
  match tree.files.lookup place with
  | some bytes => some (.file bytes)
  | none =>
      if place.all (· = "..") || tree.directories.contains place then some .directory else none

/-- The place one part further on. -/
def descend (tree : FileTree) (place : List String) (part : String) : List String :=
  if part = ".." && (tree.isRoot || !place.all (· = "..")) then place.dropLast
  else place ++ [part]

/-- Follow the parts of a path from a place. -/
def resolve (tree : FileTree) (place : List String) : List String → Except FileFault Node
  | [] =>
      match tree.node? place with
      | some node => .ok node
      | none => .error .missing
  | part :: rest =>
      match tree.node? place with
      | some .directory =>
          if longestPart < part.utf8ByteSize then .error .tooLong
          else tree.resolve (tree.descend place part) rest
      | some (.file _) => .error .notDirectory
      | none => .error .missing

/-- Look up a path in the tree, or below the root if it starts with a slash. A path that ends in a
slash or a dot must lead to a directory. -/
def find (tree : FileTree) (path : String) : Except FileFault Node := do
  if path.contains '\x00' then .error .containsNul
  else if longestPath < path.utf8ByteSize then .error .tooLong
  else if path = "" then .error .missing
  else
    let top := if path.startsWith "/" then system else tree
    match ← top.resolve [] (parts path), (path.splitOn "/").getLast? with
    | .file _, some "" => .error .notDirectory
    | .file _, some "." => .error .notDirectory
    | node, _ => .ok node

/-- The text of a file. -/
def read (tree : FileTree) : Files := fun path => do
  match ← tree.find path with
  | .directory => .error .isDirectory
  | .file bytes =>
      match String.fromUTF8? bytes with
      | some text => .ok text
      | none => .error .notText

end FileTree

end SmallLisp
