import CellMachine.Fault

/-!
# Files

The files that a command can see: a tree of directories with files as its leaves, and the
directory in which the command was started. A path is followed one component at a time, and the
first component that leads nowhere decides why it cannot be read.
-/

namespace CellMachine

/-- A file or a directory. -/
inductive FileTree where
  /-- A file and its bytes. -/
  | file (bytes : List UInt8)
  /-- A directory and what is in it. Of two entries with the same name the first counts. -/
  | directory (entries : List (String × FileTree))

namespace FileTree

/-- The largest number of bytes in a component of a path. -/
def longestName : Nat := 255

/-- Follows the components of a path. `above` holds the directories that were passed through, the
nearest first; the root is its own parent. -/
def follow (above : List FileTree) (here : FileTree) : List String → Except IoError FileTree
  | [] => .ok here
  | component :: rest =>
    match here with
    | file _ => .error .notDirectory
    | directory entries =>
      if component = "" ∨ component = "." then follow above here rest
      else if component = ".." then
        match above with
        | [] => follow [] here rest
        | parent :: above => follow above parent rest
      else if longestName < component.utf8ByteSize then .error .nameTooLong
      else
        match entries.lookup component with
        | some next => follow (here :: above) next rest
        | none => .error .notFound

/-- Puts something where something else may stand already. A directory that is put where there is
one keeps what was in it. -/
def laidOver : FileTree → FileTree → FileTree
  | directory added, directory entries => directory (added ++ entries)
  | added, _ => added

/-- What is found under a name in a directory. -/
def child? (name : String) : FileTree → Option FileTree
  | file _ => none
  | directory entries => entries.lookup name

/-- Puts something into a tree, under the given names one inside the other. The directories that
lead there are made where they are missing. -/
def insert (added : FileTree) : List String → FileTree → FileTree
  | [], here => added.laidOver here
  | name :: rest, here =>
    let inside := added.insert rest ((here.child? name).getD (directory []))
    (directory [(name, inside)]).laidOver here

/-- The place that a component of a path leads to. A place is the names of the directories from the
root to it, the nearest first. -/
def enter (place : List String) (component : String) : List String :=
  if component = "" ∨ component = "." then place
  else if component = ".." then place.tail
  else component :: place

/-- Puts something into a tree, at the end of a path that starts from a place. Every directory that
the path passes through is made where it is missing. -/
def insertAlong (added : FileTree) (place : List String) (root : FileTree) :
    List String → FileTree
  | [] => added.insert place.reverse root
  | component :: rest =>
    added.insertAlong (enter place component) ((directory []).insert place.reverse root) rest

end FileTree

/-- The files that a command can see. -/
structure FileSystem where
  /-- The root directory. -/
  root : FileTree
  /-- The components of the path from the root to the directory where the command was started. -/
  workingDirectory : List String

namespace FileSystem

/-- The components from the root of what a path refers to. -/
def components (files : FileSystem) (path : String) : List String :=
  let parts := path.splitOn "/"
  if path.startsWith "/" then parts else files.workingDirectory ++ parts

/-- The largest number of bytes in a path. -/
def longestPath : Nat := 4095

/-- The bytes of the file at a path. -/
def read (files : FileSystem) (path : String) : Except IoError (List UInt8) :=
  if path.contains '\x00' then .error .nulInPath
  else if path = "" then .error .notFound
  else if longestPath < path.utf8ByteSize then .error .nameTooLong
  else
    match files.root.follow [] (files.components path) with
    | .ok (.file bytes) => .ok bytes
    | .ok (.directory _) => .error .isDirectory
    | .error cause => .error cause

/-- Puts a file or a directory at a path. -/
def insert (files : FileSystem) (path : String) (added : FileTree) : FileSystem :=
  { files with root := added.insertAlong [] files.root (files.components path) }

end FileSystem

end CellMachine
