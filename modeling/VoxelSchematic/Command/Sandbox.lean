import VoxelSchematic.Command.Host
import VoxelSchematic.Gzip.Stored
import Std.Data.HashMap

/-!
# Sandboxes

A host that is a value: a tree of files, and everything that has been said. Commands that run
in a sandbox touch nothing else, so what they do to files can be stated and computed. The members
that they write are not compressed.

* `FileTree.find` walks a path. Every name on the way must be that of a directory, and no name
  and no path may be too long.
* `FileTree.openFile` and `FileTree.createFile` do as a disk would.
* `Sandbox` puts a file tree and a transcript together.
-/

namespace VoxelSchematic

inductive Node where
  | directory
  | file (content : Array UInt8)
deriving Repr, DecidableEq

/-- Files and directories by the names on the way to them. The root is always there. -/
structure FileTree where
  nodes : Std.HashMap (List String) Node := ∅

namespace FileTree

def missing : String := "No such file or directory (os error 2)"

def notDirectory : String := "Not a directory (os error 20)"

def isDirectory : String := "Is a directory (os error 21)"

def nameTooLong : String := "File name too long (os error 36)"

def zeroInside : String := "file name contained an unexpected NUL byte"

def maxName : Nat := 255

def maxPath : Nat := 4095

inductive Obstacle where
  | missing
  | notDirectory
  | nameTooLong
  /-- The path has a zero byte in it, which would end it. -/
  | zeroInside
deriving Repr, DecidableEq

def Obstacle.reason : Obstacle → String
  | .missing => FileTree.missing
  | .notDirectory => FileTree.notDirectory
  | .nameTooLong => FileTree.nameTooLong
  | .zeroInside => FileTree.zeroInside

/-- What opening a file comes to when the walk to it ends early. -/
def Obstacle.opened (o : Obstacle) : Opened :=
  if o = .missing then .missing o.reason else .refused o.reason

def node? (t : FileTree) (names : List String) : Option Node :=
  if names.isEmpty then some .directory else t.nodes[names]?

/-- Where a name leads from a directory. A double dot leads back; no name and a single dot lead
nowhere. -/
def follow (place : List String) (name : String) : List String :=
  if name = ".." then place.dropLast
  else if name = "" ∨ name = "." then place
  else place ++ [name]

/-- Puts a node, with the directories on the way to it. -/
def insert (t : FileTree) (names : List String) (node : Node) : FileTree :=
  let place := names.foldl follow []
  let above := (List.range place.length).map fun n => place.take n
  ⟨(above.foldl (fun nodes above => nodes.insert above .directory) t.nodes).insert place node⟩

/-- One step of a walk, which must start at a directory. -/
def step (t : FileTree) (place : List String) (name : String) : Except Obstacle (List String) :=
  match t.node? place with
  | none => .error .missing
  | some (.file _) => .error .notDirectory
  | some .directory =>
      if maxName < name.utf8ByteSize then .error .nameTooLong else .ok (follow place name)

/-- The place of a path, whether or not there is something. A path that ends in a slash has an
empty name at its end, so its place is a directory. -/
def find (t : FileTree) (path : String) : Except Obstacle (List String) := do
  if '\x00' ∈ path.toList then throw .zeroInside
  if path.isEmpty then throw .missing
  if maxPath < path.utf8ByteSize then throw .nameTooLong
  (path.splitOn "/").foldlM t.step []

def openFile (t : FileTree) (path : String) : Opened :=
  match t.find path with
  | .error obstacle => obstacle.opened
  | .ok place =>
      match t.node? place with
      | none => .missing missing
      | some .directory => .unreadable isDirectory
      | some (.file content) => .bytes content

/-- Creates a file, or empties it, and writes to it. The walk has seen that what holds the file
is a directory. -/
def createFile (t : FileTree) (path : String) (content : Array UInt8) :
    Except String FileTree := do
  let place ← (t.find path).mapError Obstacle.reason
  match t.node? place with
  | some .directory => throw isDirectory
  | _ => return ⟨t.nodes.insert place (.file content)⟩

end FileTree

structure Sandbox where
  files : FileTree := {}
  said : Array Event := #[]

namespace Sandbox

/-- Creates a file; where that fails, the files stay as they are. -/
def createFile (path : String) (content : Array UInt8) (s : Sandbox) :
    Except String Unit × Sandbox :=
  match s.files.createFile path content with
  | .ok files => (.ok (), { s with files })
  | .error reason => (.error reason, s)

instance : Host (StateM Sandbox) where
  openFile path := fun s => (s.files.openFile path, s)
  createFile := createFile
  emit event := fun s => ((), { s with said := s.said.push event })

def records (s : Sandbox) : List LogRecord :=
  s.said.toList.filterMap fun
    | .record r => some r
    | _ => none

def lines (s : Sandbox) : List String :=
  s.said.toList.filterMap fun
    | .line text => some text
    | _ => none

end Sandbox

end VoxelSchematic
