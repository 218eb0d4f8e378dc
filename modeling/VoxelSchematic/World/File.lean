import VoxelSchematic.Wire.File
import VoxelSchematic.World.Base36
import VoxelSchematic.World.Chunk

/-!
# Files of a world

A world keeps each chunk in a file of its own. The files lie in two levels of directories that
are named for the coordinates of the chunk modulo 64.

* `Opened` says what comes of opening a file.
* `World.chunkPath` is the path of the file of a chunk.
* `World.chunkTree` and `World.chunk` read a chunk from what comes of opening its file.
-/

namespace VoxelSchematic

/-- What comes of opening a file. -/
inductive Opened where
  /-- There is nothing under the path. -/
  | missing (reason : String)
  /-- There is something under the path, or on the way to it, that cannot be opened. -/
  | refused (reason : String)
  /-- The file is open, but nothing can be read from it. -/
  | unreadable (reason : String)
  | bytes (content : Array UInt8)
deriving Repr, DecidableEq

def pathIn (directory name : String) : String :=
  if directory.isEmpty || directory.endsWith "/" then directory ++ name
  else directory ++ "/" ++ name

namespace World

/-- The number of directories on each level. -/
def buckets : Int := 64

/-- The names on the way from the directory of a world to the file of a chunk. -/
def chunkNames (x z : Int32) : List String :=
  [Base36.text (x.toInt % buckets), Base36.text (z.toInt % buckets),
    s!"c.{Base36.text x.toInt}.{Base36.text z.toInt}.dat"]

def chunkPath (world : String) (x z : Int32) : String := (chunkNames x z).foldl pathIn world

/-- The tree with the contents of a chunk, in the root of its file. -/
def level (file : TagFile) : Except ChunkError Compound :=
  match file.root with
  | .compound root => Chunk.required root "Level" .compound Tag.asCompound?
  | tag => .error (.wrongTagType file.name .compound tag.kind)

def loadingNote (path : String) (x z : Int32) : String :=
  s!"loading chunk ({x.toInt}, {z.toInt}) from {path}"

/-- The tree of a chunk, from what comes of opening its file. -/
def chunkTree (world : String) (x z : Int32) (opened : Opened) : Telling ChunkError Compound := do
  match opened with
  | .missing _ => throw (.missingChunk x z)
  | .refused reason => throw (.io reason)
  | .unreadable reason => do
      Telling.log .debug (loadingNote (chunkPath world x z) x z)
      throw (.io reason)
  | .bytes content => do
      Telling.log .debug (loadingNote (chunkPath world x z) x z)
      let file ← .ofExcept ((TagFile.ofGzip content).mapError .ofTag)
      .ofExcept (level file)

def chunk (world : String) (x z : Int32) (opened : Opened) : Telling ChunkError Chunk := do
  .ofExcept (Chunk.ofTree (← chunkTree world x z opened))

end World

end VoxelSchematic
