import VoxelSchematic.OrderedMap
import VoxelSchematic.Ieee.Binary
import VoxelSchematic.Tag.Kind

/-!
# The tag tree

* `Tag` is a named-value tree: numbers of six widths, arrays of three, strings, lists whose
  elements share one type, and compounds that map names to tags.
* `Tag.kind` is the type of a tag.
* `Tag.toInteger?` and `Tag.toFloat?` widen any number that fits.
-/

namespace VoxelSchematic

open Ieee

/-- A list that states the type of its elements, also when it has none. -/
structure TypedList (α : Type) where
  element : TagType
  items : List α
deriving Repr, DecidableEq

inductive Tag where
  /-- The marker that closes a compound; as a value it carries nothing. -/
  | terminator
  | byte (value : Int8)
  | short (value : Int16)
  | int (value : Int32)
  | long (value : Int64)
  | float (value : Binary32)
  | double (value : Binary64)
  | byteArray (bytes : Array UInt8)
  | string (text : String)
  | list (items : TypedList Tag)
  | compound (fields : OrderedMap Tag)
  | intArray (values : Array Int32)
  | longArray (values : Array Int64)
deriving Inhabited

abbrev TagList := TypedList Tag

/-- Tags by name, in the order in which the names arrived. -/
abbrev Compound := OrderedMap Tag

namespace Tag

def kind : Tag → TagType
  | .terminator => .terminator
  | .byte _ => .byte
  | .short _ => .short
  | .int _ => .int
  | .long _ => .long
  | .float _ => .float
  | .double _ => .double
  | .byteArray _ => .byteArray
  | .string _ => .string
  | .list _ => .list
  | .compound _ => .compound
  | .intArray _ => .intArray
  | .longArray _ => .longArray

def asByte? : Tag → Option Int8
  | .byte v => some v
  | _ => none

def asShort? : Tag → Option Int16
  | .short v => some v
  | _ => none

def asInt? : Tag → Option Int32
  | .int v => some v
  | _ => none

def asLong? : Tag → Option Int64
  | .long v => some v
  | _ => none

def asFloat? : Tag → Option Binary32
  | .float v => some v
  | _ => none

def asDouble? : Tag → Option Binary64
  | .double v => some v
  | _ => none

def asByteArray? : Tag → Option (Array UInt8)
  | .byteArray bytes => some bytes
  | _ => none

def asString? : Tag → Option String
  | .string text => some text
  | _ => none

def asList? : Tag → Option TagList
  | .list items => some items
  | _ => none

def asCompound? : Tag → Option Compound
  | .compound fields => some fields
  | _ => none

/-- The value of any of the four integer types. -/
def toInteger? : Tag → Option Int64
  | .byte v => some v.toInt64
  | .short v => some v.toInt64
  | .int v => some v.toInt64
  | .long v => some v
  | _ => none

/-- The value of any numeric type; an integer becomes the nearest double. -/
def toFloat? : Tag → Option Binary64
  | .float v => some v.widen
  | .double v => some v
  | tag => tag.toInteger?.map fun n => .ofInt n.toInt

end Tag

/-- The field of a name, if `read` accepts it. -/
def Compound.getAs? {α : Type} (c : Compound) (key : String) (read : Tag → Option α) : Option α :=
  (c.get? key).bind read

namespace Compound

def getByte? (c : Compound) (key : String) : Option Int8 := c.getAs? key Tag.asByte?

def getShort? (c : Compound) (key : String) : Option Int16 := c.getAs? key Tag.asShort?

def getInt? (c : Compound) (key : String) : Option Int32 := c.getAs? key Tag.asInt?

def getLong? (c : Compound) (key : String) : Option Int64 := c.getAs? key Tag.asLong?

def getFloat? (c : Compound) (key : String) : Option Binary32 := c.getAs? key Tag.asFloat?

def getDouble? (c : Compound) (key : String) : Option Binary64 := c.getAs? key Tag.asDouble?

def getString? (c : Compound) (key : String) : Option String := c.getAs? key Tag.asString?

def getByteArray? (c : Compound) (key : String) : Option (Array UInt8) :=
  c.getAs? key Tag.asByteArray?

def getList? (c : Compound) (key : String) : Option TagList := c.getAs? key Tag.asList?

def getCompound? (c : Compound) (key : String) : Option Compound := c.getAs? key Tag.asCompound?

end Compound

end VoxelSchematic
