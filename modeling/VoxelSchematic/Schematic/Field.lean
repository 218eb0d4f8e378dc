/-!
# Field names and limits of the schematic format
-/

namespace VoxelSchematic.Schematic

def rootName : String := "Schematic"

/-- The only value that the field `Materials` may have. -/
def alpha : String := "Alpha"

/-- The longest side; sizes are stored as unsigned numbers of sixteen bits. -/
def maxSide : Nat := 65535

/-- The highest block number that the planes can hold. -/
def maxBlockId : UInt16 := 0x0FFF

namespace Field

def width : String := "Width"

def height : String := "Height"

def length : String := "Length"

def materials : String := "Materials"

def blocks : String := "Blocks"

def data : String := "Data"

/-- The bits from the ninth on of block numbers. -/
def addBlocks : String := "AddBlocks"

/-- Another place for the same bits, which has precedence. -/
def addBlocks2 : String := "AddBlocks2"

/-- The high bytes of data values. -/
def extraData : String := "ExtraData"

/-- Another place for the same bytes, where the first is missing. -/
def addData : String := "AddData"

def origin : List String := ["WEOriginX", "WEOriginY", "WEOriginZ"]

def offset : List String := ["WEOffsetX", "WEOffsetY", "WEOffsetZ"]

def tileEntities : String := "TileEntities"

def entities : String := "Entities"

def blockMapping : String := "BlockMapping"

def itemMapping : String := "ItemMapping"

end Field

end VoxelSchematic.Schematic
