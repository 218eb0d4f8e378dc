import VoxelSchematic.Command.Basic
import VoxelSchematic.Command.Host
import VoxelSchematic.Command.Run
import VoxelSchematic.Command.Sandbox
import VoxelSchematic.Content.Cell
import VoxelSchematic.Content.Clipboard
import VoxelSchematic.Content.Store
import VoxelSchematic.Gzip.Checksum
import VoxelSchematic.Gzip.Inflate
import VoxelSchematic.Gzip.Member
import VoxelSchematic.Gzip.Stored
import VoxelSchematic.IndexedMap
import VoxelSchematic.Ieee.Binary
import VoxelSchematic.Ieee.Format
import VoxelSchematic.Ieee.Shortest
import VoxelSchematic.Json.Float
import VoxelSchematic.Json.Reader
import VoxelSchematic.Json.Value
import VoxelSchematic.Json.Writer
import VoxelSchematic.Main
import VoxelSchematic.NibblePlane
import VoxelSchematic.OrderedMap
import VoxelSchematic.Registry.Basic
import VoxelSchematic.Registry.Document
import VoxelSchematic.Registry.IdTable
import VoxelSchematic.Report
import VoxelSchematic.Rotation.Basic
import VoxelSchematic.Rotation.Bundled
import VoxelSchematic.Rotation.HookChain
import VoxelSchematic.Rotation.Shape
import VoxelSchematic.Rotation.Slope
import VoxelSchematic.Schematic.Decoded
import VoxelSchematic.Schematic.Encoded
import VoxelSchematic.Schematic.Error
import VoxelSchematic.Schematic.Field
import VoxelSchematic.Schematic.IdField
import VoxelSchematic.Schematic.Placement
import VoxelSchematic.Schematic.RemapTable
import VoxelSchematic.Schematic.Stream
import VoxelSchematic.Space.BlockPos
import VoxelSchematic.Space.Document
import VoxelSchematic.Space.Region
import VoxelSchematic.Tag.Basic
import VoxelSchematic.Tag.Equality
import VoxelSchematic.Tag.Error
import VoxelSchematic.Tag.Kind
import VoxelSchematic.Tag.List
import VoxelSchematic.Tag.Required
import VoxelSchematic.Text.Blank
import VoxelSchematic.Text.Quoted
import VoxelSchematic.Text.Unprintable
import VoxelSchematic.Wire.BigEndian
import VoxelSchematic.Wire.Decode
import VoxelSchematic.Wire.Encode
import VoxelSchematic.Wire.File
import VoxelSchematic.World.Base36
import VoxelSchematic.World.Chunk
import VoxelSchematic.World.Error
import VoxelSchematic.World.File
import VoxelSchematic.Proofs.IndexedMap
import VoxelSchematic.Proofs.Tag.Nodes
import VoxelSchematic.Proofs.Tag.Fields
import VoxelSchematic.Proofs.Tag.Paths
import VoxelSchematic.Proofs.Wire.Words
import VoxelSchematic.Proofs.Wire.Reading
import VoxelSchematic.Proofs.Wire.Transcript
import VoxelSchematic.Proofs.Tag.Settled
import VoxelSchematic.Proofs.Wire.Settling
import VoxelSchematic.Proofs.Tag.Built
import VoxelSchematic.Proofs.Wire.Prompt
import VoxelSchematic.Proofs.Wire.RoundTrip
import VoxelSchematic.Proofs.Schematic.RoundTrip
import VoxelSchematic.Proofs.Schematic.Translation
import VoxelSchematic.Proofs.Schematic.Accepted
import VoxelSchematic.Proofs.Schematic.Saving
import VoxelSchematic.Proofs.Schematic.Remapping
import VoxelSchematic.Proofs.Schematic.Shortcuts
import VoxelSchematic.Proofs.Wire.Depth
import VoxelSchematic.Proofs.Schematic.Stream
import VoxelSchematic.Proofs.World.Columns
import VoxelSchematic.Proofs.Schematic.Places
import VoxelSchematic.Proofs.Schematic.Refilling
import VoxelSchematic.Proofs.Schematic.Surveying
import VoxelSchematic.Proofs.Ieee.Same
import VoxelSchematic.Proofs.Tag.Same
import VoxelSchematic.Proofs.Schematic.TwinTrees
import VoxelSchematic.Proofs.Schematic.FieldOrder
import VoxelSchematic.Proofs.Notices
import VoxelSchematic.Proofs.Schematic.Offers
import VoxelSchematic.Proofs.Schematic.Faults
import VoxelSchematic.Proofs.Schematic.Written
import VoxelSchematic.Proofs.Schematic.StatedCells
import VoxelSchematic.Proofs.Schematic.Sections
import VoxelSchematic.Proofs.Schematic.Naming
import VoxelSchematic.Proofs.Rotation.HookChain
import VoxelSchematic.Proofs.Rotation.QuarterTurns
import VoxelSchematic.Proofs.Rotation.Slope
import VoxelSchematic.Proofs.Rotation.Shape
import VoxelSchematic.Proofs.Rotation.Turning
import VoxelSchematic.Proofs.Tag.Equality
import VoxelSchematic.Proofs.Schematic.Homogeneous
import VoxelSchematic.Proofs.Space.Indexing
import VoxelSchematic.Proofs.Content.Clipboard
import VoxelSchematic.Proofs.Json.Objects
import VoxelSchematic.Proofs.Registry.Document
import VoxelSchematic.Proofs.NibblePlane
import VoxelSchematic.Proofs.Schematic.Filling
import VoxelSchematic.Proofs.Schematic.Emptying
import VoxelSchematic.Proofs.World.Paths
import VoxelSchematic.Proofs.Wire.LongTexts
import VoxelSchematic.Proofs.Schematic.ShortTexts
import VoxelSchematic.Proofs.Gzip.Stored
import VoxelSchematic.Proofs.Command.Remap
