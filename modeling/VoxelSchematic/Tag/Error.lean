import VoxelSchematic.Tag.Kind

/-!
# Faults of the tag tree

What can be wrong with a tag, a list or a stream of tags. `TagError.message` is the wording of
each; `TagError.isFormat` holds of all but a failing medium.
-/

namespace VoxelSchematic

inductive TagError where
  /-- The medium under the stream failed. -/
  | io (reason : String)
  /-- The stream ended inside a tag. -/
  | truncated
  | invalidTagType (id : UInt8)
  | negativeLength (length : Int32)
  /-- A list of terminators may only be empty. -/
  | nonEmptyTerminatorList (length : Int32)
  | listElementMismatch (declared found : TagType)
  | invalidUtf8
  | depthLimitExceeded
  /-- A string of more bytes than its length field can state. -/
  | stringTooLong (bytes : Nat)
deriving Repr, DecidableEq, Inhabited

namespace TagError

def message : TagError → String
  | .io reason => s!"IO error: {reason}"
  | .truncated => "tag stream ended unexpectedly"
  | .invalidTagType id => s!"invalid tag type: {id.toNat}"
  | .negativeLength length => s!"negative length prefix: {length.toInt}"
  | .nonEmptyTerminatorList length => s!"list of End tags declares {length.toInt} elements"
  | .listElementMismatch declared found =>
      s!"list declared as {declared.name} holds a {found.name} element"
  | .invalidUtf8 => "string is not valid UTF-8"
  | .depthLimitExceeded => "tag nesting exceeds 512 levels"
  | .stringTooLong bytes => s!"string of {bytes} bytes does not fit a 16-bit length prefix"

/-- Whether the fault lies in the data rather than in the medium. -/
def isFormat : TagError → Bool
  | .io _ => false
  | _ => true

end TagError

end VoxelSchematic
