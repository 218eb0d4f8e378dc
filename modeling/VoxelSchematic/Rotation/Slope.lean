import VoxelSchematic.Rotation.HookChain

/-!
# Carpenter's Blocks

A block of this kind keeps the number of its slope in one field. Slopes that differ only in
where they face form a group, in turning order about the vertical axis; turning a block moves
its slope along the group. Other axes are not supported.
-/

namespace VoxelSchematic.Slope

/-- The groups of slopes, each in turning order: wedges, inner and outer corners, oblique
corners, and prisms. -/
def groups : List (List Int32) :=
  [[0, 1, 2, 3], [4, 6, 5, 7], [8, 10, 9, 11], [12, 13, 14, 15], [16, 17, 18, 19],
    [20, 21, 22, 23], [24, 25, 26, 27], [28, 29, 30, 31], [32, 33, 34, 35], [36, 37, 38, 39],
    [40, 41, 42, 43], [44, 45], [46, 48, 47, 49], [52, 53, 54, 55], [56, 58, 57, 59], [60],
    [61, 63, 62, 64]]

/-- The member of a group that lies some places after a slope, if the slope is in the group. -/
def advance? (group : List Int32) (slope : Int32) (places : Nat) : Option Int32 := do
  let i ← group.idxOf? slope
  group[(i + places) % group.length]?

/-- The slope after some quarter turns; a slope of no group has none. -/
def turned? (slope : Int32) (turns : Nat) : Option Int32 :=
  groups.findSome? fun group => advance? group slope turns

def field : String := "cbMetadata"

/-- The slope that a tree states, with the way back into a field of the same type. Without the
field, it is the first wedge. -/
def ofTree (tree : Compound) : Except TransformError (Int32 × (Int32 → Tag)) :=
  match tree.get? field with
  | none => .ok (0, fun slope => .short slope.toInt16)
  | some (.short v) => .ok (v.toInt32, fun slope => .short slope.toInt16)
  | some (.int v) => .ok (v, .int)
  | some tag => .error (.fieldType field "TAG_Short or TAG_Int" tag.kind)

def unsupported (rotation : AxisRotation) : List Notice :=
  (if rotation.x.val = 0 then []
    else [.warning "X rotation of Carpenter's Blocks is unsupported, ignoring it"])
  ++ (if rotation.z.val = 0 then []
    else [.warning "Z rotation of Carpenter's Blocks is unsupported, ignoring it"])

def unknown (slope : Int32) : Notice :=
  .warning s!"Unknown Carpenter's Blocks slope {slope.toInt}, leaving it unrotated"

/-- Turns a tree about the vertical axis. -/
def transform (tree : Compound) (rotation : AxisRotation) : HookAnswer :=
  let said := unsupported rotation
  if rotation.y.val = 0 then (.ok none, said)
  else
    match ofTree tree with
    | .error fault => (.error fault, said)
    | .ok (slope, tag) =>
        match turned? slope rotation.y with
        | some turned => (.ok (some (tree.insert field (tag turned))), said)
        | none => (.ok none, said ++ [unknown slope])

def hook : Hook := ⟨"TileEntityCarpentersBlock", transform⟩

end VoxelSchematic.Slope
