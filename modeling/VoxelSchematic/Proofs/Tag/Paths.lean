import VoxelSchematic.Proofs.Tag.Nodes

/-!
# Paths in a tree

A path is the list of positions by which one goes down from a tag to one of the tags inside it.

* `Tag.face?` is what a path leads to, without what lies further down.
* `Tag.amendAt` changes the tag at the end of a path, and `face?_amendAt_self` and
  `face?_amendAt_of_ne` say what a path then leads to.
* `Tag.ext_face` is extensionality: trees in which all paths lead to the same are the same.
-/

namespace VoxelSchematic.Tag

/-- A tag with other tags in the places of its children. -/
def withChildren : Tag → List Tag → Tag
  | .list ⟨element, _⟩, items => .list ⟨element, items⟩
  | .compound ⟨entries⟩, values =>
      .compound ⟨List.zipWith (fun entry value => (entry.1, value)) entries values⟩
  | tag, _ => tag

/-- A tag without what lies below it: its type, its names or its length, or its value. -/
def rim (tag : Tag) : Tag := tag.withChildren (tag.children.map fun _ => .terminator)

/-- What a path leads to, without what lies further down. -/
def face? : Tag → List Nat → Option Tag
  | tag, [] => some tag.rim
  | tag, i :: path => tag.children[i]?.bind fun child => child.face? path

/-- Changes the tag at the end of a path; a path that leads nowhere changes nothing. -/
def amendAt (f : Tag → Tag) : Tag → List Nat → Tag
  | tag, [] => f tag
  | tag, i :: path => tag.withChildren (tag.children.modify i fun child => child.amendAt f path)

variable {tag a b : Tag} {values others : List Tag} {path other : List Nat} {f : Tag → Tag}

/-! ## Children -/

theorem withChildren_children (tag : Tag) : tag.withChildren tag.children = tag := by
  cases tag with
  | compound fields =>
      rcases fields with ⟨entries⟩
      have hsame : List.zipWith (fun entry value => (entry.1, value)) entries
          (entries.map Prod.snd) = entries :=
        List.ext_getElem (by simp) fun i _ _ => by simp
      exact congrArg (fun entries => Tag.compound ⟨entries⟩) hsame
  | _ => rfl

theorem children_withChildren (h : values.length = tag.children.length) :
    (tag.withChildren values).children = values := by
  cases tag with
  | list l => rfl
  | compound fields =>
      rcases fields with ⟨entries⟩
      simp only [children, List.length_map] at h
      apply List.ext_getElem
      · simp [withChildren, children, h]
      · intro i hi _
        simp [withChildren, children]
  | _ => exact (List.length_eq_zero_iff.1 h).symm

theorem withChildren_withChildren (h : values.length = tag.children.length) :
    (tag.withChildren values).withChildren others = tag.withChildren others := by
  cases tag with
  | compound fields =>
      rcases fields with ⟨entries⟩
      simp only [children, List.length_map] at h
      simp only [withChildren]
      congr 2
      apply List.ext_getElem
      · simp [h]
      · intro i hi _
        simp
  | _ => rfl

theorem rim_withChildren (h : values.length = tag.children.length) :
    (tag.withChildren values).rim = tag.rim := by
  have hnone : (values.map fun _ => Tag.terminator) = tag.children.map fun _ => .terminator := by
    simp only [List.map_const', h]
  rw [rim, children_withChildren h, hnone, withChildren_withChildren h, rim]

theorem withChildren_rim (tag : Tag) : tag.rim.withChildren tag.children = tag := by
  rw [rim, withChildren_withChildren (by simp), withChildren_children]

theorem length_children_of_rim (h : a.rim = b.rim) : a.children.length = b.children.length := by
  have hlength : ∀ tag : Tag, tag.rim.children.length = tag.children.length := by
    intro tag
    rw [rim, children_withChildren (by simp), List.length_map]
  rw [← hlength a, h, hlength b]

/-! ## Paths -/

/-- Trees in which all paths lead to the same are the same. -/
theorem ext_face (h : ∀ path, a.face? path = b.face? path) : a = b := by
  induction a using byLayers generalizing b with
  | layer a ih =>
      have hrim : a.rim = b.rim := Option.some.inj (h [])
      have hlength := length_children_of_rim hrim
      have hchildren : a.children = b.children := by
        apply List.ext_getElem hlength
        intro i ha hb
        apply ih _ (List.getElem_mem ha)
        intro path
        have hpath := h (i :: path)
        rwa [face?, face?, List.getElem?_eq_getElem ha, List.getElem?_eq_getElem hb] at hpath
      calc
        a = a.rim.withChildren a.children := (withChildren_rim a).symm
        _ = b.rim.withChildren b.children := by rw [hrim, hchildren]
        _ = b := withChildren_rim b

theorem face?_amendAt_self (hrim : ∀ tag, (f tag).rim = f tag.rim) :
    (tag.amendAt f path).face? path = (tag.face? path).map f := by
  induction path generalizing tag with
  | nil => exact congrArg some (hrim tag)
  | cons i path ih =>
      rw [amendAt, face?, children_withChildren (by simp), List.getElem?_modify_eq, face?]
      cases tag.children[i]? with
      | none => rfl
      | some child => exact ih

/-- A change of one tag is not seen on any other path, if the tag keeps its children. -/
theorem face?_amendAt_of_ne (hchildren : ∀ tag, (f tag).children = tag.children)
    (h : path ≠ other) : (tag.amendAt f path).face? other = tag.face? other := by
  induction path generalizing tag other with
  | nil =>
      cases other with
      | nil => exact absurd rfl h
      | cons j other => rw [amendAt, face?, hchildren, face?]
  | cons i path ih =>
      cases other with
      | nil => exact congrArg some (rim_withChildren (by simp))
      | cons j other =>
          rw [amendAt, face?, children_withChildren (by simp), List.getElem?_modify, face?]
          -- The paths part here or further down.
          by_cases hij : i = j
          · have hpath : path ≠ other := fun hsame => h (by rw [hij, hsame])
            cases tag.children[j]? with
            | none => rfl
            | some child => simp [hij, ih hpath]
          · simp [hij]

end VoxelSchematic.Tag
