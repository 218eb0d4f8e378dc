import VoxelSchematic.Tag.Basic
import VoxelSchematic.Tag.Error

/-!
# Lists of tags

* `TagList.ofItems` and `TagList.infer` build a list and refuse an element of another type.
* `TagList.push` appends; an empty list of terminators first takes the type of its element.
  `TagList.pushInPlace` does the same to a list that it changes on the way.
* `TagList.mapCompounds` rewrites the compounds and leaves everything else. With
  `TagList.mapCompoundsM`, what becomes of one may depend on those before it.
* `TagList.Uniform` says that every element has the declared type.
-/

namespace VoxelSchematic

open Ieee

namespace TagList

def empty (element : TagType) : TagList := ⟨element, []⟩

/-- Every element has the declared type. -/
def Uniform (l : TagList) : Prop := ∀ tag ∈ l.items, tag.kind = l.element

/-- A list of a declared type; the first element of another type is refused. -/
def ofItems (element : TagType) (items : List Tag) : Except TagError TagList :=
  match items.find? fun tag => tag.kind != element with
  | some stray => .error (.listElementMismatch element stray.kind)
  | none => .ok ⟨element, items⟩

/-- The type of the first element, or that of an empty list of unknown type. -/
def leadingKind (items : List Tag) : TagType := (items.head?.map Tag.kind).getD .terminator

def infer (items : List Tag) : Except TagError TagList := ofItems (leadingKind items) items

def ofCompounds (items : List Compound) : TagList := ⟨.compound, items.map .compound⟩

def ofDoubles (values : List Binary64) : TagList := ⟨.double, values.map .double⟩

def ofFloats (values : List Binary32) : TagList := ⟨.float, values.map .float⟩

def length (l : TagList) : Nat := l.items.length

def isEmpty (l : TagList) : Bool := l.items.isEmpty

def get? (l : TagList) (i : Nat) : Option Tag := l.items[i]?

/-- The type that `push` demands of a new element. -/
def admits (l : TagList) (tag : Tag) : TagType :=
  if l.items.isEmpty && l.element == .terminator then tag.kind else l.element

/-- Appends an element of the type that the list admits. -/
def push (l : TagList) (tag : Tag) : Except TagError TagList :=
  let element := l.admits tag
  if tag.kind = element then .ok ⟨element, l.items ++ [tag]⟩
  else .error (.listElementMismatch element tag.kind)

/-- Appends to a list in its place. A list of terminators without elements takes the type of the
new one before that is checked. -/
def pushInPlace (tag : Tag) : EStateM TagError TagList Unit := do
  let l ← get
  if l.items.isEmpty && l.element == .terminator then set { l with element := tag.kind }
  let l ← get
  if tag.kind ≠ l.element then throw (.listElementMismatch l.element tag.kind)
  set { l with items := l.items ++ [tag] }

def compounds (l : TagList) : List Compound := l.items.filterMap Tag.asCompound?

/-- Rewrites the elements that are compounds. -/
def mapCompounds (l : TagList) (f : Compound → Compound) : TagList :=
  ⟨l.element, l.items.map fun
    | .compound fields => .compound (f fields)
    | tag => tag⟩

def rewriteElement {m : Type → Type} [Monad m] (f : Compound → m Compound) : Tag → m Tag
  | .compound fields => .compound <$> f fields
  | tag => pure tag

/-- Rewrites the elements that are compounds, one after the other. -/
def mapCompoundsM {m : Type → Type} [Monad m] (l : TagList) (f : Compound → m Compound) :
    m TagList := do
  return ⟨l.element, ← l.items.mapM (rewriteElement f)⟩

/-- The number at a position, zero where there is none. -/
def floatAt (l : TagList) (i : Nat) : Binary64 := ((l.get? i).bind Tag.toFloat?).getD .zero

theorem uniform_empty (element : TagType) : (empty element).Uniform := by
  intro tag h
  cases h

theorem uniform_of_ofItems {element : TagType} {items : List Tag} {l : TagList}
    (h : ofItems element items = .ok l) : l.Uniform := by
  unfold ofItems at h
  split at h
  · cases h
  · next all =>
      cases h
      intro tag here
      simpa using List.find?_eq_none.1 all tag here

/-- A list that already has elements admits their type only. -/
theorem admits_of_mem {l : TagList} {other : Tag} (here : other ∈ l.items) (tag : Tag) :
    l.admits tag = l.element := by
  cases items : l.items with
  | nil => simp [items] at here
  | cons first rest => simp [admits, items]

theorem Uniform.push {l l' : TagList} {tag : Tag} (uniform : l.Uniform) (h : l.push tag = .ok l') :
    l'.Uniform := by
  by_cases fits : tag.kind = l.admits tag
  · have made : l' = ⟨l.admits tag, l.items ++ [tag]⟩ := by simpa [TagList.push, fits] using h.symm
    subst made
    intro other here
    rcases List.mem_append.1 here with old | new
    · exact (uniform other old).trans (admits_of_mem old tag).symm
    · rw [List.mem_singleton.1 new]
      exact fits
  · simp [TagList.push, fits] at h

theorem uniform_ofCompounds (items : List Compound) : (ofCompounds items).Uniform := by
  intro tag here
  obtain ⟨fields, -, rfl⟩ := List.mem_map.1 here
  rfl

theorem Uniform.mapCompounds {l : TagList} (uniform : l.Uniform) (f : Compound → Compound) :
    (l.mapCompounds f).Uniform := by
  intro tag here
  obtain ⟨before, there, rfl⟩ := List.mem_map.1 here
  rw [show (l.mapCompounds f).element = before.kind from (uniform before there).symm]
  cases before <;> rfl

end TagList

end VoxelSchematic
