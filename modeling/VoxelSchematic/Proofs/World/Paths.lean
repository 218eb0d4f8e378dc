import Mathlib
import VoxelSchematic.World.File

/-!
# Paths of chunks

A numeral in base 36 can be read back, and it has no point and no slash in it. So the name of the
file of a chunk can be taken apart into the numerals of its coordinates, and no two chunks of
a world share a file.
-/

namespace VoxelSchematic

namespace Base36

/-! ## Digits -/

/-- The characters that are digits. -/
def IsDigit (c : Char) : Prop := ('0' ≤ c ∧ c ≤ '9') ∨ ('a' ≤ c ∧ c ≤ 'z')

instance : DecidablePred IsDigit := fun c =>
  inferInstanceAs (Decidable (('0' ≤ c ∧ c ≤ '9') ∨ ('a' ≤ c ∧ c ≤ 'z')))

/-- What a digit counts. -/
def weight (c : Char) : Nat := if c ≤ '9' then c.toNat - '0'.toNat else c.toNat - 'a'.toNat + 10

/-- The number that digits spell, the weightiest first. -/
def value (ds : List Char) : Nat := ds.foldl (fun n c => 36 * n + weight c) 0

theorem value_append_singleton (ds : List Char) (c : Char) :
    value (ds ++ [c]) = 36 * value ds + weight c := by
  simp [value]

theorem isDigit_digit {d : Nat} (h : d < 36) : IsDigit (digit d) := by
  revert d
  decide

theorem weight_digit {d : Nat} (h : d < 36) : weight (digit d) = d := by
  revert d
  decide

/-- Digits that spell a number, without zeros in front. -/
structure Spells (ds : List Char) (n : Nat) : Prop where
  ne_nil : ds ≠ []
  isDigit : ∀ c ∈ ds, IsDigit c
  value_eq : value ds = n
  no_leading_zero : ds.head? = some '0' → ds = ['0']

theorem spells_digit {d : Nat} (h : d < 36) : Spells [digit d] d where
  ne_nil := List.cons_ne_nil _ _
  isDigit := by simpa using isDigit_digit h
  value_eq := by simpa [value] using weight_digit h
  no_leading_zero := by simp

/-- A digit behind the digits of a number that is not zero. -/
theorem Spells.append_digit {ds : List Char} {n d : Nat} (h : Spells ds n) (hn : 0 < n)
    (hd : d < 36) : Spells (ds ++ [digit d]) (36 * n + d) where
  ne_nil := by simp
  isDigit := by
    intro c hc
    rcases List.mem_append.1 hc with hc | hc
    · exact h.isDigit c hc
    · rw [List.mem_singleton.1 hc]
      exact isDigit_digit hd
  value_eq := by rw [value_append_singleton, h.value_eq, weight_digit hd]
  no_leading_zero := by
    intro hzero
    have hds : ds = ['0'] := h.no_leading_zero (by
      rwa [List.head?_append_of_ne_nil _ h.ne_nil] at hzero)
    have hvalue : value ['0'] = n := hds ▸ h.value_eq
    exact absurd hvalue (Nat.ne_of_lt hn)

theorem spells_digits (n : Nat) : Spells (digits n) n := by
  induction n using digits.induct with
  | case1 n hlt =>
      rw [digits, if_pos hlt]
      exact spells_digit hlt
  | case2 n hge ih =>
      have hsplit : 36 * (n / 36) + n % 36 = n := Nat.div_add_mod n 36
      have hspells := ih.append_digit (d := n % 36) (by omega) (Nat.mod_lt n (by decide))
      rwa [hsplit, ← show digits n = digits (n / 36) ++ [digit (n % 36)] by
        rw [digits, if_neg hge]] at hspells

/-! ## Numerals -/

/-- The number of a numeral. -/
def number : List Char → Int
  | '-' :: ds => -(value ds)
  | ds => value ds

theorem number_of_ne {ds : List Char} (h : ∀ c ∈ ds, c ≠ '-') : number ds = value ds := by
  unfold number
  split
  · simp at h
  · rfl

theorem number_chars (v : Int) : number (chars v) = v := by
  have hvalue : value (digits v.natAbs) = v.natAbs := (spells_digits v.natAbs).value_eq
  have hsign : ∀ c ∈ digits v.natAbs, c ≠ '-' := by
    rintro _ hc rfl
    exact absurd ((spells_digits v.natAbs).isDigit _ hc) (by decide)
  unfold chars
  split
  · rw [number, hvalue]
    omega
  · rw [number_of_ne hsign, hvalue]
    omega

theorem chars_injective : Function.Injective chars :=
  Function.LeftInverse.injective number_chars

theorem text_injective : Function.Injective text :=
  fun _ _ h => chars_injective (String.ofList_injective h)

theorem chars_ne_nil (v : Int) : chars v ≠ [] := by
  unfold chars
  split
  · simp
  · exact (spells_digits v.natAbs).ne_nil

theorem isDigit_or_sign_of_mem_chars {v : Int} {c : Char} (h : c ∈ chars v) :
    IsDigit c ∨ c = '-' := by
  have hdigits := (spells_digits v.natAbs).isDigit
  unfold chars at h
  split at h
  · rcases List.mem_cons.1 h with rfl | h
    · exact .inr rfl
    · exact .inl (hdigits c h)
  · exact .inl (hdigits c h)

/-- A point or a slash beside a numeral is not taken for a part of it. -/
theorem notMem_chars (v : Int) {c : Char} (hc : ¬(IsDigit c ∨ c = '-')) : c ∉ chars v :=
  fun h => hc (isDigit_or_sign_of_mem_chars h)

end Base36

/-! ## Names on a path -/

/-- The names on the way along a path. A slash more or less between them, and a single dot, make
no difference. -/
def pathNames (path : String) : List String :=
  ((path.toList.splitOn '/').map String.ofList).filter fun name => name ≠ "" ∧ name ≠ "."

/-- A name that is a step of its own on a path. -/
structure PlainName (name : String) : Prop where
  no_slash : '/' ∉ name.toList
  ne_empty : name ≠ ""
  ne_dot : name ≠ "."

theorem pathNames_slash (a b : String) :
    pathNames (a ++ "/" ++ b) = pathNames a ++ pathNames b := by
  have hlist : (a ++ "/" ++ b).toList = a.toList ++ '/' :: b.toList := by simp
  rw [pathNames, hlist, List.splitOn_append_cons_self, List.map_append, List.filter_append]
  rfl

theorem pathNames_empty : pathNames "" = [] := by simp [pathNames]

theorem PlainName.pathNames {name : String} (h : PlainName name) :
    pathNames name = [name] := by
  have hsplit : name.toList.splitOn '/' = [name.toList] := List.splitOn_eq_singleton h.no_slash
  simp [VoxelSchematic.pathNames, hsplit, h.ne_empty, h.ne_dot]

theorem exists_eq_append_slash {directory : String} (h : directory.endsWith "/" = true) :
    ∃ above, directory = above ++ "/" := by
  rw [String.endsWith_eq_endsWith_toSlice, String.Slice.endsWith_string_iff] at h
  obtain ⟨above, habove⟩ := h
  refine ⟨String.ofList above, String.toList_inj.1 ?_⟩
  simpa using habove.symm

/-- Going into a directory adds one name, whether or not a slash stands there already. -/
theorem PlainName.pathNames_pathIn {name : String} (h : PlainName name) (directory : String) :
    VoxelSchematic.pathNames (pathIn directory name) =
      VoxelSchematic.pathNames directory ++ [name] := by
  unfold pathIn
  split
  next hopen =>
    rcases Bool.or_eq_true_iff.1 hopen with hempty | hslash
    · rw [String.isEmpty_iff.1 hempty, String.empty_append, pathNames_empty, h.pathNames,
        List.nil_append]
    · obtain ⟨above, rfl⟩ := exists_eq_append_slash hslash
      calc VoxelSchematic.pathNames (above ++ "/" ++ name)
          = VoxelSchematic.pathNames above ++ [name] := by rw [pathNames_slash, h.pathNames]
        _ = VoxelSchematic.pathNames (above ++ "/" ++ "") ++ [name] := by
          rw [pathNames_slash, pathNames_empty, List.append_nil]
        _ = VoxelSchematic.pathNames (above ++ "/") ++ [name] := by rw [String.append_empty]
  next => rw [pathNames_slash, h.pathNames]

/-! ## The file of a chunk -/

namespace World

/-- The name of the file of a chunk. -/
def fileName (x z : Int32) : String := s!"c.{Base36.text x.toInt}.{Base36.text z.toInt}.dat"

theorem toList_fileName (x z : Int32) :
    (fileName x z).toList =
      'c' :: '.' :: (Base36.chars x.toInt ++ '.' :: (Base36.chars z.toInt ++ ".dat".toList)) := by
  have hfile : fileName x z =
    "c." ++ Base36.text x.toInt ++ "." ++ Base36.text z.toInt ++ ".dat" := rfl
  simp [hfile, Base36.text]

/-- A point ends the first numeral, since there is none in it. -/
theorem takeWhile_chars (v : Int) (rest : List Char) :
    (Base36.chars v ++ '.' :: rest).takeWhile (· ≠ '.') = Base36.chars v := by
  have hpoint : ∀ c ∈ Base36.chars v, decide (c ≠ '.') = true := by
    rintro c hc
    refine decide_eq_true ?_
    rintro rfl
    exact Base36.notMem_chars v (by decide) hc
  rw [List.takeWhile_append_of_pos hpoint]
  simp

theorem fileName_inj {x z x' z' : Int32} (h : fileName x z = fileName x' z') : x = x' ∧ z = z' := by
  have hlist : Base36.chars x.toInt ++ '.' :: (Base36.chars z.toInt ++ ".dat".toList) =
      Base36.chars x'.toInt ++ '.' :: (Base36.chars z'.toInt ++ ".dat".toList) := by
    simpa only [toList_fileName, List.cons.injEq, true_and] using congrArg String.toList h
  have hx : Base36.chars x.toInt = Base36.chars x'.toInt := by
    simpa only [takeWhile_chars] using congrArg (List.takeWhile (· ≠ '.')) hlist
  have hz : Base36.chars z.toInt = Base36.chars z'.toInt := by
    rw [hx] at hlist
    exact List.append_cancel_right (List.cons.inj (List.append_cancel_left hlist)).2
  exact ⟨Int32.toInt_inj.1 (Base36.chars_injective hx),
    Int32.toInt_inj.1 (Base36.chars_injective hz)⟩

theorem plainName_text (v : Int) : PlainName (Base36.text v) where
  no_slash := by
    rw [Base36.text, String.toList_ofList]
    exact Base36.notMem_chars v (by decide)
  ne_empty := by
    intro h
    have hnil : Base36.chars v = [] := by simpa [Base36.text] using congrArg String.toList h
    exact Base36.chars_ne_nil v hnil
  ne_dot := by
    intro h
    have hpoint : Base36.chars v = ['.'] := by simpa [Base36.text] using congrArg String.toList h
    exact Base36.notMem_chars v (c := '.') (by decide) (hpoint ▸ List.mem_singleton.2 rfl)

theorem plainName_fileName (x z : Int32) : PlainName (fileName x z) where
  no_slash := by
    rw [toList_fileName]
    simp [Base36.notMem_chars _ (c := '/') (by decide)]
  ne_empty := by
    intro h
    simpa [toList_fileName] using congrArg String.toList h
  ne_dot := by
    intro h
    simpa [toList_fileName] using congrArg String.toList h

/-- The way to a chunk is the way to the world and three names more. -/
theorem pathNames_chunkPath (world : String) (x z : Int32) :
    pathNames (chunkPath world x z) = pathNames world ++
      [Base36.text (x.toInt % buckets), Base36.text (z.toInt % buckets), fileName x z] := by
  have hpath : chunkPath world x z =
    pathIn (pathIn (pathIn world (Base36.text (x.toInt % buckets)))
      (Base36.text (z.toInt % buckets))) (fileName x z) := rfl
  rw [hpath, (plainName_fileName x z).pathNames_pathIn, (plainName_text _).pathNames_pathIn,
    (plainName_text _).pathNames_pathIn]
  simp

/-- A coordinate is written as a sign, if it is negative, and the digits of its size, so different
coordinates have different numerals. The directories of a chunk are named for its coordinates
modulo 64, and chunks of one world with the same path are the same chunk, even if paths are
compared name by name. -/
theorem chunkPath_apart :
    (∀ v : Int32, ∃ ds, Base36.Spells ds v.toInt.natAbs ∧
        Base36.text v.toInt = String.ofList (if v < 0 then '-' :: ds else ds)) ∧
      (∀ v w : Int32, Base36.text v.toInt = Base36.text w.toInt → v = w) ∧
      (∀ (world : String) (x z : Int32), pathNames (chunkPath world x z) = pathNames world ++
        [Base36.text (x.toInt % 64), Base36.text (z.toInt % 64), fileName x z]) ∧
      (∀ v w : Int32, Base36.text (v.toInt % 64) = Base36.text (w.toInt % 64) ↔
        v.toInt % 64 = w.toInt % 64) ∧
      ∀ (world : String) (x z x' z' : Int32),
        (chunkPath world x z = chunkPath world x' z' → x = x' ∧ z = z') ∧
        (pathNames (chunkPath world x z) = pathNames (chunkPath world x' z') →
          x = x' ∧ z = z') := by
  have hnames (world : String) (x z x' z' : Int32)
      (h : pathNames (chunkPath world x z) = pathNames (chunkPath world x' z')) :
      x = x' ∧ z = z' := by
    rw [pathNames_chunkPath, pathNames_chunkPath] at h
    have hfile : fileName x z = fileName x' z' := by simpa using congrArg List.getLast? h
    exact fileName_inj hfile
  refine ⟨fun v => ⟨_, Base36.spells_digits _, ?_⟩, fun v w h => ?_, pathNames_chunkPath,
    fun v w => Base36.text_injective.eq_iff, fun world x z x' z' => ⟨fun h => ?_, hnames _ _ _ _ _⟩⟩
  · have hsign : v < 0 ↔ v.toInt < 0 := Int32.lt_iff_toInt_lt
    rw [Base36.text, Base36.chars]
    simp only [hsign]
  · exact Int32.toInt_inj.1 (Base36.text_injective h)
  · exact hnames world x z x' z' (by rw [h])

/-- Two chunks in the same directory, the coordinates of one being those of the other in the
opposite order. -/
theorem chunkPath_exchanged :
    (-1 : Int32).toInt % 64 = (63 : Int32).toInt % 64 ∧
      chunkPath "/world" (-1) 63 ≠ chunkPath "/world" 63 (-1) := by
  obtain ⟨-, -, -, -, hapart⟩ := chunkPath_apart
  refine ⟨by decide, fun h => ?_⟩
  obtain ⟨hx, -⟩ := (hapart "/world" (-1) 63 63 (-1)).1 h
  exact absurd hx (by decide)

example : Base36.text Int32.minValue.toInt = "-zik0zk" := by cbv

end World

end VoxelSchematic
