import Mathlib
import VoxelSchematic.Gzip.Stored

/-!
# Members that are read back

A compressor is lawful if a reader gets from each member what went into it. Storing bytes as they
are is lawful: the reader takes one stored block after the other, and finds the checksum and the
length of what it has taken behind them.

`Inflate.Gives` says what a step of the reader does where nothing goes wrong, so it leaves out how
much counts as delivered.
-/

namespace VoxelSchematic.Gzip

/-- A reader gets back what was compressed, and finds nothing wrong behind it. -/
class Compressor.Lawful [Compressor] : Prop where
  expand_compress (bytes : Array UInt8) :
    expand (Compressor.compress bytes) = ⟨bytes, .exhausted⟩

variable {α β : Type} {input output : Array UInt8} {k n : Nat} {byte : UInt8} {bytes : List UInt8}

/-! ## Bytes at a position -/

/-- An input has the given bytes from a position on. -/
def HasAt (input : Array UInt8) : Nat → List UInt8 → Prop
  | _, [] => True
  | k, byte :: rest => input[k]? = some byte ∧ HasAt input (k + 1) rest

theorem hasAt_append {front back : List UInt8} :
    HasAt input k (front ++ back) ↔ HasAt input k front ∧ HasAt input (k + front.length) back := by
  induction front generalizing k with
  | nil => simp [HasAt]
  | cons byte rest ih =>
      have hlength : k + (byte :: rest).length = k + 1 + rest.length := by
        rw [List.length_cons]
        omega
      rw [List.cons_append, HasAt, HasAt, ih, hlength, and_assoc]

theorem hasAt_toArray (before piece : List UInt8) :
    HasAt (before ++ piece).toArray before.length piece := by
  -- The first byte moves over to what is before.
  induction piece generalizing before with
  | nil => trivial
  | cons byte rest ih =>
      refine ⟨by simp, ?_⟩
      have hrest := ih (before ++ [byte])
      simpa using hrest

theorem length_le_of_hasAt (h : HasAt input k bytes) : bytes.length ≤ input.size - k := by
  induction bytes generalizing k with
  | nil => exact Nat.zero_le _
  | cons byte rest ih =>
      have hin : k < input.size := (Array.getElem?_eq_some_iff.1 h.1).1
      have hrest := ih h.2
      rw [List.length_cons]
      omega

theorem length_littleEndian (width n : Nat) : (littleEndian width n).length = width := by
  induction width generalizing n with
  | zero => rfl
  | succ width ih => rw [littleEndian, List.length_cons, ih]

theorem length_storedBlock (mark : UInt8) (bytes : List UInt8) :
    (storedBlock mark bytes).length = 5 + bytes.length := by
  simp only [storedBlock, List.length_cons, List.length_append, length_littleEndian]
  omega

theorem length_le_storedBlocks (bytes : List UInt8) :
    bytes.length ≤ (storedBlocks bytes).length := by
  induction bytes using storedBlocks.induct with
  | case1 bytes hlong ih =>
      rw [List.length_drop] at ih
      rw [storedBlocks, if_pos hlong, List.length_append, length_storedBlock,
        List.length_take_of_le hlong.le]
      omega
  | case2 bytes hshort =>
      rw [storedBlocks, if_neg hshort, length_storedBlock]
      exact Nat.le_add_left _ 5

theorem word16_eq (h : HasAt input k (littleEndian 2 n)) : word16 input k = .ok (n % 65536) := by
  rcases h with ⟨hlow, hhigh, -⟩
  rw [word16, hlow, hhigh]
  refine congrArg Except.ok ?_
  simp only [UInt8.toNat_ofNat']
  omega

theorem word32_eq (h : HasAt input k (littleEndian 4 n)) :
    word32 input k = .ok (n % UInt32.size) := by
  have hsplit : littleEndian 4 n = littleEndian 2 n ++ littleEndian 2 (n / 65536) := by
    simp only [littleEndian, List.cons_append, List.nil_append, Nat.div_div_eq_div_mul]
  rw [hsplit, hasAt_append, length_littleEndian] at h
  rw [word32, word16_eq h.1, word16_eq h.2]
  refine congrArg Except.ok ?_
  simp only [UInt32.size]
  omega

/-! ## Steps of the reader -/

namespace Inflate

/-- From a bit of the input and an output, the work comes to a value, a later bit and an output,
whatever has been delivered. -/
def Gives (input : Array UInt8) (work : Inflate α) (start : Nat × Array UInt8) (a : α)
    (stop : Nat × Array UInt8) : Prop :=
  ∀ delivered, ∃ delivered',
    work input ⟨start.1, start.2, delivered⟩ = .ok a ⟨stop.1, stop.2, delivered'⟩

theorem gives_pure (a : α) (start : Nat × Array UInt8) : Gives input (pure a) start a start :=
  fun delivered => ⟨delivered, rfl⟩

theorem Gives.bind {work : Inflate α} {next : α → Inflate β} {start mid stop : Nat × Array UInt8}
    {a : α} {b : β} (h : Gives input work start a mid) (hnext : Gives input (next a) mid b stop) :
    Gives input (work >>= next) start b stop := by
  intro delivered
  rcases h delivered with ⟨between, hwork⟩
  rcases hnext between with ⟨delivered', hstop⟩
  refine ⟨delivered', ?_⟩
  simp only [Bind.bind, ReaderT.bind, EStateM.bind, hwork, hstop]

theorem gives_bit {j : Nat} (h : input[k]? = some byte) (hj : j < 8) :
    Gives input bit (8 * k + j, output) ((byte.toNat >>> j) % 2) (8 * k + j + 1, output) := by
  intro delivered
  have hplace : (8 * k + j) / 8 = k := by omega
  have hbit : (8 * k + j) % 8 = j := by omega
  simp only [bit, hplace, hbit, h]
  exact ⟨_, rfl⟩

/-- Bits of one byte. -/
theorem gives_bits {j : Nat} (h : input[k]? = some byte) (hj : j + n ≤ 8) :
    Gives input (bits n) (8 * k + j, output) ((byte.toNat >>> j) % 2 ^ n)
      (8 * k + j + n, output) := by
  induction n generalizing j with
  | zero =>
      rw [Nat.pow_zero, Nat.mod_one]
      exact gives_pure 0 _
  | succ n ih =>
      have hvalue : (byte.toNat >>> j) % 2 ^ (n + 1) =
          (byte.toNat >>> j) % 2 + 2 * ((byte.toNat >>> (j + 1)) % 2 ^ n) := by
        rw [Nat.pow_succ', Nat.mod_mul, Nat.shiftRight_succ]
      have hstop : 8 * k + j + (n + 1) = 8 * k + (j + 1) + n := by omega
      rw [hvalue, hstop]
      have hrest := ih (j := j + 1) (by omega)
      exact (gives_bit h (by omega)).bind (hrest.bind (gives_pure _ _))

theorem gives_byte (h : input[k]? = some byte) :
    Gives input (bits 8) (8 * k, output) byte.toNat (8 * (k + 1), output) := by
  have hbits : Gives input (bits 8) (8 * k + 0, output) _ (8 * k + 0 + 8, output) :=
    gives_bits h (Nat.le_refl (0 + 8))
  rwa [Nat.shiftRight_zero, Nat.mod_eq_of_lt byte.toNat_lt, Nat.add_zero, ← Nat.mul_succ] at hbits

theorem bits_add (m n : Nat) :
    bits (m + n) = do return (← bits m) + 2 ^ m * (← bits n) := by
  induction m with
  | zero => simp only [bits, pure_bind, Nat.zero_add, Nat.pow_zero, Nat.one_mul, bind_pure]
  | succ m ih =>
      rw [Nat.add_right_comm, bits, ih, bits]
      simp only [bind_assoc, pure_bind]
      refine bind_congr fun low => bind_congr fun mid => bind_congr fun high => ?_
      rw [Nat.pow_succ']
      congr 1
      ring

theorem gives_word (hn : n < 65536) (h : HasAt input k (littleEndian 2 n)) :
    Gives input (bits 16) (8 * k, output) n (8 * (k + 2), output) := by
  rcases h with ⟨hlow, hhigh, -⟩
  have hvalue : (UInt8.ofNat n).toNat + 2 ^ 8 * (UInt8.ofNat (n / 256)).toNat = n := by
    simp only [UInt8.toNat_ofNat']
    omega
  rw [bits_add 8 8]
  refine (gives_byte hlow).bind ((gives_byte hhigh).bind ?_)
  rw [hvalue]
  exact gives_pure n _

theorem gives_verbatim (h : HasAt input k bytes) :
    Gives input (verbatim bytes.length) (8 * k, output) ()
      (8 * (k + bytes.length), output ++ bytes.toArray) := by
  induction bytes generalizing k output with
  | nil =>
      have hdone : Gives input (pure ()) (8 * k, output) () (8 * k, output) := gives_pure () _
      simpa [verbatim] using hdone
  | cons byte rest ih =>
      have hpush : Gives input (push (UInt8.ofNat byte.toNat)) (8 * (k + 1), output) ()
          (8 * (k + 1), output.push byte) := by
        rw [UInt8.ofNat_toNat]
        exact fun delivered => ⟨_, rfl⟩
      have hplace : k + (byte :: rest).length = k + 1 + rest.length := by
        rw [List.length_cons]
        omega
      have houtput : output ++ (byte :: rest).toArray = output.push byte ++ rest.toArray := by simp
      rw [hplace, houtput]
      refine (gives_byte h.1).bind (hpush.bind ?_)
      exact ih h.2

/-! ## Stored blocks -/

/-- What is behind the first three bits of a block that is stored. -/
theorem gives_stored (hlength : bytes.length ≤ maxStored)
    (h : HasAt input (k + 1)
      (littleEndian 2 bytes.length ++ littleEndian 2 (0xFFFF - bytes.length) ++ bytes)) :
    Gives input stored (8 * k + 3, output) ()
      (8 * (k + 5 + bytes.length), output ++ bytes.toArray) := by
  unfold maxStored at hlength
  simp only [hasAt_append, List.length_append, length_littleEndian] at h
  rcases h with ⟨⟨hcount, hcomplement⟩, hbytes⟩
  have halign : Gives input align (8 * k + 3, output) () (8 * (k + 1), output) := by
    have hnext : (8 * k + 3 + 7) / 8 * 8 = 8 * (k + 1) := by omega
    exact fun delivered => ⟨delivered, by rw [← hnext]; rfl⟩
  -- The reader asks for two words that are each other's complement, and these are.
  refine halign.bind ((gives_word (by omega) hcount).bind
    ((gives_word (by omega) hcomplement).bind ?_))
  rw [if_pos (by omega)]
  exact gives_verbatim hbytes

/-- A block is taken, and then it is the last one or others follow. -/
theorem gives_block {mark : UInt8} {budget left : Nat} {stop : Nat × Array UInt8}
    (hmark : mark < 2) (hlength : bytes.length ≤ maxStored)
    (h : HasAt input k (storedBlock mark bytes))
    (hnext : Gives input (if mark.toNat = 1 then pure () else blocks budget left)
      (8 * (k + 5 + bytes.length), output ++ bytes.toArray) () stop) :
    Gives input (blocks budget (left + 1)) (8 * k, output) () stop := by
  rcases h with ⟨hbyte, hrest⟩
  have hlt : mark.toNat < 2 := UInt8.lt_iff_toNat_lt.1 hmark
  have hlast : Gives input bit (8 * k, output) mark.toNat (8 * k + 1, output) := by
    have hbit : Gives input bit (8 * k + 0, output) _ (8 * k + 0 + 1, output) :=
      gives_bit hbyte (by decide)
    rwa [Nat.shiftRight_zero, Nat.mod_eq_of_lt hlt] at hbit
  have hform : Gives input (bits 2) (8 * k + 1, output) 0 (8 * k + 3, output) := by
    have hzero : mark.toNat >>> 1 = 0 := by
      rw [Nat.shiftRight_eq_div_pow]
      omega
    have hbits : Gives input (bits 2) (8 * k + 1, output) _ (8 * k + 1 + 2, output) :=
      gives_bits hbyte (by decide)
    rwa [hzero] at hbits
  refine hlast.bind (hform.bind ?_)
  exact (gives_stored hlength hrest).bind hnext

/-- There are not more blocks than bytes, apart from the last one. -/
theorem gives_blocks {left : Nat} (budget : Nat) (h : HasAt input k (storedBlocks bytes))
    (hleft : bytes.length < left) :
    Gives input (blocks budget left) (8 * k, output) ()
      (8 * (k + (storedBlocks bytes).length), output ++ bytes.toArray) := by
  -- The writer's own recursion: a full block in front of the others, or the last one.
  induction bytes using storedBlocks.induct generalizing k output left with
  | case1 bytes hlong ih =>
      rw [storedBlocks, if_pos hlong] at h ⊢
      rw [hasAt_append, length_storedBlock] at h
      have hfirst : (bytes.take maxStored).length = maxStored := List.length_take_of_le hlong.le
      have houtput : output ++ bytes.toArray =
          output ++ (bytes.take maxStored).toArray ++ (bytes.drop maxStored).toArray := by
        simp [Array.append_assoc]
      rw [List.length_append, length_storedBlock, ← Nat.add_assoc, houtput]
      obtain ⟨left, rfl⟩ : ∃ n, left = n + 1 := Nat.exists_eq_add_one.2 (Nat.zero_lt_of_lt hleft)
      refine gives_block (by decide) hfirst.le h.1 ?_
      rw [if_neg (by decide), Nat.add_assoc k 5]
      refine ih h.2 ?_
      rw [List.length_drop]
      unfold maxStored at hlong ⊢
      omega
  | case2 bytes hshort =>
      rw [storedBlocks, if_neg hshort] at h ⊢
      rw [length_storedBlock, ← Nat.add_assoc]
      obtain ⟨left, rfl⟩ : ∃ n, left = n + 1 := Nat.exists_eq_add_one.2 (Nat.zero_lt_of_lt hleft)
      refine gives_block (by decide) (Nat.le_of_not_lt hshort) h ?_
      rw [if_pos (by decide)]
      exact gives_pure () _

end Inflate

/-! ## Whole members -/

theorem skipHeader_plainHeader (rest : List UInt8) :
    skipHeader (plainHeader ++ rest).toArray = .ok plainHeader.length := by
  have hsize : ¬plainHeader.length + rest.length < 10 := Nat.not_lt.2 (Nat.le_add_right 10 _)
  have hflags : (plainHeader ++ rest).toArray.getD 3 0 = 0 := by simp [plainHeader, magic]
  have hmethod : (plainHeader ++ rest).toArray.getD 2 0 = 8 := by simp [plainHeader, magic]
  have hmagic : (plainHeader ++ rest).toArray.toList.take 2 = magic := by simp [plainHeader, magic]
  simp [skipHeader, hsize, hflags, hmethod, hmagic, hasFlag, pure, Except.pure]
  rfl

theorem inflate_of_stored {content : Array UInt8}
    (h : HasAt input k (storedBlocks content.toList)) :
    inflate input k = ⟨content, .ok (k + (storedBlocks content.toList).length)⟩ := by
  have hbudget : content.toList.length < 8 * input.size + 1 := by
    have hroom := length_le_of_hasAt h
    have hle := length_le_storedBlocks content.toList
    omega
  have hgives : Inflate.Gives input _ (8 * k, #[]) () _ :=
    Inflate.gives_blocks (8 * input.size + 1) h hbudget
  rcases hgives 0 with ⟨delivered, hread⟩
  -- The last block ends with a byte, so the next whole byte is the one behind it.
  have hstop : (8 * (k + (storedBlocks content.toList).length) + 7) / 8 =
      k + (storedBlocks content.toList).length := by omega
  simp only [inflate, hread, hstop, Array.empty_append]

theorem trailer_of_hasAt {content : Array UInt8}
    (h : HasAt input k (littleEndian 4 (crc32 content).toNat ++ littleEndian 4 content.size)) :
    trailer input k content = .exhausted := by
  rw [hasAt_append, length_littleEndian] at h
  rcases h with ⟨hchecksum, hlength⟩
  have hcrc : (crc32 content).toNat % UInt32.size = (crc32 content).toNat :=
    Nat.mod_eq_of_lt (crc32 content).toNat_lt
  rw [trailer, word32_eq hchecksum, word32_eq hlength, hcrc]
  exact if_pos ⟨rfl, rfl⟩

/-- Behind a header, stored blocks and what the trailer says about them are a whole member. -/
theorem expand_of_stored {content : Array UInt8} (hheader : skipHeader input = .ok k)
    (h : HasAt input k (storedBlocks content.toList ++ (littleEndian 4 (crc32 content).toNat
      ++ littleEndian 4 content.size))) :
    expand input = ⟨content, .exhausted⟩ := by
  rcases hasAt_append.1 h with ⟨hblocks, htrailer⟩
  simp only [expand, hheader, inflate_of_stored hblocks, trailer_of_hasAt htrailer]

/-- Storing bytes as they are is lawful. -/
instance : Compressor.Lawful where
  expand_compress bytes := by
    let body := storedBlocks bytes.toList ++
      (littleEndian 4 (crc32 bytes).toNat ++ littleEndian 4 bytes.size)
    have hmember : Compressor.compress bytes = (plainHeader ++ body).toArray := by
      simp only [Compressor.compress, body, List.append_assoc]
    rw [hmember]
    exact expand_of_stored (skipHeader_plainHeader body) (hasAt_toArray plainHeader body)

end VoxelSchematic.Gzip
