import VoxelSchematic.Json.Reader
import VoxelSchematic.Json.Writer
import VoxelSchematic.Proofs.Text.Bytes

/-!
# Texts in quotes, there and back

What is written for a text is read as the text again, whatever characters it has.

* `Spelled` are the three ways in which a character stands between quotes: as it is, as a letter
  behind a backslash, or as a unit in base sixteen. `spelled_escaped` says that the writer keeps to
  them.
* `raw_ofText`: a scan takes a written text up to its closing quote.
* `text?_ofText`: the written text means the text.
-/

namespace VoxelSchematic.Json

open Text

variable {c : Char} {byte : UInt8} {bytes rest : List UInt8} {done : Array UInt8}

/-! ## How characters are written -/

/-- The byte stands for itself between quotes. -/
def Plain (byte : UInt8) : Prop := 32 ≤ byte ∧ byte ≠ 34 ∧ byte ≠ 92

theorem plain_of_mem_utf8EncodeChar (h : 32 ≤ c.toNat) (hquote : c ≠ '"') (hbackslash : c ≠ '\\')
    (hbyte : byte ∈ String.utf8EncodeChar c) : Plain byte := by
  by_cases hlarge : 128 ≤ c.toNat
  · have hmarked := le_of_mem_utf8EncodeChar hlarge hbyte
    exact ⟨by grind, by grind, by grind⟩
  · rw [utf8EncodeChar_of_lt (Nat.lt_of_not_le hlarge), List.mem_singleton] at hbyte
    have hnumber : byte.toNat = c.toNat := by
      rw [hbyte, UInt8.toNat_ofNat_of_lt' (show c.toNat < 256 by omega)]
    refine ⟨?_, fun heq => hquote (Char.toNat_inj.1 ?_), fun heq => hbackslash (Char.toNat_inj.1 ?_)⟩
    · rw [UInt8.le_iff_toNat_le, hnumber]
      exact h
    · rw [← hnumber, heq]
      rfl
    · rw [← hnumber, heq]
      rfl

/-- How a character can stand between quotes. -/
inductive Spelled (c : Char) : List UInt8 → Prop
  | plain (h : ∀ byte ∈ String.utf8EncodeChar c, Plain byte) : Spelled c (String.utf8EncodeChar c)
  | letter {letter byte : UInt8} (h : escapedByte? letter = some byte)
      (hc : String.utf8EncodeChar c = [byte]) : Spelled c [92, letter]
  | unit {high low : UInt8} (h : hexUnit? 48 48 high low = some c.toNat) (hc : c.toNat < 32) :
      Spelled c [92, 117, 48, 48, high, low]

/-- The byte of a digit in base sixteen. -/
def hexByte (n : Nat) : UInt8 := UInt8.ofNat (hexDigit n).toNat

/-- The unit of a control character is read as its number. -/
theorem hexUnit?_hexByte : ∀ n < 32,
    utf8 [hexDigit (n / 16), hexDigit (n % 16)] = [hexByte (n / 16), hexByte (n % 16)] ∧
      hexUnit? 48 48 (hexByte (n / 16)) (hexByte (n % 16)) = some n := by
  decide

theorem spelled_escaped (c : Char) : Spelled c (utf8 (escaped c)) := by
  unfold escaped
  split
  · next h =>
      subst h
      exact @Spelled.letter _ 34 _ rfl rfl
  split
  · next h =>
      subst h
      exact @Spelled.letter _ 92 _ rfl rfl
  split
  · next h =>
      subst h
      exact @Spelled.letter _ 110 _ rfl rfl
  split
  · next h =>
      subst h
      exact @Spelled.letter _ 114 _ rfl rfl
  split
  · next h =>
      subst h
      exact @Spelled.letter _ 116 _ rfl rfl
  split
  · next h =>
      obtain rfl : c = Char.ofNat 8 := Char.toNat_inj.1 h
      exact @Spelled.letter _ 98 _ rfl rfl
  split
  · next h =>
      obtain rfl : c = Char.ofNat 12 := Char.toNat_inj.1 h
      exact @Spelled.letter _ 102 _ rfl rfl
  split
  · next h =>
      rcases hexUnit?_hexByte c.toNat h with ⟨hbytes, hunit⟩
      have hwritten : utf8 ['\\', 'u', '0', '0', hexDigit (c.toNat / 16), hexDigit (c.toNat % 16)] =
          [92, 117, 48, 48] ++ [hexByte (c.toNat / 16), hexByte (c.toNat % 16)] := by
        rw [← hbytes]
        rfl
      rw [hwritten]
      exact .unit hunit h
  · next hquote hbackslash _ _ _ _ _ hlow =>
      have hone : utf8 [c] = String.utf8EncodeChar c := List.append_nil _
      rw [hone]
      exact .plain fun byte => plain_of_mem_utf8EncodeChar (Nat.le_of_not_lt hlow) hquote hbackslash

/-! ## How they are read -/

theorem rawFrom_plain (h : Plain byte) (rest : List UInt8) (done : Array UInt8) :
    Scan.rawFrom (byte :: rest) done = Scan.rawFrom rest (done.push byte) := by
  rcases h with ⟨hlow, hquote, hbackslash⟩
  have hstays : (decide (byte < 32) || byte == 92) = false := by
    rw [decide_eq_false (UInt8.not_lt.2 hlow), beq_false_of_ne hbackslash]
    rfl
  rw [Scan.rawFrom, hstays]
  · rfl
  · exact hquote
  · exact fun _ _ _ _ _ heq => absurd heq hbackslash
  · exact fun _ _ heq => absurd heq hbackslash

theorem rawFrom_plains (h : ∀ byte ∈ bytes, Plain byte) (rest : List UInt8) (done : Array UInt8) :
    Scan.rawFrom (bytes ++ rest) done = Scan.rawFrom rest (done ++ bytes) := by
  induction bytes generalizing done with
  | nil => simp
  | cons byte bytes ih =>
      rw [List.forall_mem_cons] at h
      rw [List.cons_append, rawFrom_plain h.1, ih h.2]
      rfl

/-- A character is scanned as it is written. -/
theorem rawFrom_spelled (h : Spelled c bytes) (rest : List UInt8) (done : Array UInt8) :
    Scan.rawFrom (bytes ++ rest) done = Scan.rawFrom rest (done ++ bytes) := by
  cases h with
  | plain h => exact rawFrom_plains h rest done
  | @letter letter byte h hc =>
      have hunit : letter ≠ 117 := by
        rintro rfl
        cases h
      rw [List.cons_append, List.singleton_append, Scan.rawFrom, h]
      · rfl
      · exact fun _ _ _ _ _ heq => absurd heq hunit
  | unit h hc =>
      simp only [List.cons_append, List.nil_append, Scan.rawFrom, h]
      rfl

/-- A text is scanned up to its closing quote. -/
theorem rawFrom_escaped (chars : List Char) (rest : List UInt8) (done : Array UInt8) :
    Scan.rawFrom (utf8 (chars.flatMap escaped) ++ 34 :: rest) done =
      some (⟨(done ++ utf8 (chars.flatMap escaped)).toList⟩, rest) := by
  induction chars generalizing done with
  | nil => simp [Scan.rawFrom]
  | cons c chars ih =>
      rw [List.flatMap_cons, utf8_append, List.append_assoc, rawFrom_spelled (spelled_escaped c), ih]
      simp [List.append_assoc]

theorem decodeFrom?_plain (h : Plain byte) (rest : List UInt8) (done : Array UInt8) :
    Raw.decodeFrom? (byte :: rest) done = Raw.decodeFrom? rest (done.push byte) := by
  rcases h with ⟨-, -, hbackslash⟩
  rw [Raw.decodeFrom?]
  · exact fun _ _ _ _ _ heq => absurd heq hbackslash
  · exact fun _ _ heq => absurd heq hbackslash

theorem decodeFrom?_plains (h : ∀ byte ∈ bytes, Plain byte) (rest : List UInt8)
    (done : Array UInt8) :
    Raw.decodeFrom? (bytes ++ rest) done = Raw.decodeFrom? rest (done ++ bytes) := by
  induction bytes generalizing done with
  | nil => simp
  | cons byte bytes ih =>
      rw [List.forall_mem_cons] at h
      rw [List.cons_append, decodeFrom?_plain h.1, ih h.2]
      rfl

/-- A character as it is written means the character. -/
theorem decodeFrom?_spelled (h : Spelled c bytes) (rest : List UInt8) (done : Array UInt8) :
    Raw.decodeFrom? (bytes ++ rest) done =
      Raw.decodeFrom? rest (done ++ String.utf8EncodeChar c) := by
  cases h with
  | plain h => exact decodeFrom?_plains h rest done
  | @letter letter byte h hc =>
      have hunit : letter ≠ 117 := by
        rintro rfl
        cases h
      rw [List.cons_append, List.singleton_append, Raw.decodeFrom?, h, hc]
      · rfl
      · exact fun _ _ _ _ _ heq => absurd heq hunit
  | unit h hc =>
      have htrailing : Raw.isTrailing c.toNat = false := by
        simp only [Raw.isTrailing, Bool.and_eq_false_iff, decide_eq_false_iff_not]
        omega
      have hleading : Raw.isLeading c.toNat = false := by
        simp only [Raw.isLeading, Bool.and_eq_false_iff, decide_eq_false_iff_not]
        omega
      simp [Raw.decodeFrom?, h, htrailing, hleading]

theorem decodeFrom?_escaped (chars : List Char) (done : Array UInt8) :
    Raw.decodeFrom? (utf8 (chars.flatMap escaped)) done = some (done ++ utf8 chars) := by
  induction chars generalizing done with
  | nil => simp [Raw.decodeFrom?]
  | cons c chars ih =>
      rw [List.flatMap_cons, utf8_append, decodeFrom?_spelled (spelled_escaped c), ih, utf8_cons]
      exact congrArg some (Array.toList_inj.1 (by simp [List.append_assoc]))

/-! ## Texts -/

/-- What stands between the quotes of a written text. -/
def Raw.ofText (text : String) : Raw := ⟨utf8 (text.toList.flatMap escaped)⟩

theorem utf8_quoted (text : String) :
    utf8 (quoted text) = 34 :: ((Raw.ofText text).bytes ++ [34]) := by
  rw [quoted, utf8_append, utf8_append]
  rfl

theorem raw_ofText (text : String) (rest : List UInt8) :
    Scan.raw ((Raw.ofText text).bytes ++ 34 :: rest) = some (Raw.ofText text, rest) := by
  rw [Scan.raw, Raw.ofText, rawFrom_escaped]
  simp

/-- The written text means the text. -/
theorem text?_ofText (text : String) : (Raw.ofText text).text? = some text := by
  rw [Raw.text?, Raw.ofText, decodeFrom?_escaped]
  have hbytes : (#[] : Array UInt8) ++ utf8 text.toList = (utf8 text.toList).toArray := by simp
  rw [hbytes]
  exact fromUTF8?_eq_some_iff.2 (toList_toUTF8 text)

end VoxelSchematic.Json
