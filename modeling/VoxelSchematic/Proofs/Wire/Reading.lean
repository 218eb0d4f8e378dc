import VoxelSchematic.Proofs.Text.Bytes
import VoxelSchematic.Proofs.Wire.Words
import VoxelSchematic.Wire.Decode

/-!
# What readers take

A reader that succeeds has taken one word off the front of its input. `Reader.Takes` says of a
reader which words these are: on inputs below a limit it succeeds with `v` exactly where the input
starts with the word of `v`, and it leaves what follows the word.

* `takes_int32` and its neighbours describe the readers of single values.
* `takes_counted` and `takes_many` describe those of sequences in terms of their parts.
-/

namespace VoxelSchematic.Wire.Reader

open Ieee

/-- On inputs shorter than `limit`, the words of the values that are `ok` are what `r` takes. -/
def Takes {α : Type} (limit : Nat) (r : Reader α) (ok : α → Prop) (word : α → List UInt8) : Prop :=
  ∀ input : List UInt8, input.length < limit → ∀ (v : α) (rest : List UInt8),
    r input = .ok v rest ↔ ok v ∧ input = word v ++ rest

variable {α β : Type} {limit : Nat}

/-- What is left of an input is below the limit, too. -/
theorem Takes.length_rest_lt {r : Reader α} {ok : α → Prop} {word : α → List UInt8}
    (h : Takes limit r ok word) {input rest : List UInt8} (hin : input.length < limit) {v : α}
    (hr : r input = .ok v rest) : rest.length < limit := by
  rcases (h input hin v rest).1 hr with ⟨-, rfl⟩
  simp only [List.length_append] at hin
  omega

/-! ## Bytes and numbers -/

theorem bytes_eq_ok_iff {n : Nat} {input front rest : List UInt8} :
    bytes n input = .ok front rest ↔ front.length = n ∧ input = front ++ rest := by
  simp only [bytes, List.splitAt_eq]
  constructor
  · intro h
    split at h
    · next hlen =>
        cases h
        exact ⟨hlen, (List.take_append_drop n input).symm⟩
    · cases h
  · intro hread
    rcases hread with ⟨rfl, rfl⟩
    simp

theorem number_eq_ok_iff {width n : Nat} {input rest : List UInt8} :
    number width input = .ok n rest ↔
      n < Nat.pow 256 width ∧ input = BigEndian.encode width n ++ rest := by
  simp only [number, Outcome.bind_eq_ok_iff, Outcome.pure_apply, EStateM.Result.ok.injEq,
    bytes_eq_ok_iff]
  constructor
  · intro h
    rcases h with ⟨front, mid, ⟨rfl, rfl⟩, rfl, rfl⟩
    exact ⟨BigEndian.decode_lt front, by rw [BigEndian.encode_decode]⟩
  · intro h
    rcases h with ⟨hn, rfl⟩
    refine ⟨_, rest, ⟨BigEndian.length_encode width n, rfl⟩, ?_, rfl⟩
    rw [BigEndian.decode_encode, Nat.mod_eq_of_lt hn]

/-- A value that is kept as a number of fixed width. -/
theorem takes_ofNumber {width : Nat} {ofNat : Nat → α} {toNat : α → Nat}
    (bound : ∀ v, toNat v < Nat.pow 256 width) (ofNat_toNat : ∀ v, ofNat (toNat v) = v)
    (toNat_ofNat : ∀ n, n < Nat.pow 256 width → toNat (ofNat n) = n) :
    Takes limit (do return ofNat (← number width)) (fun _ => True)
      (fun v => BigEndian.encode width (toNat v)) := by
  intro input _ v rest
  simp only [Outcome.bind_eq_ok_iff, Outcome.pure_apply, EStateM.Result.ok.injEq,
    number_eq_ok_iff, true_and]
  constructor
  · intro h
    rcases h with ⟨n, mid, ⟨hn, rfl⟩, rfl, rfl⟩
    rw [toNat_ofNat n hn]
  · rintro rfl
    exact ⟨toNat v, rest, ⟨bound v, rfl⟩, ofNat_toNat v, rfl⟩

theorem takes_int8 :
    Takes limit int8 (fun _ => True) (fun v => BigEndian.encode 1 v.toUInt8.toNat) :=
  takes_ofNumber (fun v => v.toUInt8.toNat_lt) (fun v => by simp)
    (fun n hn => by simpa using hn)

theorem takes_int16 :
    Takes limit int16 (fun _ => True) (fun v => BigEndian.encode 2 v.toUInt16.toNat) :=
  takes_ofNumber (fun v => v.toUInt16.toNat_lt) (fun v => by simp)
    (fun n hn => by simpa using hn)

theorem takes_int32 :
    Takes limit int32 (fun _ => True) (fun v => BigEndian.encode 4 v.toUInt32.toNat) :=
  takes_ofNumber (fun v => v.toUInt32.toNat_lt) (fun v => by simp)
    (fun n hn => by simpa using hn)

theorem takes_int64 :
    Takes limit int64 (fun _ => True) (fun v => BigEndian.encode 8 v.toUInt64.toNat) :=
  takes_ofNumber (fun v => v.toUInt64.toNat_lt) (fun v => by simp)
    (fun n hn => by simpa using hn)

theorem takes_binary32 :
    Takes limit binary32 (fun _ => True) (fun v => BigEndian.encode 4 v.bits.toNat) :=
  takes_ofNumber (fun v => v.bits.toNat_lt) (fun v => by simp) (fun n hn => by simpa using hn)

theorem takes_binary64 :
    Takes limit binary64 (fun _ => True) (fun v => BigEndian.encode 8 v.bits.toNat) :=
  takes_ofNumber (fun v => v.bits.toNat_lt) (fun v => by simp) (fun n hn => by simpa using hn)

/-! ## Kinds, texts and lengths -/

theorem takes_kind : Takes limit kind (fun _ => True) (fun k => [k.id]) := by
  intro input _ k rest
  simp only [kind, Outcome.bind_eq_ok_iff, number_eq_ok_iff, true_and]
  constructor
  · intro hread
    rcases hread with ⟨n, mid, ⟨hn, rfl⟩, h⟩
    cases hk : TagType.ofId? (UInt8.ofNat n) with
    | none => simp [hk, Outcome.throw_apply] at h
    | some found =>
        simp only [hk, Outcome.pure_apply, EStateM.Result.ok.injEq] at h
        rcases h with ⟨rfl, rfl⟩
        rw [TagType.id_of_ofId? hk]
        rfl
  · rintro rfl
    refine ⟨k.id.toNat, rest, ⟨k.id.toNat_lt, by simp [BigEndian.encode]⟩, ?_⟩
    simp [TagType.ofId?_id, Outcome.pure_apply]

/-- Bytes are the text `s` if they are what `s` is written as. -/
theorem length_toUTF8 (s : String) : s.toUTF8.data.toList.length = s.utf8ByteSize := rfl

theorem takes_text :
    Takes limit text (fun s => (Piece.text s).Fits) (fun s => (Piece.text s).bytes) := by
  intro input _ s rest
  simp only [text, Outcome.bind_eq_ok_iff, number_eq_ok_iff, bytes_eq_ok_iff, Piece.bytes,
    List.append_assoc]
  constructor
  -- The bytes read spell the text, so the length that stood before them is that of the text.
  · intro hread
    rcases hread with ⟨n, mid, ⟨hn, rfl⟩, encoded, left, ⟨rfl, rfl⟩, h⟩
    cases hs : String.fromUTF8? ⟨encoded.toArray⟩ with
    | none => simp [hs, Outcome.throw_apply] at h
    | some found =>
        simp only [hs, Outcome.pure_apply, EStateM.Result.ok.injEq] at h
        rcases h with ⟨rfl, rfl⟩
        have hword := Text.fromUTF8?_eq_some_iff.1 hs
        have hsize : found.utf8ByteSize = encoded.length := by rw [← length_toUTF8, hword]
        refine ⟨?_, by rw [hword, hsize]⟩
        have hbound : found.utf8ByteSize < 65536 := by rw [hsize]; exact hn
        exact Nat.le_of_lt_succ hbound
  · intro hgiven
    rcases hgiven with ⟨hfit, rfl⟩
    refine ⟨s.utf8ByteSize, _, ⟨Nat.lt_succ_of_le hfit, rfl⟩, _, rest, ⟨length_toUTF8 s, rfl⟩, ?_⟩
    rw [Text.fromUTF8?_eq_some_iff.2 rfl]
    rfl

/-- Length fields of thirty-two bits state numbers below this one. -/
def countLimit : Nat := 2147483648

theorem countLimit_pos : 0 < countLimit := by decide

/-- A length field that is not negative states one number below the limit. -/
theorem count_iff {raw : Int32} {n : Nat} :
    (¬raw < 0 ∧ raw.toNatClampNeg = n) ↔ n < countLimit ∧ raw = Int32.ofNat n := by
  constructor
  · intro h
    rcases h with ⟨hneg, rfl⟩
    exact ⟨raw.toNatClampNeg_lt, (Int32.ofNat_toNatClampNeg raw (Int32.not_lt.1 hneg)).symm⟩
  · intro h
    rcases h with ⟨hn, rfl⟩
    have hvalue : (Int32.ofNat n).toInt = n := Int32.toInt_ofNat_of_lt hn
    refine ⟨?_, Int32.toNatClampNeg_ofNat_of_lt hn⟩
    rw [Int32.lt_iff_toInt_lt, hvalue]
    simp

theorem toNat_toUInt32_ofNat {n : Nat} (h : n < countLimit) :
    (Int32.ofNat n).toUInt32.toNat = n := by
  have hn : n < UInt32.size := Nat.lt_trans h (by decide)
  rw [Int32.toUInt32_ofNat', UInt32.toNat_ofNat_of_lt' hn]

theorem ofNat_pos_iff {n : Nat} (h : n < countLimit) : 0 < Int32.ofNat n ↔ 0 < n := by
  have hvalue : (Int32.ofNat n).toInt = n := Int32.toInt_ofNat_of_lt h
  rw [Int32.lt_iff_toInt_lt, hvalue]
  simp

theorem takes_length :
    Takes limit length (fun n => n < countLimit) (fun n => BigEndian.encode 4 n) := by
  intro input hin n rest
  simp only [length, Outcome.bind_eq_ok_iff, takes_int32 input hin, true_and]
  constructor
  · intro hread
    rcases hread with ⟨raw, mid, rfl, h⟩
    by_cases hneg : raw < 0
    · simp [hneg, Outcome.throw_apply] at h
    · simp only [hneg, if_false, Outcome.pure_apply, EStateM.Result.ok.injEq] at h
      rcases h with ⟨hraw, rfl⟩
      rcases count_iff.1 ⟨hneg, hraw⟩ with ⟨hn, rfl⟩
      exact ⟨hn, by rw [toNat_toUInt32_ofNat hn]⟩
  · intro hgiven
    rcases hgiven with ⟨hn, rfl⟩
    rcases count_iff.2 ⟨hn, rfl⟩ with ⟨hneg, hraw⟩
    refine ⟨Int32.ofNat n, rest, by rw [toNat_toUInt32_ofNat hn], ?_⟩
    simp [hneg, hraw, Outcome.pure_apply]

/-! ## Values made of what was read -/

/-- A reader that wraps what another one takes. -/
theorem Takes.wrap {r : Reader α} {ok : α → Prop} {word : α → List UInt8}
    (h : Takes limit r ok word) (C : α → β) {ok' : β → Prop} {word' : β → List UInt8}
    (hok : ∀ b, ok' b ↔ ∃ v, ok v ∧ C v = b) (hword : ∀ v, word' (C v) = word v) :
    Takes limit (do return C (← r)) ok' word' := by
  intro input hin b rest
  simp only [Outcome.bind_eq_ok_iff, Outcome.pure_apply, EStateM.Result.ok.injEq, h input hin, hok]
  constructor
  · intro hread
    rcases hread with ⟨v, mid, ⟨hv, rfl⟩, rfl, rfl⟩
    exact ⟨⟨v, hv, rfl⟩, by rw [hword]⟩
  · intro hgiven
    rcases hgiven with ⟨⟨v, hv, rfl⟩, rfl⟩
    exact ⟨v, rest, ⟨hv, by rw [hword]⟩, rfl, rfl⟩

/-! ## Sequences -/

theorem manyFrom_eq_ok_iff {item : Reader α} {ok : α → Prop} {word : α → List UInt8}
    (h : Takes limit item ok word) {n : Nat} {done vs : Array α} {input rest : List UInt8}
    (hin : input.length < limit) :
    manyFrom item n done input = .ok vs rest ↔
      ∃ xs : List α, vs = done ++ xs ∧ xs.length = n ∧ (∀ x ∈ xs, ok x) ∧
        input = xs.flatMap word ++ rest := by
  -- The induction is on the number still to be read, for any items that are there already.
  induction n generalizing done input with
  | zero =>
      simp only [manyFrom, Outcome.pure_apply, EStateM.Result.ok.injEq, List.length_eq_zero_iff]
      constructor
      · intro hread
        rcases hread with ⟨rfl, rfl⟩
        exact ⟨[], by simp⟩
      · intro hgiven
        rcases hgiven with ⟨xs, rfl, rfl, -, rfl⟩
        simp
  | succ n ih =>
      simp only [manyFrom, Outcome.bind_eq_ok_iff]
      constructor
      · intro hread
        rcases hread with ⟨x, mid, hx, hrest⟩
        have hmid := h.length_rest_lt hin hx
        rcases (h input hin x mid).1 hx with ⟨hok, rfl⟩
        rcases (ih hmid).1 hrest with ⟨xs, rfl, hlen, hall, rfl⟩
        refine ⟨x :: xs, by simp, by simp [hlen], ?_, by simp⟩
        exact List.forall_mem_cons.2 ⟨hok, hall⟩
      · intro hgiven
        rcases hgiven with ⟨xs, rfl, hlen, hall, rfl⟩
        cases xs with
        | nil => simp at hlen
        | cons x xs =>
            have hx := (h _ hin x (xs.flatMap word ++ rest)).2
              ⟨hall x List.mem_cons_self, by simp⟩
            have hall' : ∀ y ∈ xs, ok y := fun y hy => hall y (List.mem_cons_of_mem x hy)
            have hrest : manyFrom item n (done.push x) (xs.flatMap word ++ rest) =
                .ok (done.push x ++ xs) rest :=
              (ih (h.length_rest_lt hin hx)).2 ⟨xs, rfl, by simpa using hlen, hall', rfl⟩
            exact ⟨x, _, hx, by simpa using hrest⟩

theorem takes_bytes (n : Nat) :
    Takes limit (bytes n) (fun front => front.length = n) (fun front => front) := by
  intro input _ front rest
  exact bytes_eq_ok_iff

/-- A sequence behind a length field that states its size. -/
theorem takes_counted {read : Nat → Reader α} {size : α → Nat} {word : α → List UInt8}
    (h : ∀ n, Takes limit (read n) (fun v => size v = n) word) (C : α → β) {ok' : β → Prop}
    {word' : β → List UInt8} (hok : ∀ b, ok' b ↔ ∃ v, size v < countLimit ∧ C v = b)
    (hword : ∀ v, word' (C v) = BigEndian.encode 4 (size v) ++ word v) :
    Takes limit (do let n ← length; return C (← read n)) ok' word' := by
  intro input hin b rest
  simp only [Outcome.bind_eq_ok_iff, Outcome.pure_apply, EStateM.Result.ok.injEq, hok]
  constructor
  · intro hread
    rcases hread with ⟨n, mid, hn, v, left, hv, rfl, rfl⟩
    -- What is behind the length field is still below the limit.
    have hmid := takes_length.length_rest_lt hin hn
    rcases (takes_length input hin n mid).1 hn with ⟨hcount, rfl⟩
    rcases (h n mid hmid v left).1 hv with ⟨rfl, rfl⟩
    exact ⟨⟨v, hcount, rfl⟩, by rw [hword, List.append_assoc]⟩
  · intro hgiven
    rcases hgiven with ⟨⟨v, hcount, rfl⟩, rfl⟩
    rw [hword, List.append_assoc] at hin ⊢
    have hn := (takes_length _ hin (size v) _).2 ⟨hcount, rfl⟩
    have hmid := takes_length.length_rest_lt hin hn
    exact ⟨size v, _, hn, v, rest, (h (size v) _ hmid v rest).2 ⟨rfl, rfl⟩, rfl, rfl⟩

theorem takes_many {item : Reader α} {ok : α → Prop} {word : α → List UInt8}
    (h : Takes limit item ok word) (n : Nat) :
    Takes limit (many item n) (fun vs => vs.size = n ∧ ∀ v ∈ vs.toList, ok v)
      (fun vs => vs.toList.flatMap word) := by
  intro input hin vs rest
  rw [many, manyFrom_eq_ok_iff h hin]
  constructor
  · intro hread
    rcases hread with ⟨xs, rfl, hlen, hall, rfl⟩
    exact ⟨⟨by simp [hlen], by simpa using hall⟩, by simp⟩
  · intro hgiven
    rcases hgiven with ⟨⟨hlen, hall⟩, rfl⟩
    exact ⟨vs.toList, by simp, by simpa using hlen, hall, rfl⟩

/-- Where every item is in order, only the size of a sequence counts. -/
theorem takes_many_of_all {item : Reader α} {word : α → List UInt8}
    (h : Takes limit item (fun _ => True) word) (n : Nat) :
    Takes limit (many item n) (fun vs => vs.size = n) (fun vs => vs.toList.flatMap word) := by
  intro input hin vs rest
  rw [takes_many h n input hin]
  simp

end VoxelSchematic.Wire.Reader
