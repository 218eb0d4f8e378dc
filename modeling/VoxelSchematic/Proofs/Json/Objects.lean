import VoxelSchematic.Proofs.Json.Numbers
import VoxelSchematic.Proofs.Json.Text

/-!
# Objects, there and back

What is written for an object with a line for each member is read as that object, if what is written
for each member is read.

* `Reads text v` says that a text is read as a value, up to whatever cannot continue a number.
* `reads_integer` and `reads_indentedObject` are the two kinds of values.
* `read?_of_reads`: a document that is read is read as a whole.
-/

namespace VoxelSchematic.Json

open Text

variable {text : List Char} {v : Value} {byte : UInt8} {input rest blanks : List UInt8} {fuel : Nat}

/-- The text is read as the value, whatever follows that cannot continue a number. As every step takes
a byte, more steps than bytes are enough. -/
def Reads (text : List Char) (v : Value) : Prop :=
  ∀ fuel rest, (utf8 text).length < fuel → EndsNumber rest →
    Scan.value fuel (utf8 text ++ rest) = some (v, rest)

/-! ## Blanks -/

/-- Nothing but blanks. -/
def Blank (bytes : List UInt8) : Prop := ∀ byte ∈ bytes, Scan.isBlank byte = true

theorem skipBlanks_append (h : Blank blanks) (input : List UInt8) :
    Scan.skipBlanks (blanks ++ input) = Scan.skipBlanks input :=
  List.dropWhile_append_of_pos h

theorem skipBlanks_cons (h : Scan.isBlank byte = false) (rest : List UInt8) :
    Scan.skipBlanks (byte :: rest) = byte :: rest :=
  List.dropWhile_cons_of_neg (by simp [h])

theorem value_blanks (h : Blank blanks) (fuel : Nat) (input : List UInt8) :
    Scan.value fuel (blanks ++ input) = Scan.value fuel input := by
  cases fuel with
  | zero => rfl
  | succ fuel => rw [Scan.value.eq_2, Scan.value.eq_2, skipBlanks_append h]

theorem members_blanks (h : Blank blanks) (fuel : Nat) (input : List UInt8) :
    Scan.members fuel (blanks ++ input) = Scan.members fuel input := by
  cases fuel with
  | zero => rfl
  | succ fuel => rw [Scan.members.eq_2, Scan.members.eq_2, skipBlanks_append h]

theorem utf8_lineBreak (level : Nat) :
    utf8 (lineBreak level) = 10 :: List.replicate (2 * level) 32 := by
  have hblanks : ∀ n, utf8 (List.replicate n ' ') = List.replicate n 32 := by
    intro n
    induction n with
    | zero => rfl
    | succ n ih =>
        rw [List.replicate_succ, utf8_cons, ih]
        rfl
  rw [lineBreak, utf8_cons, hblanks]
  rfl

theorem blank_lineBreak (level : Nat) : Blank (utf8 (lineBreak level)) := by
  rw [utf8_lineBreak]
  intro byte hbyte
  rw [List.mem_cons, List.mem_replicate] at hbyte
  rcases hbyte with rfl | ⟨-, rfl⟩ <;> rfl

/-! ## Numbers -/

theorem isBlank_of_isDigit (h : Scan.isDigit byte = true) : Scan.isBlank byte = false := by
  rw [Scan.isDigit, Bool.and_eq_true, decide_eq_true_iff, decide_eq_true_iff] at h
  simp only [Scan.isBlank, Bool.or_eq_false_iff, beq_eq_false_iff_ne, ne_eq]
  grind

theorem value_digit (h : Scan.isDigit byte = true) (fuel : Nat) (rest : List UInt8) :
    Scan.value (fuel + 1) (byte :: rest) =
      (Scan.numeral (byte :: rest)).map fun read => (.number read.1, read.2) := by
  have hother : ∀ b, Scan.isDigit b = false → ∀ tail, byte :: rest ≠ b :: tail := by
    rintro b hb tail heq
    rw [(List.cons.inj heq).1, hb] at h
    cases h
  rw [Scan.value.eq_2, skipBlanks_cons (isBlank_of_isDigit h)]
  -- No other kind of value starts with a digit.
  split
  case h_7 => cases Scan.numeral (byte :: rest) <;> rfl
  all_goals exact absurd ‹_› (hother _ (by decide) _)

theorem reads_integer (n : Nat) : Reads (integer n) (.number (.ofNat n)) := by
  intro fuel rest hfuel ends
  cases fuel with
  | zero => cases hfuel
  | succ fuel =>
      have hnumber := numeral_integer n ends
      rcases utf8_integer_eq_cons n with ⟨byte, bytes, hfront, hdigit⟩
      rw [hfront, List.cons_append] at hnumber ⊢
      rw [value_digit hdigit, hnumber]
      rfl

/-! ## Objects -/

variable {member : String × List Char} {members : List (String × List Char)} {read : Raw × Value}
  {reads : List (Raw × Value)}

/-- One member of an object as it is written. -/
def memberText (member : String × List Char) : List Char :=
  quoted member.1 ++ [':', ' '] ++ member.2

/-- What is written between two members. -/
def memberBreak (level : Nat) : List Char := [','] ++ lineBreak level

/-- Members as they are written, without the braces. -/
def membersText (level : Nat) (members : List (String × List Char)) : List Char :=
  separated (memberBreak level) (members.map memberText)

theorem membersText_cons_cons (level : Nat) (member next : String × List Char)
    (members : List (String × List Char)) :
    membersText level (member :: next :: members) =
      memberText member ++ memberBreak level ++ membersText level (next :: members) := rfl

theorem indentedObject_of_ne_nil (level : Nat) (h : members ≠ []) :
    indentedObject level members =
      ['\x7b'] ++ lineBreak (level + 1) ++ membersText (level + 1) members ++ lineBreak level ++
        ['\x7d'] :=
  if_neg (by simpa using h)

/-- A member is read by its name, and its text as its value. -/
def ReadsMember (member : String × List Char) (read : Raw × Value) : Prop :=
  read.1 = .ofText member.1 ∧ Reads member.2 read.2

/-- A member is read up to what follows its value. -/
theorem members_memberText (h : ReadsMember member read)
    (hfuel : (utf8 (memberText member)).length ≤ fuel) (ends : EndsNumber rest) :
    Scan.members (fuel + 1) (utf8 (memberText member) ++ rest) =
      match Scan.skipBlanks rest with
      | 125 :: rest => some ([read], rest)
      | 44 :: rest => (Scan.members fuel rest).bind fun others =>
          some (read :: others.1, others.2)
      | _ => none := by
  rcases member with ⟨name, text⟩
  rcases read with ⟨raw, v⟩
  rcases h with ⟨rfl, hreads⟩
  have hwritten : utf8 (memberText (name, text)) =
      34 :: ((Raw.ofText name).bytes ++ 34 :: 58 :: 32 :: utf8 text) := by
    rw [memberText, utf8_append, utf8_append, utf8_quoted]
    simp only [List.cons_append, List.append_assoc]
    rfl
  have hcolon : ∀ input, Scan.exactly [58] (Scan.skipBlanks (58 :: input)) = some ((), input) :=
    fun input => rfl
  have hvalue : Scan.value fuel (32 :: (utf8 text ++ rest)) = some (v, rest) := by
    have hlength : (utf8 text).length < fuel := by
      rw [hwritten] at hfuel
      simp only [List.length_cons, List.length_append] at hfuel
      omega
    rw [← List.singleton_append, value_blanks (by simp [Blank, Scan.isBlank])]
    exact hreads fuel rest hlength ends
  rw [hwritten, Scan.members.eq_2]
  simp only [List.cons_append, List.append_assoc]
  rw [skipBlanks_cons rfl]
  simp only [raw_ofText, hcolon, hvalue, Option.bind_eq_bind, Option.bind_some]
  rfl

/-- Members are read up to the closing brace. -/
theorem members_membersText (h : List.Forall₂ ReadsMember members reads) (hne : members ≠ [])
    (inner outer : Nat) (hfuel : (utf8 (membersText inner members)).length < fuel)
    (rest : List UInt8) :
    Scan.members fuel
      (utf8 (membersText inner members) ++ (utf8 (lineBreak outer) ++ 125 :: rest)) =
      some (reads, rest) := by
  -- Behind the last member there is the line break before the brace, behind any other a comma.
  induction h generalizing fuel with
  | nil => exact absurd rfl hne
  | @cons member read members reads hmember hmembers ih =>
      cases fuel with
      | zero => cases hfuel
      | succ fuel =>
          cases hmembers with
          | nil =>
              have hends : EndsNumber (utf8 (lineBreak outer) ++ 125 :: rest) := by
                rw [utf8_lineBreak]
                simp [EndsNumber, Scan.isDigit]
              rw [membersText, List.map_singleton, separated] at hfuel ⊢
              rw [members_memberText hmember (by omega) hends,
                skipBlanks_append (blank_lineBreak outer), skipBlanks_cons rfl]
              rfl
          | @cons next _ others _ hnext hothers =>
              have hfront : utf8 (membersText inner (member :: next :: others)) =
                  utf8 (memberText member) ++
                    44 :: (utf8 (lineBreak inner) ++ utf8 (membersText inner (next :: others))) := by
                rw [membersText_cons_cons, utf8_append, utf8_append, List.append_assoc]
                rfl
              have hends : ∀ tail, EndsNumber (44 :: tail) := by simp [EndsNumber, Scan.isDigit]
              rw [hfront] at hfuel ⊢
              simp only [List.length_append, List.length_cons] at hfuel
              simp only [List.append_assoc, List.cons_append]
              rw [members_memberText hmember (by omega) (hends _), skipBlanks_cons rfl]
              simp only
              rw [members_blanks (blank_lineBreak inner), ih (by simp) (by omega)]
              rfl

/-- Where a name comes next, the members are read. -/
theorem value_members (h : Blank blanks) (name : ∃ bytes, input = 34 :: bytes) (fuel : Nat) :
    Scan.value (fuel + 1) (123 :: (blanks ++ input)) =
      (Scan.members fuel input).bind fun read => some (.object read.1, read.2) := by
  rcases name with ⟨bytes, rfl⟩
  have hnext : Scan.skipBlanks (blanks ++ 34 :: bytes) = 34 :: bytes := by
    rw [skipBlanks_append h, skipBlanks_cons rfl]
  rw [Scan.value.eq_2, skipBlanks_cons rfl]
  simp only [hnext]
  rfl

theorem utf8_membersText_eq_cons (level : Nat) (member : String × List Char)
    (members : List (String × List Char)) (rest : List UInt8) :
    ∃ bytes, utf8 (membersText level (member :: members)) ++ rest = 34 :: bytes := by
  cases members with
  | nil => exact ⟨_, rfl⟩
  | cons next members => exact ⟨_, rfl⟩

/-- An object with a line for each member is read as the object. -/
theorem reads_indentedObject (level : Nat) (h : List.Forall₂ ReadsMember members reads) :
    Reads (indentedObject level members) (.object reads) := by
  intro fuel rest hfuel ends
  cases fuel with
  | zero => cases hfuel
  | succ fuel =>
      cases h with
      -- Without members there is no line break either.
      | nil => rfl
      | @cons member read members reads hmember hmembers =>
          have hwritten : utf8 (indentedObject level (member :: members)) =
              123 :: (utf8 (lineBreak (level + 1)) ++
                (utf8 (membersText (level + 1) (member :: members)) ++
                  (utf8 (lineBreak level) ++ [125]))) := by
            rw [indentedObject_of_ne_nil level (by simp)]
            simp only [utf8_append, List.append_assoc]
            rfl
          rw [hwritten] at hfuel ⊢
          simp only [List.length_cons, List.length_append] at hfuel
          simp only [List.cons_append, List.append_assoc, List.nil_append]
          rw [value_members (blank_lineBreak _) (utf8_membersText_eq_cons _ _ _ _),
            members_membersText (.cons hmember hmembers) (by simp) _ _ (by omega)]
          rfl

/-! ## Documents -/

theorem read?_of_reads (h : Reads text v) : read? (utf8 text) = some v := by
  have hread := h ((utf8 text).length + 1) [] (Nat.lt_succ_self _) (by simp [EndsNumber])
  rw [List.append_nil] at hread
  simp [read?, hread, Scan.skipBlanks]

end VoxelSchematic.Json
