import VoxelSchematic.Proofs.Wire.Reading

/-!
# Readers decide as early as they can

A prompt reader neither looks ahead nor guesses: it decides on some bytes at the front of its
input, whatever follows them, and with any fewer of them it would have called the input truncated.

* `Reader.Prompt` states this of one reader; `Prompt.bind` carries it through a sequence.
* `prompt_decodeWith` draws the conclusion for whole tags. The number of fields that decoding allows
  depends on the length of its input, so readers with different budgets are compared first.
-/

namespace VoxelSchematic.Wire

/-- A fault that the bytes at hand prove, whatever follows them. -/
def Malformed : TagError → Prop
  | .invalidTagType _ => True
  | .negativeLength _ => True
  | .nonEmptyTerminatorList _ => True
  | .invalidUtf8 => True
  | .depthLimitExceeded => True
  | _ => False

namespace Reader

section

variable {α β : Type}

/-- The end of a run with a verdict and some input left. -/
def leaving (verdict : Except TagError α) (rest : List UInt8) :
    EStateM.Result TagError (List UInt8) α :=
  match verdict with
  | .ok v => .ok v rest
  | .error fault => .error fault rest

/-- The reader calls the input truncated. -/
def Truncates (r : Reader α) (input : List UInt8) : Prop := ∃ rest, r input = .error .truncated rest

/-- The reader comes to its verdict on these bytes, and on no fewer. -/
structure Decides (r : Reader α) (used : List UInt8) (verdict : Except TagError α) : Prop where
  malformed : ∀ fault, verdict = .error fault → Malformed fault
  leaves : ∀ behind, r (used ++ behind) = leaving verdict behind
  truncates : ∀ front, front <+: used → front ≠ used → Truncates r front

/-- On every input, the reader decides on bytes at the front, or it finds that too few are there. -/
def Prompt (r : Reader α) : Prop :=
  ∀ input, (∃ used rest verdict, input = used ++ rest ∧ Decides r used verdict) ∨
    ∀ front, front <+: input → Truncates r front

/-- A front of two parts ends in the first part or behind it. -/
theorem front_of_append {front first second : List UInt8} (h : front <+: first ++ second) :
    (front <+: first ∧ front ≠ first) ∨ ∃ more, more <+: second ∧ front = first ++ more := by
  by_cases hsame : front = first
  · exact .inr ⟨[], List.nil_prefix, by rw [hsame, List.append_nil]⟩
  · rcases List.prefix_or_prefix_of_prefix h (List.prefix_append first second) with hshort | hlong
    · exact .inl ⟨hshort, hsame⟩
    · rcases hlong with ⟨more, rfl⟩
      exact .inr ⟨more, (List.prefix_append_right_inj first).1 h, rfl⟩

theorem leaving_inj {verdict verdict' : Except TagError α} {rest rest' : List UInt8}
    (h : leaving verdict rest = leaving verdict' rest') : verdict = verdict' ∧ rest = rest' := by
  cases verdict <;> cases verdict' <;> simp_all [leaving]

theorem Decides.ne_truncated {r : Reader α} {used : List UInt8} {verdict : Except TagError α}
    (h : Decides r used verdict) : verdict ≠ .error .truncated :=
  fun hverdict => h.malformed .truncated hverdict

/-- A prompt reader that has a verdict when its input is used up has decided on that input. -/
theorem Prompt.decides_of_run {r : Reader α} (h : Prompt r) {used : List UInt8}
    {verdict : Except TagError α} (hne : verdict ≠ .error .truncated)
    (hrun : r used = leaving verdict []) : Decides r used verdict := by
  -- The reader would say the same whatever follows, so that it has used up all of its input.
  rcases h used with ⟨front, rest, found, hused, hfront⟩ | hshort
  · have hleaves := hfront.leaves rest
    rw [← hused, hrun] at hleaves
    rcases leaving_inj hleaves with ⟨rfl, rfl⟩
    rw [List.append_nil] at hused
    exact hused ▸ hfront
  · rcases hshort used List.prefix_rfl with ⟨rest, htruncated⟩
    have hsame : leaving (.error .truncated) rest = leaving verdict [] := htruncated.symm.trans hrun
    exact absurd (leaving_inj hsame).1.symm hne

/-! ## Building prompt readers -/

theorem Decides.prompt_of_nil {r : Reader α} {verdict : Except TagError α}
    (h : Decides r [] verdict) : Prompt r :=
  fun input => .inl ⟨[], input, verdict, rfl, h⟩

theorem prompt_pure (a : α) : Prompt (pure a : Reader α) := by
  have hdecides : Decides (pure a : Reader α) [] (.ok a) :=
    ⟨nofun, fun behind => rfl, fun front h hne => absurd (List.prefix_nil.1 h) hne⟩
  exact hdecides.prompt_of_nil

theorem prompt_throw {fault : TagError} (h : Malformed fault) :
    Prompt (throw fault : Reader α) := by
  have hmalformed : ∀ other, (.error fault : Except TagError α) = .error other → Malformed other := by
    intro other hother
    cases hother
    exact h
  have hdecides : Decides (throw fault : Reader α) [] (.error fault) :=
    ⟨hmalformed, fun behind => rfl, fun front h hne => absurd (List.prefix_nil.1 h) hne⟩
  exact hdecides.prompt_of_nil

theorem prompt_throw_truncated : Prompt (throw .truncated : Reader α) :=
  fun _ => .inr fun front _ => ⟨front, rfl⟩

theorem Truncates.bind {r : Reader α} {input : List UInt8} (h : Truncates r input)
    (f : α → Reader β) : Truncates (r >>= f) input := by
  rcases h with ⟨rest, hr⟩
  exact ⟨rest, Outcome.bind_of_error hr⟩

/-- What the second reader makes of the rest is what the sequence makes of the whole. -/
theorem Decides.bind_apply {r : Reader α} {used : List UInt8} {a : α} (h : Decides r used (.ok a))
    (f : α → Reader β) (more : List UInt8) : (r >>= f) (used ++ more) = f a more :=
  Outcome.bind_of_ok (h.leaves more)

theorem Decides.truncates_bind {r : Reader α} {used : List UInt8} {a : α}
    (h : Decides r used (.ok a)) {f : α → Reader β} {more : List UInt8}
    (hmore : Truncates (f a) more) : Truncates (r >>= f) (used ++ more) := by
  rcases hmore with ⟨rest, hf⟩
  exact ⟨rest, (h.bind_apply f more).trans hf⟩

/-- A fault of the first reader is the verdict of the sequence. -/
theorem Decides.bind_error {r : Reader α} {used : List UInt8} {fault : TagError}
    (h : Decides r used (.error fault)) (f : α → Reader β) : Decides (r >>= f) used (.error fault) where
  malformed := by
    intro other hother
    cases hother
    exact h.malformed fault rfl
  leaves := fun behind => Outcome.bind_of_error (h.leaves behind)
  truncates := fun front hfront hne => (h.truncates front hfront hne).bind f

theorem Decides.bind {r : Reader α} {used more : List UInt8} {a : α} {f : α → Reader β}
    {verdict : Except TagError β} (h : Decides r used (.ok a)) (hf : Decides (f a) more verdict) :
    Decides (r >>= f) (used ++ more) verdict where
  malformed := hf.malformed
  leaves := by
    intro behind
    rw [List.append_assoc, h.bind_apply f]
    exact hf.leaves behind
  truncates := by
    intro front hfront hne
    rcases front_of_append hfront with ⟨hshort, hshorter⟩ | ⟨rest, hrest, rfl⟩
    -- A front that ends in the first part stops the first reader, any other one the second.
    · exact (h.truncates front hshort hshorter).bind f
    · refine h.truncates_bind (hf.truncates rest hrest fun hsame => ?_)
      exact hne (by rw [hsame])

/-- A sequence of prompt readers is prompt. -/
theorem Prompt.bind {r : Reader α} {f : α → Reader β} (hr : Prompt r) (hf : ∀ a, Prompt (f a)) :
    Prompt (r >>= f) := by
  intro input
  -- Either the first reader has the last word, or the second goes on with what the first left.
  rcases hr input with ⟨used, rest, verdict, rfl, hused⟩ | hshort
  · cases verdict with
    | error fault => exact .inl ⟨used, rest, .error fault, rfl, hused.bind_error f⟩
    | ok a =>
        rcases hf a rest with ⟨more, behind, verdict, rfl, hmore⟩ | hshort
        · exact .inl ⟨used ++ more, behind, verdict, (List.append_assoc ..).symm, hused.bind hmore⟩
        · refine .inr fun front hfront => ?_
          rcases front_of_append hfront with ⟨hfirst, hne⟩ | ⟨more, hmore, rfl⟩
          · exact (hused.truncates front hfirst hne).bind f
          · exact hused.truncates_bind (hshort more hmore)
  · exact .inr fun front hfront => (hshort front hfront).bind f

theorem Prompt.map {r : Reader α} (hr : Prompt r) (C : α → β) : Prompt (do return C (← r)) :=
  hr.bind fun a => prompt_pure (C a)

/-! ## The parts of a tag -/

theorem prompt_bytes (n : Nat) : Prompt (bytes n) := by
  have hshort : ∀ input : List UInt8, input.length < n → Truncates (bytes n) input := by
    intro input hlen
    have hne : ¬(input.take n).length = n := by
      rw [List.length_take]
      omega
    exact ⟨input.drop n, by simp only [bytes, List.splitAt_eq, hne, if_false]⟩
  -- With enough bytes the first `n` of them decide, and with fewer every front is too short.
  intro input
  by_cases hlen : n ≤ input.length
  · have htake : (input.take n).length = n := List.length_take_of_le hlen
    refine .inl ⟨input.take n, input.drop n, .ok (input.take n),
      (List.take_append_drop n input).symm, by simp, fun behind => ?_, fun front hfront hne => ?_⟩
    · have hfront : (input.take n ++ behind).take n = input.take n := List.take_left' htake
      have hrest : (input.take n ++ behind).drop n = behind := List.drop_left' htake
      simp only [bytes, List.splitAt_eq, hfront, hrest, htake, if_true, leaving]
    · refine hshort front (Nat.lt_of_le_of_ne (htake ▸ hfront.length_le) fun hsame => ?_)
      exact hne (hfront.eq_of_length (hsame.trans htake.symm))
  · refine .inr fun front hfront => hshort front ?_
    exact Nat.lt_of_le_of_lt hfront.length_le (Nat.not_le.1 hlen)

theorem prompt_number (width : Nat) : Prompt (number width) := (prompt_bytes width).map _

theorem prompt_int32 : Prompt int32 := (prompt_number 4).map _

theorem prompt_kind : Prompt kind := by
  refine (prompt_number 1).bind fun n => ?_
  dsimp only
  cases TagType.ofId? (UInt8.ofNat n) with
  | none => exact prompt_throw trivial
  | some k => exact prompt_pure k

theorem prompt_text : Prompt text := by
  refine (prompt_number 2).bind fun n => (prompt_bytes n).bind fun encoded => ?_
  cases String.fromUTF8? ⟨encoded.toArray⟩ with
  | none => exact prompt_throw trivial
  | some s => exact prompt_pure s

theorem prompt_length : Prompt length := by
  refine prompt_int32.bind fun raw => ?_
  by_cases hneg : raw < 0
  · rw [if_pos hneg]
    exact prompt_throw trivial
  · rw [if_neg hneg]
    exact prompt_pure _

theorem prompt_manyFrom {item : Reader α} (h : Prompt item) (n : Nat) (done : Array α) :
    Prompt (manyFrom item n done) := by
  induction n generalizing done with
  | zero => exact prompt_pure done
  | succ n ih => exact h.bind fun next => ih (done.push next)

theorem prompt_many {item : Reader α} (h : Prompt item) (n : Nat) : Prompt (many item n) :=
  prompt_manyFrom h n #[]

end

end Reader

open Reader

theorem prompt_list {element : TagType → Reader Tag} (h : ∀ k, Prompt (element k)) :
    Prompt (list element) := by
  refine prompt_kind.bind fun k => prompt_int32.bind fun raw => ?_
  by_cases hneg : raw < 0
  · rw [if_pos hneg]
    exact prompt_throw trivial
  · by_cases hend : k = .terminator ∧ 0 < raw
    · rw [if_neg hneg, if_pos hend]
      exact prompt_throw trivial
    · rw [if_neg hneg, if_neg hend]
      exact (prompt_many (h k) _).map _

theorem prompt_fieldsFrom (join : Join) {value : TagType → Reader Tag} (h : ∀ k, Prompt (value k))
    (budget : Nat) (done : Compound) : Prompt (fieldsFrom join value budget done) := by
  induction budget generalizing done with
  | zero => exact prompt_throw_truncated
  | succ budget ih =>
      -- A budget that runs out counts as truncation, so that a step never decides too early.
      refine prompt_kind.bind fun k => ?_
      by_cases hk : k = .terminator
      · rw [if_pos hk]
        exact prompt_pure done
      · rw [if_neg hk]
        exact prompt_text.bind fun name => (h k).bind fun tag => ih (join done name tag)

/-- The values of tags that hold no other tags. -/
theorem prompt_leaf (join : Join) (budget levels : Nat) {k : TagType} (hlist : k ≠ .list)
    (hcompound : k ≠ .compound) : Prompt (payload join budget levels k) := by
  cases k with
  | list => exact absurd rfl hlist
  | compound => exact absurd rfl hcompound
  | terminator =>
      rw [payload]
      exact prompt_pure _
  | byteArray =>
      rw [payload]
      exact prompt_length.bind fun n => (prompt_bytes n).map _
  | string =>
      rw [payload]
      exact prompt_text.map _
  | intArray =>
      rw [payload]
      exact prompt_length.bind fun n => (prompt_many prompt_int32 n).map _
  | longArray =>
      rw [payload]
      exact prompt_length.bind fun n => (prompt_many ((prompt_number 8).map _) n).map _
  | _ =>
      rw [payload]
      exact ((prompt_number _).map _).map _

theorem prompt_payload (join : Join) (budget levels : Nat) (k : TagType) :
    Prompt (payload join budget levels k) := by
  -- The levels go down with the nesting; with none left a list or a compound is refused unread.
  induction levels generalizing k with
  | zero =>
      by_cases hlist : k = .list
      · rw [hlist, payload]
        exact prompt_throw trivial
      · by_cases hcompound : k = .compound
        · rw [hcompound, payload]
          exact prompt_throw trivial
        · exact prompt_leaf join budget 0 hlist hcompound
  | succ levels ih =>
      by_cases hlist : k = .list
      · rw [hlist, payload]
        exact (prompt_list ih).map _
      · by_cases hcompound : k = .compound
        · rw [hcompound, payload]
          exact (prompt_fieldsFrom join ih budget .empty).map _
        · exact prompt_leaf join budget (levels + 1) hlist hcompound

theorem prompt_named (join : Join) (budget : Nat) : Prompt (named join budget) := by
  refine prompt_kind.bind fun k => ?_
  by_cases hk : k = .terminator
  · rw [if_pos hk]
    exact prompt_pure _
  · rw [if_neg hk]
    exact prompt_text.bind fun name => (prompt_payload join budget maxDepth k).map _

/-! ## Budgets -/

/-- Two readers that do the same on inputs below a limit. -/
def Agree {α : Type} (limit : Nat) (r r' : Reader α) : Prop :=
  ∀ input : List UInt8, input.length < limit → r input = r' input

section

variable {α β : Type} {limit : Nat}

theorem Agree.refl (r : Reader α) : Agree limit r r := fun _ _ => rfl

theorem Agree.mono {r r' : Reader α} {limit' : Nat} (h : Agree limit r r') (hle : limit' ≤ limit) :
    Agree limit' r r' :=
  fun input hin => h input (Nat.lt_of_lt_of_le hin hle)

/-- A prompt reader leaves no more than there was. -/
theorem Reader.Prompt.length_rest_le {r : Reader α} (h : Prompt r) {input rest : List UInt8} {v : α}
    (hr : r input = .ok v rest) : rest.length ≤ input.length := by
  rcases h input with ⟨used, behind, verdict, rfl, hused⟩ | hshort
  · have hleaves := hused.leaves behind
    cases verdict with
    | error fault => simp [hr, leaving] at hleaves
    | ok a =>
        have hrest : rest = behind := by
          rw [hr] at hleaves
          exact (EStateM.Result.ok.inj hleaves).2
        simp [hrest]
  · rcases hshort input List.prefix_rfl with ⟨behind, hbehind⟩
    simp [hr] at hbehind

theorem Agree.bind {r r' : Reader α} {f f' : α → Reader β} (h : Agree limit r r') (hr : Prompt r)
    (hf : ∀ a, Agree limit (f a) (f' a)) : Agree limit (r >>= f) (r' >>= f') := by
  intro input hin
  have hsame := h input hin
  -- The second readers are compared on what the first leaves, which is below the limit too.
  cases hrun : r input with
  | error fault rest =>
      rw [Outcome.bind_of_error hrun, Outcome.bind_of_error (hsame ▸ hrun)]
  | ok a rest =>
      rw [Outcome.bind_of_ok hrun, Outcome.bind_of_ok (hsame ▸ hrun)]
      exact hf a rest (Nat.lt_of_le_of_lt (hr.length_rest_le hrun) hin)

/-- What comes behind the number of a type has one byte less to read. -/
theorem agree_kind_bind {f f' : TagType → Reader β} (h : ∀ k, Agree limit (f k) (f' k)) :
    Agree (limit + 1) (Reader.kind >>= f) (Reader.kind >>= f') := by
  intro input hin
  cases hrun : Reader.kind input with
  | error fault rest => rw [Outcome.bind_of_error hrun, Outcome.bind_of_error hrun]
  | ok k rest =>
      have hinput := ((takes_kind input hin k rest).1 hrun).2
      have hrest : rest.length < limit := by
        rw [hinput] at hin
        exact Nat.lt_of_succ_lt_succ hin
      rw [Outcome.bind_of_ok hrun, Outcome.bind_of_ok hrun]
      exact h k rest hrest

theorem agree_manyFrom {item item' : Reader α} (h : Agree limit item item') (hitem : Prompt item)
    (n : Nat) (done : Array α) : Agree limit (manyFrom item n done) (manyFrom item' n done) := by
  induction n generalizing done with
  | zero => exact Agree.refl _
  | succ n ih => exact h.bind hitem fun next => ih (done.push next)

end

theorem agree_list {limit : Nat} {value value' : TagType → Reader Tag}
    (h : ∀ k, Agree limit (value k) (value' k)) (hvalue : ∀ k, Prompt (value k)) :
    Agree limit (list value) (list value') := by
  refine (Agree.refl _).bind prompt_kind fun k => (Agree.refl _).bind prompt_int32 fun raw => ?_
  by_cases hneg : raw < 0
  · rw [if_pos hneg, if_pos hneg]
    exact Agree.refl _
  · by_cases hend : k = .terminator ∧ 0 < raw
    · rw [if_neg hneg, if_neg hneg, if_pos hend, if_pos hend]
      exact Agree.refl _
    · rw [if_neg hneg, if_neg hneg, if_neg hend, if_neg hend]
      exact (agree_manyFrom (h k) (hvalue k) _ #[]).bind (prompt_many (hvalue k) _)
        fun items => Agree.refl _

/-- Each field takes a byte at least, so two budgets that the input cannot use up do the same. -/
theorem agree_fieldsFrom (join : Join) {limit budget budget' : Nat}
    {value value' : TagType → Reader Tag} (h : ∀ k, Agree limit (value k) (value' k))
    (hvalue : ∀ k, Prompt (value k)) (hbudget : limit ≤ budget) (hbudget' : limit ≤ budget')
    (done : Compound) :
    Agree limit (fieldsFrom join value budget done) (fieldsFrom join value' budget' done) := by
  -- The induction is on the limit: the number of the next type takes one byte of it, and one
  -- field of either budget.
  induction limit generalizing budget budget' done with
  | zero => exact fun input hin => absurd hin (Nat.not_lt_zero _)
  | succ limit ih =>
      cases budget with
      | zero => exact absurd hbudget (Nat.not_succ_le_zero limit)
      | succ budget =>
          cases budget' with
          | zero => exact absurd hbudget' (Nat.not_succ_le_zero limit)
          | succ budget' =>
              have hbelow : ∀ k, Agree limit (value k) (value' k) :=
                fun k => (h k).mono (Nat.le_succ limit)
              refine agree_kind_bind fun k => ?_
              by_cases hk : k = .terminator
              · rw [if_pos hk, if_pos hk]
                exact Agree.refl _
              · rw [if_neg hk, if_neg hk]
                exact (Agree.refl _).bind prompt_text fun name =>
                  (hbelow k).bind (hvalue k) fun tag =>
                    ih hbelow (Nat.le_of_succ_le_succ hbudget) (Nat.le_of_succ_le_succ hbudget')
                      (join done name tag)

theorem agree_payload (join : Join) {limit budget budget' : Nat} (hbudget : limit ≤ budget)
    (hbudget' : limit ≤ budget') (levels : Nat) (k : TagType) :
    Agree limit (payload join budget levels k) (payload join budget' levels k) := by
  induction levels generalizing k with
  | zero => cases k <;> exact Agree.refl _
  | succ levels ih =>
      have hvalue := prompt_payload join budget levels
      cases k with
      | list => exact (agree_list ih hvalue).bind (prompt_list hvalue) fun l => Agree.refl _
      | compound =>
          exact (agree_fieldsFrom join ih hvalue hbudget hbudget' .empty).bind
            (prompt_fieldsFrom join hvalue budget .empty) fun fields => Agree.refl _
      | _ => exact Agree.refl _

theorem agree_named (join : Join) {limit budget budget' : Nat} (hbudget : limit ≤ budget)
    (hbudget' : limit ≤ budget') : Agree limit (named join budget) (named join budget') := by
  refine (Agree.refl _).bind prompt_kind fun k => ?_
  by_cases hk : k = .terminator
  · rw [if_pos hk, if_pos hk]
    exact Agree.refl _
  · rw [if_neg hk, if_neg hk]
    refine (Agree.refl _).bind prompt_text fun name => ?_
    exact (agree_payload join hbudget hbudget' maxDepth k).bind (prompt_payload join budget maxDepth k)
      fun tag => Agree.refl _

/-- Any budget that the input cannot use up is as good as the one it is given. -/
theorem decodeWith_eq_named (join : Join) {budget : Nat} {input : List UInt8}
    (h : input.length < budget) : decodeWith join input = named join budget input :=
  agree_named join (Nat.le_refl _) (Nat.succ_le_of_lt h) input (Nat.lt_succ_self _)

/-- Decoding is prompt, although its budget grows with its input. -/
theorem prompt_decodeWith (join : Join) : Prompt (decodeWith join) := by
  intro input
  have hfits : ∀ front : List UInt8, front <+: input → front.length < input.length + 1 :=
    fun front hfront => Nat.lt_succ_of_le hfront.length_le
  have htruncates : ∀ front : List UInt8, front <+: input →
      Truncates (named join (input.length + 1)) front → Truncates (decodeWith join) front := by
    intro front hfront hshort
    rcases hshort with ⟨rest, hrun⟩
    exact ⟨rest, (decodeWith_eq_named join (hfits front hfront)).trans hrun⟩
  -- All fronts of the input are read with the budget that the whole input has.
  rcases prompt_named join (input.length + 1) input with ⟨used, rest, verdict, hinput, hused⟩ | hshort
  · have hprefix : used <+: input := ⟨rest, hinput.symm⟩
    refine .inl ⟨used, rest, verdict, hinput, hused.malformed, fun behind => ?_,
      fun front hfront hne => ?_⟩
    · -- The budget for the longer input comes to the same verdict on the bytes in use.
      have hlong : used.length < (used ++ behind).length + 1 := by
        rw [List.length_append]
        omega
      have hrun : named join ((used ++ behind).length + 1) used = leaving verdict [] :=
        calc
          named join ((used ++ behind).length + 1) used = decodeWith join used :=
            (decodeWith_eq_named join hlong).symm
          _ = named join (input.length + 1) used := decodeWith_eq_named join (hfits used hprefix)
          _ = leaving verdict [] := by
            have hleaves := hused.leaves []
            rwa [List.append_nil] at hleaves
      exact ((prompt_named join _).decides_of_run hused.ne_truncated hrun).leaves behind
    · exact htruncates front (hfront.trans hprefix) (hused.truncates front hfront hne)
  · exact .inr fun front hfront => htruncates front hfront (hshort front hfront)

/-! ## Whole tags -/

/-- Decoding finds faults only that a byte sequence can have. It stops where it comes to its verdict:
whatever follows, the verdict is the same, and any front of the bytes it took is truncated. An input
that is truncated has no front that is not. -/
theorem decode_stops_at_verdict (input : List UInt8) :
    (∀ fault rest, decode input = .error fault rest → fault = .truncated ∨ Malformed fault) ∧
      (∀ verdict rest, decode input = leaving verdict rest → verdict ≠ .error .truncated →
        ∃ n ≤ input.length, rest = input.drop n ∧
          (∀ behind, decode (input.take n ++ behind) = leaving verdict behind) ∧
          ∀ k < n, ∃ left, decode (input.take k) = .error .truncated left) ∧
      (∀ rest, decode input = .error .truncated rest →
        ∀ k, ∃ left, decode (input.take k) = .error .truncated left) := by
  have hprompt : Prompt decode := prompt_decodeWith OrderedMap.insert
  rcases hprompt input with ⟨used, behind, found, rfl, hused⟩ | hshort
  · have hrun : decode (used ++ behind) = leaving found behind := hused.leaves behind
    refine ⟨fun fault rest hfault => .inr ?_, fun verdict rest hverdict hne => ?_,
      fun rest htruncated => ?_⟩
    · have hsame : leaving found behind = leaving (.error fault) rest := hrun.symm.trans hfault
      exact hused.malformed fault (leaving_inj hsame).1
    · rcases leaving_inj (hrun.symm.trans hverdict) with ⟨rfl, rfl⟩
      refine ⟨used.length, by simp, by simp, fun more => ?_, fun k hk => ?_⟩
      · rw [List.take_left]
        exact hused.leaves more
      · have hfront : (used ++ behind).take k = used.take k :=
          List.take_append_of_le_length (Nat.le_of_lt hk)
        rw [hfront]
        refine hused.truncates _ (List.take_prefix k used) fun hall => ?_
        have hlength := congrArg List.length hall
        rw [List.length_take] at hlength
        omega
    · have hsame : leaving found behind = leaving (.error .truncated) rest := hrun.symm.trans htruncated
      exact absurd (leaving_inj hsame).1 hused.ne_truncated
  · rcases hshort input List.prefix_rfl with ⟨left, hrun⟩
    refine ⟨fun fault rest hfault => .inl ?_, fun verdict rest hverdict hne => ?_,
      fun rest _ k => hshort _ (List.take_prefix k input)⟩
    · have hsame : leaving (.error .truncated) left = leaving (.error fault) rest :=
        hrun.symm.trans hfault
      exact (Except.error.inj (leaving_inj hsame).1).symm
    · have hsame : leaving (.error .truncated) left = leaving verdict rest := hrun.symm.trans hverdict
      exact absurd (leaving_inj hsame).1.symm hne

/-- A negative length is found at the length field, and no earlier. -/
theorem decode_stops_at_negative_length :
    (∀ behind, decode ([7, 0, 0, 0x80, 0, 0, 0] ++ behind) =
        .error (.negativeLength (-2147483648)) behind) ∧
      ∀ k < 7, ∃ left, decode ([7, 0, 0, 0x80, 0, 0, 0].take k) = .error .truncated left := by
  have hrun : decode [7, 0, 0, 0x80, 0, 0, 0] = .error (.negativeLength (-2147483648)) [] := by cbv
  rcases (decode_stops_at_verdict [7, 0, 0, 0x80, 0, 0, 0]).2.1 (.error _) [] hrun (by simp) with
    ⟨n, hn, hrest, hleaves, hshort⟩
  have hlength : n = 7 := by
    have hdrop := congrArg List.length hrest
    simp at hdrop hn
    omega
  subst hlength
  exact ⟨hleaves, hshort⟩

end VoxelSchematic.Wire
