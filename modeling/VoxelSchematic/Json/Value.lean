/-!
# JSON values

The syntax tree of a JSON document. Texts are kept as they are written, between their quotes,
so that a reader that passes over a text need not make sense of it; `Json.Raw.text?` does.
Numbers are kept as digits.
-/

namespace VoxelSchematic.Json

/-- A text as it is written, without its quotes. -/
structure Raw where
  bytes : List UInt8
deriving Repr, DecidableEq

structure Numeral where
  negative : Bool
  /-- The digits before the point. -/
  whole : List Nat
  /-- The digits behind the point. -/
  fraction : Option (List Nat) := none
  /-- The sign and the digits of the exponent. -/
  exponent : Option (Bool × List Nat) := none
deriving Repr, DecidableEq

inductive Value where
  | null
  | bool (value : Bool)
  | number (numeral : Numeral)
  | text (raw : Raw)
  | array (items : List Value)
  | object (members : List (Raw × Value))

def hexDigit? (byte : UInt8) : Option Nat :=
  let n := byte.toNat
  if 48 ≤ n ∧ n ≤ 57 then some (n - 48)
  else if 97 ≤ n ∧ n ≤ 102 then some (n - 87)
  else if 65 ≤ n ∧ n ≤ 70 then some (n - 55)
  else none

def hexUnit? (a b c d : UInt8) : Option Nat := do
  return (((← hexDigit? a) * 16 + (← hexDigit? b)) * 16 + (← hexDigit? c)) * 16 + (← hexDigit? d)

/-- The byte that a letter behind a backslash stands for. -/
def escapedByte? : UInt8 → Option UInt8
  | 34 => some 34
  | 92 => some 92
  | 47 => some 47
  | 98 => some 8
  | 102 => some 12
  | 110 => some 10
  | 114 => some 13
  | 116 => some 9
  | _ => none

namespace Raw

/-- Whether a sixteen-bit unit is the first half of a pair. -/
def isLeading (unit : Nat) : Bool := 0xD800 ≤ unit && unit ≤ 0xDBFF

def isTrailing (unit : Nat) : Bool := 0xDC00 ≤ unit && unit ≤ 0xDFFF

def paired (leading trailing : Nat) : Char :=
  Char.ofNat ((leading - 0xD800) * 0x400 + (trailing - 0xDC00) + 0x10000)

/-- Appends the bytes that a written text stands for. A unit that is half a pair must be
followed by the other half. -/
def decodeFrom? : List UInt8 → Array UInt8 → Option (Array UInt8)
  | [], done => some done
  | 92 :: 117 :: a :: b :: c :: d :: rest, done => do
      let unit ← hexUnit? a b c d
      if isTrailing unit then none
      else if isLeading unit then
        match rest with
        | 92 :: 117 :: a' :: b' :: c' :: d' :: rest =>
            let other ← hexUnit? a' b' c' d'
            if isTrailing other then
              decodeFrom? rest (done ++ String.utf8EncodeChar (paired unit other))
            else none
        | _ => none
      else decodeFrom? rest (done ++ String.utf8EncodeChar (Char.ofNat unit))
  | 92 :: letter :: rest, done => do
      let byte ← escapedByte? letter
      decodeFrom? rest (done.push byte)
  | byte :: rest, done => decodeFrom? rest (done.push byte)

def text? (raw : Raw) : Option String := do
  String.fromUTF8? ⟨← decodeFrom? raw.bytes #[]⟩

end Raw

namespace Value

/-- The members of an object by name; a name must be a text, what it names may be anything. -/
def namedMembers? (members : List (Raw × Value)) : Option (List (String × Value)) :=
  members.mapM fun member => do return (← member.1.text?, member.2)

/-- The values of the given fields, from an object or from an array that lists them in order.
An object may hold more fields, but none of these twice; an array may stop early. -/
def fields? (names : List String) : Value → Option (List (Option Value))
  | .array items =>
      if items.length ≤ names.length then
        some (items.map some ++ List.replicate (names.length - items.length) none)
      else none
  | .object members => do
      let named ← namedMembers? members
      names.mapM fun name =>
        match named.filter (·.1 == name) with
        | [] => some none
        | [(_, value)] => some (some value)
        | _ => none
  | _ => none

/-- The values of the given fields, all of which must be there. -/
def allFields? (names : List String) (v : Value) : Option (List Value) := do
  (← v.fields? names).mapM id

end Value

namespace Numeral

def ofDigits (digits : List Nat) : Nat := digits.foldl (fun n d => 10 * n + d) 0

/-- The integer that is written, without fraction and exponent. Minus zero is no integer. -/
def integer? (n : Numeral) : Option Int :=
  if n.fraction.isSome || n.exponent.isSome then none
  else
    let magnitude := ofDigits n.whole
    if n.negative then (if magnitude = 0 then none else some (-magnitude)) else some magnitude

end Numeral

def Value.integerIn? (low high : Int) : Value → Option Int
  | .number n => do
      let i ← n.integer?
      if low ≤ i ∧ i ≤ high then some i else none
  | _ => none

end VoxelSchematic.Json
