import VoxelSchematic.Json.Value

/-!
# Reading JSON

`Json.read?` turns the bytes of a document into its syntax tree. Blanks may stand around every
token; nothing may follow the value. Bytes inside a text are not looked at, except that control
characters are refused and escapes must be well formed.

Every step takes a byte, so the length of the input bounds the recursion.
-/

namespace VoxelSchematic.Json

/-- Reads from the front of a byte sequence. -/
abbrev Scan (α : Type) := List UInt8 → Option (α × List UInt8)

namespace Scan

def isBlank (byte : UInt8) : Bool := byte == 32 || byte == 10 || byte == 9 || byte == 13

def skipBlanks (input : List UInt8) : List UInt8 := input.dropWhile isBlank

def isDigit (byte : UInt8) : Bool := 48 ≤ byte && byte ≤ 57

def exactly : List UInt8 → Scan Unit
  | [], input => some ((), input)
  | b :: bs, c :: rest => if b = c then exactly bs rest else none
  | _ :: _, [] => none

/-- A text behind its opening quote, put behind what has been read of it. -/
def rawFrom : List UInt8 → Array UInt8 → Option (Raw × List UInt8)
  | 34 :: rest, done => some (⟨done.toList⟩, rest)
  | 92 :: 117 :: a :: b :: c :: d :: rest, done => do
      let _ ← hexUnit? a b c d
      rawFrom rest (done ++ [92, 117, a, b, c, d])
  | 92 :: letter :: rest, done => do
      let _ ← escapedByte? letter
      rawFrom rest (done ++ [92, letter])
  | byte :: rest, done => if byte < 32 || byte == 92 then none else rawFrom rest (done.push byte)
  | [], _ => none

def raw : Scan Raw := fun input => rawFrom input #[]

def digits (input : List UInt8) : List Nat × List UInt8 :=
  ((input.takeWhile isDigit).map fun byte => byte.toNat - 48, input.dropWhile isDigit)

def someDigits : Scan (List Nat) := fun input =>
  match digits input with
  | ([], _) => none
  | result => some result

/-- The digits before the point: a zero stands alone. -/
def wholePart : Scan (List Nat)
  | 48 :: rest =>
      match rest with
      | next :: _ => if isDigit next then none else some ([0], rest)
      | [] => some ([0], [])
  | input => someDigits input

/-- A point with digits, if one follows. -/
def fractionPart : Scan (Option (List Nat))
  | 46 :: rest => do
      let (ds, rest) ← someDigits rest
      return (some ds, rest)
  | input => some (none, input)

def exponentPart : Scan (Option (Bool × List Nat))
  | byte :: rest =>
      if byte = 101 ∨ byte = 69 then do
        let (negative, rest) := match rest with
          | 43 :: rest => (false, rest)
          | 45 :: rest => (true, rest)
          | _ => (false, rest)
        let (ds, rest) ← someDigits rest
        return (some (negative, ds), rest)
      else some (none, byte :: rest)
  | [] => some (none, [])

def numeral : Scan Numeral := fun input => do
  let (negative, rest) := match input with
    | 45 :: rest => (true, rest)
    | _ => (false, input)
  let (whole, rest) ← wholePart rest
  let (fraction, rest) ← fractionPart rest
  let (exponent, rest) ← exponentPart rest
  return (⟨negative, whole, fraction, exponent⟩, rest)

mutual

/-- A value with blanks in front of it. -/
def value : Nat → Scan Value
  | 0, _ => none
  | fuel + 1, input =>
      match skipBlanks input with
      | 110 :: rest => do return (.null, (← exactly [117, 108, 108] rest).2)
      | 116 :: rest => do return (.bool true, (← exactly [114, 117, 101] rest).2)
      | 102 :: rest => do return (.bool false, (← exactly [97, 108, 115, 101] rest).2)
      | 34 :: rest => do
          let (text, rest) ← raw rest
          return (.text text, rest)
      | 91 :: rest =>
          match skipBlanks rest with
          | 93 :: rest => some (.array [], rest)
          | rest => do
              let (items, rest) ← items fuel rest
              return (.array items, rest)
      | 123 :: rest =>
          match skipBlanks rest with
          | 125 :: rest => some (.object [], rest)
          | rest => do
              let (members, rest) ← members fuel rest
              return (.object members, rest)
      | rest => do
          let (n, rest) ← numeral rest
          return (.number n, rest)

/-- The items of an array up to its closing bracket; there is at least one. -/
def items : Nat → Scan (List Value)
  | 0, _ => none
  | fuel + 1, input => do
      let (first, rest) ← value fuel input
      match skipBlanks rest with
      | 93 :: rest => return ([first], rest)
      | 44 :: rest =>
          let (others, rest) ← items fuel rest
          return (first :: others, rest)
      | _ => none

def members : Nat → Scan (List (Raw × Value))
  | 0, _ => none
  | fuel + 1, input => do
      match skipBlanks input with
      | 34 :: rest =>
          let (name, rest) ← raw rest
          let (_, rest) ← exactly [58] (skipBlanks rest)
          let (first, rest) ← value fuel rest
          match skipBlanks rest with
          | 125 :: rest => return ([(name, first)], rest)
          | 44 :: rest =>
              let (others, rest) ← members fuel rest
              return ((name, first) :: others, rest)
          | _ => none
      | _ => none

end

end Scan

def read? (input : List UInt8) : Option Value := do
  let (value, rest) ← Scan.value (input.length + 1) input
  if (Scan.skipBlanks rest).isEmpty then return value else none

end VoxelSchematic.Json
