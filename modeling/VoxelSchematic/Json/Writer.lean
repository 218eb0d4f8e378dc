/-!
# Writing JSON

`Json.quoted` is the written form of a text. The two characters with a meaning of their own and
the control characters are escaped, the latter by a letter where there is one; everything else
stands for itself.
-/

namespace VoxelSchematic.Json

def hexDigit (n : Nat) : Char := if n < 10 then Char.ofNat (48 + n) else Char.ofNat (87 + n)

def escaped (c : Char) : List Char :=
  if c = '"' then ['\\', '"']
  else if c = '\\' then ['\\', '\\']
  else if c = '\n' then ['\\', 'n']
  else if c = '\r' then ['\\', 'r']
  else if c = '\t' then ['\\', 't']
  else if c.toNat = 8 then ['\\', 'b']
  else if c.toNat = 12 then ['\\', 'f']
  else if c.toNat < 32 then
    ['\\', 'u', '0', '0', hexDigit (c.toNat / 16), hexDigit (c.toNat % 16)]
  else [c]

def quoted (text : String) : List Char := ['"'] ++ text.toList.flatMap escaped ++ ['"']

def integer (n : Int) : List Char := (toString n).toList

def separated (separator : List Char) : List (List Char) → List Char
  | [] => []
  | [part] => part
  | part :: rest => part ++ separator ++ separated separator rest

def compactObject (members : List (String × List Char)) : List Char :=
  ['\x7b'] ++ separated [','] (members.map fun member => quoted member.1 ++ [':'] ++ member.2)
    ++ ['\x7d']

/-- A line break and two blanks for each level. -/
def lineBreak (level : Nat) : List Char := '\n' :: List.replicate (2 * level) ' '

/-- An object with a line for each member, inside something that is indented by `level`. -/
def indentedObject (level : Nat) (members : List (String × List Char)) : List Char :=
  if members.isEmpty then ['\x7b', '\x7d']
  else
    ['\x7b'] ++ lineBreak (level + 1)
      ++ separated ([','] ++ lineBreak (level + 1))
        (members.map fun member => quoted member.1 ++ [':', ' '] ++ member.2)
      ++ lineBreak level ++ ['\x7d']

end VoxelSchematic.Json
