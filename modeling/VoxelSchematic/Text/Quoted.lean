import VoxelSchematic.Text.Unprintable

/-!
# Quoted texts

The form in which messages show a text that they did not write themselves: in double quotes,
with a backslash before quotes and backslashes, a letter for the common controls, and the code
point in braces for every other character that cannot be shown.
-/

namespace VoxelSchematic.Text

def shown (c : Char) : List Char :=
  if c = '"' then ['\\', '"']
  else if c = '\\' then ['\\', '\\']
  else if c = '\n' then ['\\', 'n']
  else if c = '\r' then ['\\', 'r']
  else if c = '\t' then ['\\', 't']
  else if c.toNat = 0 then ['\\', '0']
  else if isUnprintable c then
    ['\\', 'u', '\x7b'] ++ Nat.toDigits 16 c.toNat ++ ['\x7d']
  else [c]

def quoted (text : String) : String :=
  String.ofList (['"'] ++ text.toList.flatMap shown ++ ['"'])

end VoxelSchematic.Text
