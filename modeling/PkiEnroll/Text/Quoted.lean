import PkiEnroll.Bytes

namespace PkiEnroll.Text

/-- Characters without a shape of their own. -/
def isInvisible (c : Char) : Bool :=
  let n := c.toNat
  n < 0x20 || (0x7f ≤ n && n < 0xa0) || n = 0xad || (0x200b ≤ n && n ≤ 0x200f) ||
    (0x2028 ≤ n && n ≤ 0x202e) || (0x2060 ≤ n && n ≤ 0x206f) || n = 0xfeff ||
    (0xe000 ≤ n && n ≤ 0xf8ff)

/-- A character between the quotes; an invisible one is named by its number. -/
def escape (c : Char) : String :=
  if c = '"' then "\\\""
  else if c = '\\' then "\\\\"
  else if c = '\n' then "\\n"
  else if c = '\t' then "\\t"
  else if c = '\x0d' then "\\r"
  else if c = '\x00' then "\\0"
  else if isInvisible c then "\\u\x7b" ++ String.ofList (Nat.toDigits 16 c.toNat) ++ "\x7d"
  else c.toString

def quoted (s : String) : String := "\"" ++ String.join (s.toList.map escape) ++ "\""

def mask : String := quoted "*****"

def described (kind : String) (fields : List (String × String)) : String :=
  kind ++ " \x7b " ++ ", ".intercalate (fields.map fun (name, value) => name ++ ": " ++ value) ++ " \x7d"

end PkiEnroll.Text
