import PkiEnroll.Bytes

namespace PkiEnroll.Url.Percent

def upperHexDigit (n : UInt8) : Char := if n < 10 then Char.ofNat (48 + n.toNat) else Char.ofNat (55 + n.toNat)

def encodeByte (b : UInt8) : List Char := ['%', upperHexDigit (b / 16), upperHexDigit (b % 16)]

def encode (set : List Char) (cs : List Char) : String :=
  String.ofList <| cs.flatMap fun c =>
    if c.toNat < 0x20 ∨ 0x7e < c.toNat ∨ c ∈ set then
      (Bytes.ofString c.toString).flatMap encodeByte
    else [c]

/-- Decodes the bytes that are encoded; a percent sign without two digits after it stays. -/
def decode : Bytes → Bytes
  | 0x25 :: high :: low :: rest =>
    match Bytes.hexValue? high, Bytes.hexValue? low with
    | some h, some l => (16 * h + l) :: decode rest
    | _, _ => 0x25 :: decode (high :: low :: rest)
  | b :: rest => b :: decode rest
  | [] => []

def query : List Char := [' ', '"', '#', '<', '>', '\'']
def fragment : List Char := [' ', '"', '<', '>', '\x60']
def path : List Char := fragment ++ ['#', '?', '\x7b', '\x7d']
def userInfo : List Char := path ++ ['/', ':', ';', '=', '@', '[', '\\', ']', '^', '|']

end PkiEnroll.Url.Percent
