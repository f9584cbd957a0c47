import PkiEnroll.Der.Encoding

namespace PkiEnroll.Der

namespace Integer

/-- The fewest bytes whose two's complement range holds the value. -/
def width (v : Int) : Nat :=
  Bytes.bitLength (if 0 ≤ v then v.toNat else (-v - 1).toNat) / 8 + 1

def encode (v : Int) : Bytes :=
  let w := width v
  Bytes.ofNat w (v % Bytes.capacity w).toNat

def value (b : Bytes) : Int :=
  match b with
  | [] => 0
  | first :: _ =>
    if first < 0x80 then Bytes.toNat b else (Bytes.toNat b : Int) - Bytes.capacity b.length

/-- A first byte that only repeats the sign is not written. -/
def isMinimal : Bytes → Bool
  | [] => false
  | [_] => true
  | first :: second :: _ => !((first = 0x00 && second < 0x80) || (first = 0xff && 0x80 ≤ second))

def decode? (b : Bytes) : Option Int := if isMinimal b then some (value b) else none

end Integer

instance : Content Int64 where
  tag := .universal .integer
  content v := Integer.encode v.toInt
  ofContent? b := do
    let v ← Integer.decode? b
    if Int64.minValue.toInt ≤ v ∧ v ≤ Int64.maxValue.toInt then some (Int64.ofInt v) else none

instance : Content UInt8 where
  tag := .universal .integer
  content v := Integer.encode v.toNat
  ofContent? b := do
    let v ← Integer.decode? b
    if 0 ≤ v ∧ v < UInt8.size then some (UInt8.ofNat v.toNat) else none

instance : Content UInt32 where
  tag := .universal .integer
  content v := Integer.encode v.toNat
  ofContent? b := do
    let v ← Integer.decode? b
    if 0 ≤ v ∧ v < UInt32.size then some (UInt32.ofNat v.toNat) else none

/-- Integers without an upper bound, none below zero. -/
instance : Content Nat where
  tag := .universal .integer
  content v := Integer.encode v
  ofContent? b := do
    let v ← Integer.decode? b
    if 0 ≤ v then some v.toNat else none

end PkiEnroll.Der
