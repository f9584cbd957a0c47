import PkiEnroll.Der.Primitive

namespace PkiEnroll.Der.NamedBits

/-- Byte `j` of the bit string, whose first bit is its most significant. -/
def byte (word j : Nat) : UInt8 :=
  UInt8.ofNat
    (((List.range 8).filter fun k => word.testBit (8 * j + k)).foldl (fun n k => n + 1 <<< (7 - k)) 0)

def toBitString (word : Nat) : BitString :=
  let width := Bytes.bitLength word
  let count := (width + 7) / 8
  ⟨Fin.ofNat 8 (8 * count - width), (List.range count).map (byte word), by
    intro h
    have : count = 0 := by simpa using h
    have hw : width = 0 := by omega
    simp [this, hw]⟩

/-- The set of the first `limit` bits. Unused bits are not looked at. -/
def ofBitString (limit : Nat) (s : BitString) : Nat :=
  let isSet i := (s.bytes.getD (i / 8) 0).toNat.testBit (7 - i % 8)
  ((List.range (min s.bitLength limit)).filter isSet).foldl (fun n i => n + 1 <<< i) 0

end PkiEnroll.Der.NamedBits
