import PkiEnroll.Der.Encoding

namespace PkiEnroll.Der

instance : Content Bool where
  tag := .universal .boolean
  content b := [if b then 0xff else 0x00]
  ofContent?
    | [0x00] => some false
    | [0xff] => some true
    | _ => none

structure Null where
  deriving DecidableEq, Repr

instance : Content Null where
  tag := .universal .null
  content _ := []
  ofContent? b := if b.isEmpty then some ⟨⟩ else none

structure OctetString where
  bytes : Bytes
  deriving DecidableEq, Repr

instance : Content OctetString where
  tag := .universal .octetString
  content s := s.bytes
  ofContent? b := some ⟨b⟩

instance BitString.unusedNeZero : @NeZero Nat ⟨0⟩ 8 := ⟨by decide⟩

/-- A string of bits that fills its last byte up to `unused` bits. What stands in the unused bits is
kept as it came. -/
structure BitString where
  unused : Fin 8
  bytes : Bytes
  unused_eq_zero : bytes = [] → unused = 0
  deriving DecidableEq, Repr

namespace BitString

def mk? (unused : Nat) (bytes : Bytes) : Option BitString :=
  if h : unused < 8 then
    if e : bytes = [] → (⟨unused, h⟩ : Fin 8) = 0 then some ⟨⟨unused, h⟩, bytes, e⟩ else none
  else none

def ofBytes (bytes : Bytes) : BitString := ⟨0, bytes, fun _ => rfl⟩

def toBytes? (s : BitString) : Option Bytes := if s.unused = 0 then some s.bytes else none

def bitLength (s : BitString) : Nat := 8 * s.bytes.length - s.unused

end BitString

instance : Content BitString where
  tag := .universal .bitString
  content s := UInt8.ofNat s.unused :: s.bytes
  ofContent?
    | [] => none
    | unused :: bytes => BitString.mk? unused.toNat bytes

instance : Content String where
  tag := .universal .utf8String
  content := Bytes.ofString
  ofContent? := Bytes.toString?

def isAscii (b : Bytes) : Bool := b.all (· < 0x80)

def isPrintable (b : Bytes) : Bool :=
  b.all fun c =>
    (0x41 ≤ c && c ≤ 0x5a) || (0x61 ≤ c && c ≤ 0x7a) || (0x30 ≤ c && c ≤ 0x39) ||
      " '()+,-./:=?".toList.any fun p => p.toNat = c.toNat

structure Ia5String where
  bytes : Bytes
  deriving DecidableEq, Repr

instance : Content Ia5String where
  tag := .universal .ia5String
  content s := s.bytes
  ofContent? b := if isAscii b then some ⟨b⟩ else none

structure PrintableString where
  bytes : Bytes
  deriving DecidableEq, Repr

instance : Content PrintableString where
  tag := .universal .printableString
  content s := s.bytes
  ofContent? b := if isPrintable b then some ⟨b⟩ else none

/-- TeletexString, of which the ASCII part is read. -/
structure TeletexString where
  bytes : Bytes
  deriving DecidableEq, Repr

instance : Content TeletexString where
  tag := .universal .teletexString
  content s := s.bytes
  ofContent? b := if isAscii b then some ⟨b⟩ else none

end PkiEnroll.Der
