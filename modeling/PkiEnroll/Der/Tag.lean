namespace PkiEnroll.Der

inductive Universal where
  | boolean | integer | bitString | octetString | null | oid | real | enumerated | utf8String
  | numericString | printableString | teletexString | videotexString | ia5String | utcTime
  | generalizedTime | visibleString | bmpString | sequence | set
  deriving DecidableEq, Repr

/-- Number 31 is left out: it announces a longer tag. -/
abbrev TagNumber := Fin 31

instance TagNumber.neZero : @NeZero Nat ⟨0⟩ 31 := ⟨by decide⟩

inductive Tag where
  | universal (type : Universal)
  | application (constructed : Bool) (number : TagNumber)
  | context (constructed : Bool) (number : TagNumber)
  | privateUse (constructed : Bool) (number : TagNumber)
  deriving DecidableEq, Repr

namespace Universal

def octet : Universal → UInt8
  | boolean => 0x01
  | integer => 0x02
  | bitString => 0x03
  | octetString => 0x04
  | null => 0x05
  | oid => 0x06
  | real => 0x09
  | enumerated => 0x0a
  | utf8String => 0x0c
  | numericString => 0x12
  | printableString => 0x13
  | teletexString => 0x14
  | videotexString => 0x15
  | ia5String => 0x16
  | utcTime => 0x17
  | generalizedTime => 0x18
  | visibleString => 0x1a
  | bmpString => 0x1e
  | sequence => 0x30
  | set => 0x31

def all : List Universal :=
  [boolean, integer, bitString, octetString, null, oid, real, enumerated, utf8String, numericString,
    printableString, teletexString, videotexString, ia5String, utcTime, generalizedTime,
    visibleString, bmpString, sequence, set]

def ofOctet? (b : UInt8) : Option Universal := all.find? (·.octet = b)

theorem ofOctet?_octet (u : Universal) : ofOctet? u.octet = some u := by
  cases u <;> decide

end Universal

namespace Tag

def classOctet (class_ : UInt8) (constructed : Bool) (number : TagNumber) : UInt8 :=
  class_ + (if constructed then 0x20 else 0) + UInt8.ofNat number

def octet : Tag → UInt8
  | universal u => u.octet
  | application c n => classOctet 0x40 c n
  | context c n => classOctet 0x80 c n
  | privateUse c n => classOctet 0xc0 c n

/-- Reads an identifier octet. Number 31 announces further octets and is refused in every class. -/
def ofOctet? (b : UInt8) : Option Tag :=
  let constructed := b / 0x20 % 2 = 1
  let low := b.toNat % 32
  if h : low < 31 then
    match b / 0x40 with
    | 0 => (Universal.ofOctet? b).map universal
    | 1 => some (application constructed ⟨low, h⟩)
    | 2 => some (context constructed ⟨low, h⟩)
    | _ => some (privateUse constructed ⟨low, h⟩)
  else none

def isConstructed : Tag → Bool
  | universal u => u = .sequence || u = .set
  | application c _ | context c _ | privateUse c _ => c

theorem ofOctet?_octet (t : Tag) : ofOctet? t.octet = some t := by
  cases t with
  | universal u => cases u <;> decide
  | application c n => revert c n; decide
  | context c n => revert c n; decide
  | privateUse c n => revert c n; decide

end Tag

abbrev sequenceTag : Tag := .universal .sequence

end PkiEnroll.Der
