import PkiEnroll.X509.Registry
import PkiEnroll.X509.Name

namespace PkiEnroll.X509

open Der

namespace NameText

/-- Splits at separators. One is escaped by a backslash before it, unless that has a backslash
before itself; `before` and `last` are the two bytes already passed. -/
def splitUnescaped (separator before last : UInt8) : Bytes → List Bytes
  | [] => [[]]
  | c :: rest =>
    let parts := splitUnescaped separator last c rest
    if c = separator ∧ ¬(last = 0x5c ∧ before ≠ 0x5c) then [] :: parts
    else
      match parts with
      | [] => [[c]]
      | part :: parts => (c :: part) :: parts

def isSpecial (c : UInt8) : Bool := " \"#=\\+,;<>".toList.any fun s => s.toNat = c.toNat

inductive Escape where
  | none
  | started
  | digit (high : UInt8)

/-- Undoes escapes; one that the text breaks off is dropped. -/
def unescape? : Escape → Bytes → Option Bytes
  | _, [] => some []
  | .none, c :: rest =>
    if c = 0x5c then unescape? .started rest else (unescape? .none rest).map (c :: ·)
  | .started, c :: rest =>
    if isSpecial c then (unescape? .none rest).map (c :: ·)
    else Bytes.hexValue? c >>= fun high => unescape? (.digit high) rest
  | .digit high, c :: rest => do
    let low ← Bytes.hexValue? c
    let tail ← unescape? .none rest
    return (16 * high + low) :: tail

def valueTag (type : Oid) : Tag :=
  if type = Registry.countryName ∨ type = Registry.serialNumber then
    .universal .printableString
  else if type = Registry.domainComponent then .universal .ia5String
  else .universal .utf8String

/-- After a hash sign stands the encoding of the value in hexadecimal. -/
def value? (type : Oid) : Bytes → Option Element
  | 0x23 :: digits => Bytes.ofHexDigits? digits >>= Element.ofBytes?
  | text => (unescape? .none text).map fun value => ⟨valueTag type, value⟩

/-- The type is a name or a dotted identifier, and ends at the first equals sign. -/
def attribute? (text : Bytes) : Option Attribute :=
  match text.dropWhile (· ≠ 0x3d) with
  | [] => none
  | _ :: value => do
    let key ← Bytes.toString? (text.takeWhile (· ≠ 0x3d))
    let type ← Registry.byName? key <|> Oid.ofString? key
    return ⟨type, ← value? type value⟩

/-- The attributes of a relative name are joined by plus signs. -/
def relativeName? (text : Bytes) : Option RelativeName :=
  (splitUnescaped 0x2b 0 0 text).mapM attribute? >>= SetOf.ofList?

def valueText? (value : Element) : Option String :=
  match value.tag with
  | .universal .printableString => if isPrintable value.content then Bytes.toString? value.content else none
  | .universal .utf8String => Bytes.toString? value.content
  | .universal .ia5String => if isAscii value.content then Bytes.toString? value.content else none
  | .universal .teletexString => if isAscii value.content then Bytes.toString? value.content else none
  | _ => none

def controlHex (c : Char) : List Char :=
  [Bytes.hexDigit (UInt8.ofNat (c.toNat / 16)), Bytes.hexDigit (UInt8.ofNat (c.toNat % 16))]

/-- Escapes a character; `isFirst` and `isLast` tell its place in the value. -/
def escapeChar (isFirst isLast : Bool) (c : Char) : List Char :=
  if (c = '#' ∧ isFirst) ∨ (c = ' ' ∧ (isFirst ∨ isLast)) ∨ "\"+,;<>\\".toList.contains c then ['\\', c]
  else if c.toNat < 0x20 ∨ c.toNat = 0x7f then '\\' :: controlHex c
  else [c]

def escapeFrom (isFirst : Bool) : List Char → List Char
  | [] => []
  | c :: rest => escapeChar isFirst rest.isEmpty c ++ escapeFrom false rest

def ofAttribute (a : Attribute) : String :=
  match Registry.shortName? a.type, valueText? a.value with
  | some key, some value =>
    String.ofList (key.toList.map Char.toUpper ++ '=' :: escapeFrom true value.toList)
  | _, _ => a.type.toString ++ "=#" ++ Bytes.hex (encode a.value)

def ofRelativeName (r : RelativeName) : String := "+".intercalate (r.members.map ofAttribute)

end NameText

namespace Name

def ofText? (s : String) : Option Name :=
  ((NameText.splitUnescaped 0x2c 0 0 (Bytes.ofString s)).mapM NameText.relativeName?).map
    fun parts => ⟨parts.reverse⟩

def text (n : Name) : String := ",".intercalate (n.rdns.reverse.map NameText.ofRelativeName)

end Name

end PkiEnroll.X509
